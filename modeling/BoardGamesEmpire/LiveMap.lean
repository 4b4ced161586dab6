import Mathlib.Data.List.Basic
import Mathlib.Tactic.Common

set_option autoImplicit false

/-!
# A map that may change while it is iterated

Slots in the order of insertion; a deleted entry leaves its slot empty. An
iterator is a position, so it goes on from where it stood and also visits what
was added behind it.
-/
namespace BoardGamesEmpire

structure LiveMap (K V : Type) where
  slots : List (Option (K × V))

namespace LiveMap

variable {K V : Type} [DecidableEq K]

def empty : LiveMap K V := ⟨[]⟩

def valueAt (k : K) (slot : Option (K × V)) : Option V :=
  slot.bind fun entry => if entry.1 = k then some entry.2 else none

def lookup (m : LiveMap K V) (k : K) : Option V := m.slots.findSome? (valueAt k)

def replaced (k : K) (v : V) (slot : Option (K × V)) : Option (K × V) :=
  slot.map fun entry => if entry.1 = k then (k, v) else entry

def set (m : LiveMap K V) (k : K) (v : V) : LiveMap K V :=
  if (m.lookup k).isSome then ⟨m.slots.map (replaced k v)⟩ else ⟨m.slots ++ [some (k, v)]⟩

def delete (m : LiveMap K V) (k : K) : LiveMap K V :=
  ⟨m.slots.map fun slot => slot.filter fun entry => entry.1 ≠ k⟩

/-- The first entry at or behind a position, with the position behind it. -/
def nextFrom (m : LiveMap K V) (position : ℕ) : Option (K × ℕ) :=
  ((m.slots.zipIdx.drop position).findSome? fun (slot, i) => slot.map fun entry => (entry.1, i + 1))

theorem findSome?_replaced (k : K) (v : V) (slots : List (Option (K × V))) :
  (slots.map (replaced k v)).findSome? (valueAt k) = (slots.findSome? (valueAt k)).map fun _ => v := by
 induction slots with
 | nil => rfl
 | cons slot rest ih =>
  rw [List.map_cons, List.findSome?_cons, List.findSome?_cons, ih]
  cases slot with
  | none => rfl
  | some entry =>
   by_cases hk : entry.1 = k
   · simp [valueAt, replaced, hk]
   · simp [valueAt, replaced, hk]

theorem lookup_set_self (m : LiveMap K V) (k : K) (v : V) : (m.set k v).lookup k = some v := by
 unfold set
 cases hk : m.lookup k with
 | some old =>
  rw [if_pos Option.isSome_some]
  change (m.slots.map (replaced k v)).findSome? (valueAt k) = some v
  rw [findSome?_replaced]
  change (m.lookup k).map (fun _ => v) = some v
  rw [hk, Option.map_some]
 | none =>
  rw [if_neg (by simp)]
  change (m.slots ++ [some (k, v)]).findSome? (valueAt k) = some v
  rw [List.findSome?_append]
  change (m.lookup k).or _ = some v
  rw [hk]
  simp [valueAt]

theorem lookup_set_ne (m : LiveMap K V) {k k' : K} (v : V) (hne : k' ≠ k) :
  (m.set k v).lookup k' = m.lookup k' := by
 unfold set
 split
 · change (m.slots.map (replaced k v)).findSome? (valueAt k') = m.slots.findSome? (valueAt k')
   rw [List.findSome?_map]
   congr 1
   funext slot
   cases slot with
   | none => rfl
   | some entry =>
    by_cases hk : entry.1 = k
    · simp [valueAt, replaced, hk, Ne.symm hne]
    · simp [valueAt, replaced, hk]
 · change (m.slots ++ [some (k, v)]).findSome? (valueAt k') = m.slots.findSome? (valueAt k')
   rw [List.findSome?_append]
   simp [valueAt, Ne.symm hne]

theorem lookup_delete_self (m : LiveMap K V) (k : K) : (m.delete k).lookup k = none := by
 change (m.slots.map fun slot => slot.filter fun entry => decide (entry.1 ≠ k)).findSome?
  (valueAt k) = none
 rw [List.findSome?_map, List.findSome?_eq_none_iff]
 intro slot _
 cases slot with
 | none => rfl
 | some entry =>
  by_cases hk : entry.1 = k
  · simp [valueAt, Option.filter, hk]
  · simp [valueAt, Option.filter, hk]

theorem lookup_delete_ne (m : LiveMap K V) {k k' : K} (hne : k' ≠ k) :
  (m.delete k).lookup k' = m.lookup k' := by
 change (m.slots.map fun slot => slot.filter fun entry => decide (entry.1 ≠ k)).findSome? (valueAt k') =
  m.slots.findSome? (valueAt k')
 rw [List.findSome?_map]
 congr 1
 funext slot
 cases slot with
 | none => rfl
 | some entry =>
  by_cases hk : entry.1 = k
  · simp [valueAt, Option.filter, hk, Ne.symm hne]
  · simp [valueAt, Option.filter, hk]

end LiveMap

end BoardGamesEmpire
