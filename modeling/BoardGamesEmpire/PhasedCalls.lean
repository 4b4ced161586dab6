import Mathlib.Data.List.Basic
import Mathlib.Tactic.Common

set_option autoImplicit false

/-!
# Calls that take turns on shared state

Any number of calls, each in a phase of its own. A call moves from one phase to
the next in one step, on the shared state as it is then and with an answer from
the outside; between two of its steps the others move.
-/
namespace BoardGamesEmpire

section Positions

variable {α : Type} {l : List α} {i j : ℕ} {x y : α}

theorem getElem?_set_cases (h : (l.set i x)[j]? = some y) :
  (j = i ∧ y = x) ∨ (j ≠ i ∧ l[j]? = some y) := by
 by_cases hji : j = i
 · subst hji
   have hlt := (List.getElem?_eq_some_iff.1 h).1
   rw [List.length_set] at hlt
   rw [List.getElem?_set_self hlt] at h
   exact .inl ⟨rfl, (Option.some.inj h).symm⟩
 · rw [List.getElem?_set_ne (Ne.symm hji)] at h
   exact .inr ⟨hji, h⟩

theorem getElem?_concat_cases (h : (l ++ [x])[j]? = some y) :
  l[j]? = some y ∨ (j = l.length ∧ y = x) := by
 rcases Nat.lt_or_ge j l.length with hlt | hge
 · rw [List.getElem?_append_left hlt] at h
   exact .inl h
 · rw [List.getElem?_append_right hge, List.getElem?_singleton] at h
   split at h
   · cases h
     exact .inr ⟨by omega, rfl⟩
   · cases h

end Positions

namespace PhasedCalls

section Machine

/-- How a request becomes a call, how a call moves, and what else moves the
    shared state. -/
structure Program (R A E σ κ : Type) where
  start : R → σ → κ
  move : A → κ → σ → Option (κ × σ)
  outside : E → σ → Option σ

structure Sys (σ κ : Type) where
  shared : σ
  calls : List κ

inductive Action (R A E : Type) where
  | begin (request : R)
  | advance (i : ℕ) (answer : A)
  | outside (e : E)

variable {R A E σ κ : Type}

def step (program : Program R A E σ κ) (s : Sys σ κ) : Action R A E → Option (Sys σ κ)
  | .begin request => some ⟨s.shared, s.calls ++ [program.start request s.shared]⟩
  | .advance i answer =>
    s.calls[i]?.bind fun call =>
      (program.move answer call s.shared).map fun moved => ⟨moved.2, s.calls.set i moved.1⟩
  | .outside e => (program.outside e s.shared).map fun shared => ⟨shared, s.calls⟩

def run (program : Program R A E σ κ) (s : Sys σ κ) : List (Action R A E) → Option (Sys σ κ)
  | [] => some s
  | a :: rest => (step program s a).bind fun s' => run program s' rest

inductive ReachableBy (program : Program R A E σ κ) (allowed : Sys σ κ → Action R A E →
    Prop) (initial : σ) :
    Sys σ κ → Prop where
  | start : ReachableBy program allowed initial ⟨initial, []⟩
  | step {s s' : Sys σ κ} (a : Action R A E) (h : ReachableBy program allowed initial s) (hallowed : allowed s a)
      (hstep : step program s a = some s') : ReachableBy program allowed initial s'

abbrev Reachable (program : Program R A E σ κ) (initial : σ) : Sys σ κ → Prop :=
  ReachableBy program (fun _ _ => True) initial

variable {program : Program R A E σ κ} {allowed : Sys σ κ → Action R A E → Prop} {initial : σ}

theorem reachable_of_run {s s' : Sys σ κ} {actions : List (Action R A E)}
  (hs : Reachable program initial s) (h : run program s actions = some s') :
  Reachable program initial s' := by
 induction actions generalizing s with
 | nil =>
  cases h
  exact hs
 | cons a rest ih =>
  obtain ⟨mid, hmid, hrest⟩ := Option.bind_eq_some_iff.1 h
  exact ih (hs.step a trivial hmid) hrest

/-- `run`, with a check that every step is allowed. -/
def runChecked (program : Program R A E σ κ) (check : Sys σ κ → Action R A E → Bool) (s : Sys σ κ) :
    List (Action R A E) → Option (Sys σ κ)
  | [] => some s
  | a :: rest => if check s a then (step program s a).bind fun s' =>
   runChecked program check s' rest else none

theorem reachable_of_runChecked {check : Sys σ κ → Action R A E → Bool}
  (hcheck : ∀ s a, check s a = true → allowed s a) {s s' : Sys σ κ} {actions : List (Action R A E)}
  (hs : ReachableBy program allowed initial s) (h : runChecked program check s actions = some s') :
  ReachableBy program allowed initial s' := by
 induction actions generalizing s with
 | nil =>
  cases h
  exact hs
 | cons a rest ih =>
  rw [runChecked] at h
  split at h
  · obtain ⟨mid, hmid, hrest⟩ := Option.bind_eq_some_iff.1 h
    exact ih (hs.step a (hcheck s a (by assumption)) hmid) hrest
  · cases h

theorem step_cases {s s' : Sys σ κ} {a : Action R A E} (h : step program s a = some s') :
  (∃ request, a = .begin request ∧ s' = ⟨s.shared, s.calls ++ [program.start request s.shared]⟩) ∨
  (∃ i answer call moved, a = .advance i answer ∧ s.calls[i]? = some call ∧
   program.move answer call s.shared = some moved ∧ s' = ⟨moved.2, s.calls.set i moved.1⟩) ∨
  ∃ e shared, a = .outside e ∧ program.outside e s.shared = some shared ∧ s' = ⟨shared, s.calls⟩ := by
 cases a with
 | begin request =>
  cases h
  exact .inl ⟨request, rfl, rfl⟩
 | advance i answer =>
  obtain ⟨call, hcall, hmove⟩ := Option.bind_eq_some_iff.1 h
  obtain ⟨moved, hmoved, rfl⟩ := Option.map_eq_some_iff.1 hmove
  exact .inr (.inl ⟨i, answer, call, moved, rfl, hcall, hmoved, rfl⟩)
 | outside e =>
  obtain ⟨shared, hshared, rfl⟩ := Option.map_eq_some_iff.1 h
  exact .inr (.inr ⟨e, shared, rfl, hshared, rfl⟩)

end Machine

theorem step_last {R A E σ κ : Type} (program : Program R A E σ κ) (shared : σ) (calls : List κ)
  (call : κ) (answer : A) :
  step program ⟨shared, calls ++ [call]⟩ (.advance calls.length answer) =
   (program.move answer call shared).map fun moved => ⟨moved.2, calls ++ [moved.1]⟩ := by
 rw [step, List.getElem?_concat_length, Option.bind_some]
 congr 1
 funext moved
 rw [List.set_append_right _ _ (Nat.le_refl _), Nat.sub_self, List.set_cons_zero]

end PhasedCalls

end BoardGamesEmpire
