import Mathlib

set_option autoImplicit false

/-!
# Tables whose rows say when they were written

A table holds one row under each key, and each row the time it was last
written. What a sequence of writes since some time leaves of a table is known
without the writes: under every key stands the old row, or one that was written
since. An ordered read of the same rows is the same list.
-/
namespace BoardGamesEmpire.StampedTables

section Tables

variable {κ ρ τ : Type} {key : ρ → κ}

structure Table (key : ρ → κ) where
  rows : List ρ
  unique : (rows.map key).Nodup

theorem Table.nodup_rows (t : Table key) : t.rows.Nodup := List.Nodup.of_map _ t.unique

variable [DecidableEq κ]

def Table.find (t : Table key) (k : κ) : Option ρ := t.rows.find? fun row => decide (key row = k)

theorem nodup_replaced {rows : List ρ} (hunique : (rows.map key).Nodup) (row : ρ) :
  ((rows.filter (fun old => decide (key old ≠ key row)) ++ [row]).map key).Nodup := by
 rw [List.map_append, List.map_singleton, List.nodup_append]
 refine ⟨hunique.sublist (List.filter_sublist.map key), List.nodup_singleton _, ?_⟩
 intro k hk k' hk'
 obtain ⟨old, hold, rfl⟩ := List.mem_map.1 hk
 rw [List.mem_singleton.1 hk']
 exact of_decide_eq_true (List.mem_filter.1 hold).2

/-- A create or an update: the row takes the place of the one under its key. -/
def Table.put (t : Table key) (row : ρ) : Table key :=
  ⟨t.rows.filter (fun old => decide (key old ≠ key row)) ++ [row], nodup_replaced t.unique row⟩

theorem Table.find_mem {t : Table key} {k : κ} {row : ρ} (h : t.find k = some row) :
  row ∈ t.rows ∧ key row = k :=
 ⟨List.mem_of_find?_eq_some h,
  of_decide_eq_true (@List.find?_some ρ (fun row => decide (key row = k)) _ _ h)⟩

theorem Table.find_key {t : Table key} {row : ρ} (h : row ∈ t.rows) :
  t.find (key row) = some row := by
 have hsome : (t.find (key row)).isSome = true := List.find?_isSome.2 ⟨row, h, decide_eq_true rfl⟩
 obtain ⟨found, hfound⟩ := Option.isSome_iff_exists.1 hsome
 obtain ⟨hmem, hkey⟩ := t.find_mem hfound
 rw [hfound, List.inj_on_of_nodup_map t.unique hmem h hkey]

theorem Table.find_put (t : Table key) (row : ρ) (k : κ) :
  (t.put row).find k = if key row = k then some row else t.find k := by
 have hput : (t.put row).find k =
   ((t.rows.filter fun old => decide (key old ≠ key row)).find? fun old => decide (key old = k)).or
    ([row].find? fun old => decide (key old = k)) := List.find?_append
 by_cases h : key row = k
 · have hnone : (t.rows.filter fun old => decide (key old ≠ key row)).find?
    (fun old => decide (key old = k)) = none := by
    rw [List.find?_eq_none]
    intro old hold heq
    exact of_decide_eq_true (List.mem_filter.1 hold).2 ((of_decide_eq_true heq).trans h.symm)
   rw [hput, hnone, if_pos h, List.find?_singleton, if_pos (decide_eq_true h)]
   rfl
 · have hsame : (t.rows.filter fun old => decide (key old ≠ key row)).find?
    (fun old => decide (key old = k)) = t.find k := by
    rw [List.find?_filter, Table.find]
    congr 1
    funext old
    by_cases hold : key old = k
    · simp [hold, Ne.symm h]
    · simp [hold]
   rw [hput, hsame, if_neg h, List.find?_singleton, if_neg (by simpa using h), Option.or_none]

section Since

variable [LE τ] (stamp : ρ → τ) (since : τ)

def WrittenSince (before after : Table key) : Prop :=
  ∀ k, after.find k = before.find k ∨ ∃ row, after.find k = some row ∧ since ≤ stamp row

theorem WrittenSince.refl (t : Table key) : WrittenSince stamp since t t := fun _ => .inl rfl

variable {stamp since}

theorem WrittenSince.trans {t u v : Table key} (h : WrittenSince stamp since t u)
  (h' : WrittenSince stamp since u v) :
  WrittenSince stamp since t v := by
 intro k
 rcases h' k with hsame | hwritten
 · rw [hsame]
   exact h k
 · exact .inr hwritten

theorem WrittenSince.put (t : Table key) {row : ρ} (h : since ≤ stamp row) :
  WrittenSince stamp since t (t.put row) := by
 intro k
 rw [t.find_put]
 by_cases hk : key row = k
 · exact .inr ⟨row, if_pos hk, h⟩
 · exact .inl (if_neg hk)

theorem WrittenSince.find_eq {before after : Table key} (h : WrittenSince stamp since before after)
  {k : κ} (hold : ∀ row, after.find k = some row → ¬since ≤ stamp row) :
  before.find k = after.find k := by
 rcases h k with hsame | ⟨row, hrow, hwritten⟩
 · exact hsame.symm
 · exact absurd hwritten (hold row hrow)

theorem WrittenSince.find_some {before after : Table key}
  (h : WrittenSince stamp since before after) {k : κ} {row : ρ} (hrow : before.find k = some row) :
  ∃ row', after.find k = some row' ∧ (row' = row ∨ since ≤ stamp row') := by
 rcases h k with hsame | ⟨row', hrow', hwritten⟩
 · exact ⟨row, hsame.trans hrow, .inl rfl⟩
 · exact ⟨row', hrow', .inr hwritten⟩

end Since

end Tables

section Ordered

variable {α : Type}

/-- A total order of the rows that a query asks for, as the database compares them. -/
structure TotalOrder (le : α → α → Bool) : Prop where
  trans : ∀ a b c, le a b = true → le b c = true → le a c = true
  total : ∀ a b, (le a b || le b a) = true

variable {le : α → α → Bool}

theorem TotalOrder.comap {β : Type} (h : TotalOrder le) (f : β → α) :
  TotalOrder fun a b => le (f a) (f b) where
 trans a b c := h.trans (f a) (f b) (f c)
 total a b := h.total (f a) (f b)

theorem sorted_mergeSort (hle : TotalOrder le) (l : List α) :
  (l.mergeSort le).Pairwise fun a b => le a b = true :=
 List.pairwise_mergeSort hle.trans hle.total l

theorem sorted_unique {l l' : List α} (h : l.Pairwise fun a b => le a b = true)
  (h' : l'.Pairwise fun a b => le a b = true) (hperm : l.Perm l')
  (hantisymm : ∀ a ∈ l, ∀ b ∈ l, le a b = true → le b a = true → a = b) : l = l' :=
 hperm.eq_of_pairwise (fun a b ha hb => hantisymm a ha b (hperm.mem_iff.2 hb)) h h'

theorem mergeSort_eq {l l' : List α} (hle : TotalOrder le) (hl : l.Nodup) (hl' : l'.Nodup)
  (hmem : ∀ a, a ∈ l ↔ a ∈ l') (hantisymm : ∀ a ∈ l, ∀ b ∈ l, le a b = true → le b a = true → a = b) :
  l.mergeSort le = l'.mergeSort le := by
 have hsame : l.Perm l' := (List.perm_ext_iff_of_nodup hl hl').2 hmem
 have hperm : (l.mergeSort le).Perm (l'.mergeSort le) :=
  (List.mergeSort_perm l le).trans (hsame.trans (List.mergeSort_perm l' le).symm)
 refine sorted_unique (sorted_mergeSort hle l) (sorted_mergeSort hle l') hperm ?_
 intro a ha b hb
 exact hantisymm a ((List.mergeSort_perm l le).mem_iff.1 ha) b ((List.mergeSort_perm l le).mem_iff.1 hb)

theorem filter_mergeSort {l : List α} (hle : TotalOrder le) (keeps : α → Bool)
  (hantisymm : ∀ a ∈ l.filter keeps, ∀ b ∈ l.filter keeps, le a b = true → le b a = true → a = b) :
  (l.mergeSort le).filter keeps = (l.filter keeps).mergeSort le := by
 have hfiltered : ((l.mergeSort le).filter keeps).Perm (l.filter keeps) :=
  (List.mergeSort_perm l le).filter keeps
 refine sorted_unique ((sorted_mergeSort hle l).filter keeps) (sorted_mergeSort hle _)
  (hfiltered.trans (List.mergeSort_perm _ le).symm) ?_
 intro a ha b hb
 exact hantisymm a (hfiltered.mem_iff.1 ha) b (hfiltered.mem_iff.1 hb)

def thenBy (first second : α → α → Bool) (a b : α) : Bool := first a b && (!first b a || second a b)

theorem TotalOrder.thenBy {first second : α → α → Bool} (h : TotalOrder first)
  (h' : TotalOrder second) :
  TotalOrder (thenBy first second) where
 trans a b c hab hbc := by
  simp only [StampedTables.thenBy, Bool.and_eq_true, Bool.or_eq_true, Bool.not_eq_true'] at hab hbc ⊢
  refine ⟨h.trans a b c hab.1 hbc.1, ?_⟩
  by_cases hca : first c a = true
  · have hba : first b a = true := h.trans b c a hbc.1 hca
    have hcb : first c b = true := h.trans c a b hca hab.1
    rw [hba] at hab
    rw [hcb] at hbc
    exact .inr (h'.trans a b c (by simpa using hab.2) (by simpa using hbc.2))
  · exact .inl (by simpa using hca)
 total a b := by
  have htotal := h.total a b
  have htotal' := h'.total a b
  simp only [StampedTables.thenBy, Bool.or_eq_true, Bool.and_eq_true, Bool.not_eq_true'] at htotal htotal' ⊢
  by_cases hab : first a b = true
  · by_cases hba : first b a = true
    · exact htotal'.imp (fun h => ⟨hab, .inr h⟩) fun h => ⟨hba, .inr h⟩
    · exact .inl ⟨hab, .inl (by simpa using hba)⟩
  · exact .inr ⟨htotal.resolve_left hab, .inl (by simpa using hab)⟩

theorem thenBy_both {first second : α → α → Bool} {a b : α} (h : thenBy first second a b = true)
  (h' : thenBy first second b a = true) : second a b = true ∧ second b a = true := by
 simp only [thenBy, Bool.and_eq_true, Bool.or_eq_true, Bool.not_eq_true'] at h h'
 exact ⟨h.2.resolve_left (by rw [h'.1]; decide), h'.2.resolve_left (by rw [h.1]; decide)⟩

end Ordered

end BoardGamesEmpire.StampedTables
