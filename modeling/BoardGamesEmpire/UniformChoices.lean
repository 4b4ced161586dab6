import Mathlib

set_option autoImplicit false

/-!
# Vectors of independent choices

A run that makes its choices one after another, each among the numbers below a
bound known before, is a function of the vector of its choices. How many vectors
lead to an outcome is counted from the first choice or from the last.
-/
namespace BoardGamesEmpire.UniformChoices

def choices : List ℕ → Finset (List ℕ)
  | [] => {[]}
  | n :: ns => (Finset.range n ×ˢ choices ns).image fun choice => choice.1 :: choice.2

theorem mem_choices (ns cs : List ℕ) : cs ∈ choices ns ↔ List.Forall₂ (· < ·) cs ns := by
 induction ns generalizing cs with
 | nil => simp [choices]
 | cons n ns ih =>
  simp only [choices, Finset.mem_image, Finset.mem_product, Finset.mem_range, Prod.exists]
  constructor
  · rintro ⟨c, rest, ⟨hc, hrest⟩, rfl⟩
    exact .cons hc ((ih rest).mp hrest)
  · rintro (_ | ⟨hc, hrest⟩)
    exact ⟨_, _, ⟨hc, (ih _).mpr hrest⟩, rfl⟩

theorem length_of_mem_choices {ns cs : List ℕ} (h : cs ∈ choices ns) : cs.length = ns.length :=
 ((mem_choices ns cs).mp h).length_eq

theorem concat_mem_choices (ns cs : List ℕ) (n c : ℕ) :
  cs ++ [c] ∈ choices (ns ++ [n]) ↔ cs ∈ choices ns ∧ c < n := by
 simp only [mem_choices]
 constructor
 · intro h
   have hlength := h.length_eq
   simp only [List.length_append, List.length_singleton, Nat.add_right_cancel_iff] at hlength
   obtain ⟨hinit, hlast⟩ := List.forall₂_iff_get.mp h
   refine ⟨List.forall₂_iff_get.mpr ⟨hlength, fun i h₁ h₂ => ?_⟩, ?_⟩
   · have hi := hlast i (by simp; omega) (by simp; omega)
     simpa [List.getElem_append_left h₁, List.getElem_append_left h₂] using hi
   · have hi := hlast cs.length (by simp) (by simp [hlength])
     simpa [hlength] using hi
 · rintro ⟨hcs, hc⟩
   exact List.rel_append hcs (.cons hc .nil)

section Counting

def ways (ns : List ℕ) (p : List ℕ → Prop) [DecidablePred p] : ℕ := ((choices ns).filter p).card

theorem ways_nil (p : List ℕ → Prop) [DecidablePred p] : ways [] p = if p [] then 1 else 0 := by
 rw [ways, choices, Finset.filter_singleton]
 split <;> rfl

theorem ways_cons (n : ℕ) (ns : List ℕ) (p : List ℕ → Prop) [DecidablePred p] :
  ways (n :: ns) p = ∑ c ∈ Finset.range n, ways ns fun cs => p (c :: cs) := by
 have hinjective : Function.Injective fun choice : ℕ × List ℕ => choice.1 :: choice.2 := by
  rintro ⟨c, cs⟩ ⟨c', cs'⟩ h
  simpa using h
 rw [ways, choices, Finset.filter_image, Finset.card_image_of_injective _ hinjective,
  Finset.card_filter, Finset.sum_product]
 refine Finset.sum_congr rfl fun c _ => ?_
 rw [ways, Finset.card_filter]

theorem ways_congr (ns : List ℕ) (p q : List ℕ → Prop) [DecidablePred p] [DecidablePred q]
  (h : ∀ cs ∈ choices ns, p cs ↔ q cs) :
  ways ns p = ways ns q :=
 congrArg Finset.card (Finset.filter_congr h)

theorem ways_concat (ns : List ℕ) (n : ℕ) (p : List ℕ → Prop) [DecidablePred p] :
  ways (ns ++ [n]) p = ∑ c ∈ Finset.range n, ways ns fun cs => p (cs ++ [c]) := by
 induction ns generalizing p with
 | nil =>
  rw [List.nil_append, ways_cons]
  refine Finset.sum_congr rfl fun c _ => ?_
  rw [ways_nil, ways_nil]
  rfl
 | cons m ns ih =>
  rw [List.cons_append, ways_cons]
  simp only [ih, ways_cons]
  exact Finset.sum_comm

theorem ways_of_forall_not (ns : List ℕ) (p : List ℕ → Prop) [DecidablePred p]
  (h : ∀ cs ∈ choices ns, ¬ p cs) : ways ns p = 0 :=
 Finset.card_eq_zero.mpr (Finset.filter_eq_empty_iff.mpr fun {cs} hcs => h cs hcs)

theorem card_pairs (ns ms : List ℕ) (p : List ℕ → List ℕ → Prop) [∀ cs, DecidablePred (p cs)] :
  ((choices ns ×ˢ choices ms).filter fun v => p v.1 v.2).card = ∑ cs ∈ choices ns, ways ms (p cs) := by
 rw [Finset.card_filter, Finset.sum_product]
 refine Finset.sum_congr rfl fun cs _ => ?_
 rw [ways, Finset.card_filter]

end Counting

end BoardGamesEmpire.UniformChoices
