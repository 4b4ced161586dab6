import Mathlib

set_option autoImplicit false

/-!
# Rules in order of priority

A check takes the first rule that matches a record and answers what it says. A
query asks for the records of the allowing rules and for none of the denying
ones, up to the first rule without a condition. It finds no record that the
check refuses, and it asks nothing only where the check allows every record.
-/
namespace BoardGamesEmpire.PriorityRules

variable {ρ : Type}

structure Rule (ρ : Type) where
  inverted : Bool
  condition : Option (ρ → Bool)

def Rule.matchesRecord (rule : Rule ρ) (record : ρ) : Bool :=
  match rule.condition with
  | none => true
  | some condition => condition record

def firstAllows (rules : List (Rule ρ)) (holds : Rule ρ → Bool) :
    Bool := (rules.find? holds).any fun rule => !rule.inverted

/-- The parts of a query: one of the alternatives, if any are listed, and none of the exclusions. -/
structure Query (ρ : Type) where
  oneOf : Option (List (ρ → Bool))
  noneOf : List (ρ → Bool)

def Query.isEmpty (query : Query ρ) : Bool := query.oneOf.isNone && query.noneOf.isEmpty

def Query.admits (query : Query ρ) (record : ρ) : Bool :=
  (match query.oneOf with
    | none => true
    | some conditions => conditions.any (· record)) &&
    query.noneOf.all fun condition => !condition record

def collect (oneOf noneOf : List (ρ → Bool)) : List (Rule ρ) → Query ρ
  | [] => if oneOf = [] then ⟨some [], []⟩ else ⟨some oneOf, noneOf⟩
  | rule :: rules =>
    match rule.condition with
    | none =>
      if rule.inverted then if oneOf = [] then ⟨some [], []⟩ else ⟨some oneOf, noneOf⟩ else ⟨none, noneOf⟩
    | some condition =>
      if rule.inverted then collect oneOf (noneOf ++ [condition]) rules else collect
       (oneOf ++ [condition]) noneOf rules

def queryOf (rules : List (Rule ρ)) : Query ρ := collect [] [] rules

def Reaches : List (Rule ρ) → Prop
  | [] => False
  | rule :: rules => rule.inverted = false ∧ (rule.condition = none ∨ Reaches rules)

theorem firstAllows_cons (rule : Rule ρ) (rules : List (Rule ρ)) (holds : Rule ρ → Bool) :
  firstAllows (rule :: rules) holds = if holds rule then !rule.inverted else firstAllows rules holds := by
 rw [firstAllows, List.find?_cons]
 cases holds rule <;> rfl

theorem collect_excludes (oneOf noneOf : List (ρ → Bool)) (rules : List (Rule ρ)) (record : ρ)
  (h : (collect oneOf noneOf rules).admits record = true) :
  ∀ condition ∈ noneOf, condition record = false := by
 induction rules generalizing oneOf noneOf with
 | nil =>
  rw [collect] at h
  split at h
  · simp [Query.admits] at h
  · intro condition hmem
    simp only [Query.admits, Bool.and_eq_true, List.all_eq_true] at h
    simpa using h.2 condition hmem
 | cons rule rules ih =>
  rw [collect] at h
  cases hcondition : rule.condition with
  | none =>
   rw [hcondition] at h
   dsimp only at h
   split at h
   · split at h
     · simp [Query.admits] at h
     · intro condition hmem
       simp only [Query.admits, Bool.and_eq_true, List.all_eq_true] at h
       simpa using h.2 condition hmem
   · intro condition hmem
     simp only [Query.admits, Bool.and_eq_true, List.all_eq_true] at h
     simpa using h.2 condition hmem
  | some required =>
   rw [hcondition] at h
   dsimp only at h
   split at h
   · exact fun condition hmem => ih _ _ h condition (List.mem_append_left _ hmem)
   · exact ih _ _ h

theorem collect_sound (oneOf noneOf : List (ρ → Bool)) (rules : List (Rule ρ)) (record : ρ)
  (h : (collect oneOf noneOf rules).admits record = true) :
  oneOf.any (· record) = true ∨ firstAllows rules (·.matchesRecord record) = true := by
 induction rules generalizing oneOf noneOf with
 | nil =>
  rw [collect] at h
  split at h
  · simp [Query.admits] at h
  · simp only [Query.admits, Bool.and_eq_true] at h
    exact .inl h.1
 | cons rule rules ih =>
  rw [collect] at h
  rw [firstAllows_cons, Rule.matchesRecord]
  cases hcondition : rule.condition with
  | none =>
   rw [hcondition] at h
   dsimp only at h ⊢
   split at h
   · split at h
     · simp [Query.admits] at h
     · simp only [Query.admits, Bool.and_eq_true] at h
       exact .inl h.1
   · next hallows => exact .inr (by simpa using hallows)
  | some condition =>
   rw [hcondition] at h
   dsimp only at h ⊢
   split at h
   · next hdenies =>
     have hexcluded :=
      collect_excludes _ _ _ _ h condition (List.mem_append_right _ (List.mem_singleton_self _))
     rw [if_neg (ne_true_of_eq_false hexcluded)]
     exact ih _ _ h
   · next hallows =>
     rcases ih _ _ h with hany | hfirst
     · rw [List.any_append, Bool.or_eq_true, List.any_cons, List.any_nil, Bool.or_false] at hany
       rcases hany with hany | hrecord
       · exact .inl hany
       · exact .inr (by rw [if_pos hrecord]; simpa using hallows)
     · right
       split
       · simpa using hallows
       · exact hfirst

theorem queryOf_sound (rules : List (Rule ρ)) (record : ρ)
  (h : (queryOf rules).admits record = true) :
  firstAllows rules (·.matchesRecord record) = true :=
 (collect_sound [] [] rules record h).resolve_left Bool.false_ne_true

theorem collect_isEmpty (oneOf noneOf : List (ρ → Bool)) (rules : List (Rule ρ)) :
  (collect oneOf noneOf rules).isEmpty = true ↔ noneOf = [] ∧ Reaches rules := by
 induction rules generalizing oneOf noneOf with
 | nil =>
  rw [collect]
  split <;> simp [Query.isEmpty, Reaches]
 | cons rule rules ih =>
  rw [collect, Reaches]
  cases hcondition : rule.condition with
  | none =>
   dsimp only
   split
   · next hdenies => split <;> simp [Query.isEmpty, hdenies]
   · next hallows => simp [Query.isEmpty, Bool.not_eq_true _ ▸ hallows]
  | some condition =>
   dsimp only
   split
   · next hdenies => simp [ih, hdenies]
   · next hallows => simp [ih, Bool.not_eq_true _ ▸ hallows]

theorem queryOf_isEmpty (rules : List (Rule ρ)) : (queryOf rules).isEmpty = true ↔ Reaches rules :=
 (collect_isEmpty [] [] rules).trans (and_iff_right rfl)

theorem reaches_allows (rules : List (Rule ρ)) (holds : Rule ρ → Bool)
  (hholds : ∀ rule : Rule ρ, rule.condition = none → holds rule = true)
  (h : Reaches rules) : firstAllows rules holds = true := by
 induction rules with
 | nil => exact h.elim
 | cons rule rules ih =>
  rw [firstAllows_cons]
  split
  · rw [h.1]
    rfl
  · next hnot => exact ih (h.2.resolve_left fun hcondition => hnot (hholds rule hcondition))

theorem reaches_filter {σ : Type} (toRule : σ → Rule ρ) (rules : List σ) (p q : σ → Bool)
  (hpq : ∀ rule ∈ rules, p rule = true → q rule = true)
  (hallows : ∀ rule ∈ rules, q rule = true → p rule = false → (toRule rule).inverted = false)
  (h : Reaches ((rules.filter p).map toRule)) : Reaches ((rules.filter q).map toRule) := by
 induction rules with
 | nil => exact h
 | cons rule rules ih =>
  have hrest :=
   ih (fun r hr => hpq r (List.mem_cons_of_mem _ hr)) fun r hr => hallows r (List.mem_cons_of_mem _ hr)
  cases hp : p rule with
  | true =>
   rw [List.filter_cons_of_pos hp, List.map_cons] at h
   rw [List.filter_cons_of_pos (hpq rule List.mem_cons_self hp), List.map_cons]
   exact ⟨h.1, h.2.imp_right hrest⟩
  | false =>
   rw [List.filter_cons_of_neg (by simp [hp])] at h
   cases hq : q rule with
   | true =>
    rw [List.filter_cons_of_pos hq, List.map_cons]
    exact ⟨hallows rule List.mem_cons_self hq hp, .inr (hrest h)⟩
   | false =>
    rw [List.filter_cons_of_neg (by simp [hq])]
    exact hrest h

end BoardGamesEmpire.PriorityRules
