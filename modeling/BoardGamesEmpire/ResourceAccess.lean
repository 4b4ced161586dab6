import BoardGamesEmpire.JsText
import BoardGamesEmpire.PriorityRules

set_option autoImplicit false

/-!
# How far an actor's permissions reach

`resource-access.ts`, `ability-of-rules.ts` and the checks of
`ability.service.ts`, over the rules that the permission library keeps: a later
rule before an earlier one, and the first that matches decides.
-/
namespace BoardGamesEmpire.ResourceAccess
open JsText PriorityRules

inductive Action where
  | create
  | read
  | update
  | delete
  | manage
deriving DecidableEq

/-- A rule as it is written; no subject type stands for `all`. -/
structure RawRule (τ ρ : Type) where
  action : List Action
  subject : List (Option τ)
  fields : Option (List Text)
  conditions : Option (ρ → Bool)
  inverted : Bool

structure AppAbility (τ ρ : Type) where
  rules : List (RawRule τ ρ)

section Abilities

variable {τ ρ : Type} [DecidableEq τ]

def RawRule.toRule (rule : RawRule τ ρ) : Rule ρ := ⟨rule.inverted, rule.conditions⟩

def RawRule.isFor (rule : RawRule τ ρ) (action : Action) (resourceType : τ) : Bool :=
  (rule.action.contains action || rule.action.contains .manage) &&
   (rule.subject.contains (some resourceType) || rule.subject.contains none)

def RawRule.matchesField (rule : RawRule τ ρ) (field : Option Text) : Bool :=
  match rule.fields, field with
  | none, _ => true
  | some _, none => !rule.inverted
  | some fields, some field => fields.contains field

variable (ability : AppAbility τ ρ) (action : Action) (resourceType : τ)

def possibleRulesFor : List (RawRule τ ρ) := ability.rules.reverse.filter (·.isFor action resourceType)

def rulesFor (field : Option Text) :
    List (RawRule τ ρ) := (possibleRulesFor ability action resourceType).filter (·.matchesField field)

/-- `can` with a type alone: an allow counts whatever its condition, a denial without one only. -/
def canType : Bool :=
  firstAllows ((rulesFor ability action resourceType none).map RawRule.toRule) fun rule =>
   rule.condition.isNone || !rule.inverted

/-- `can` with a record, of a field or of none. -/
def can (record : ρ) (field : Option Text) : Bool :=
  firstAllows ((rulesFor ability action resourceType field).map RawRule.toRule) (·.matchesRecord record)

/-- `accessibleBy(ability, action).ofType(resourceType)`. -/
def accessibleBy : Query ρ := queryOf ((rulesFor ability action resourceType none).map RawRule.toRule)

def abilityOfRules (rules : List (RawRule τ ρ)) :
    AppAbility τ ρ := ⟨(rules.map fun rule => { rule with fields := none }).reverse⟩

end Abilities

inductive AccessExtent where
  | all
  | some
  | none
deriving DecidableEq

section Extents

variable {τ ρ : Type} [DecidableEq τ]

def reachesEveryRecord (ability : AppAbility τ ρ) (action : Action) (resourceType : τ) : Bool :=
  (accessibleBy ability action resourceType).isEmpty

def deniedFields (rules : List (RawRule τ ρ)) :
    List Text := rules.flatMap fun rule => if rule.inverted then rule.fields.getD [] else []

def extentFor (ability : AppAbility τ ρ) (action : Action) (resourceType : τ) : AccessExtent :=
  if canType ability action resourceType = false then .none
  else
    let rules := possibleRulesFor ability action resourceType
    if rules.all (·.fields.isNone) then if reachesEveryRecord ability action resourceType then
     .all else .some
    else if reachesEveryRecord (abilityOfRules (rules.filter (·.fields.isNone))) action resourceType
     = false then .some
    else if (deniedFields rules).all fun field =>
        reachesEveryRecord (abilityOfRules (rulesFor ability action resourceType (some field)))
         action resourceType then .all
    else .some

def accessExtent (abilities : List (AppAbility τ ρ)) (action : Action) (resourceType : τ) : AccessExtent :=
  if abilities.isEmpty then .none
  else
    let extents := abilities.map fun ability => extentFor ability action resourceType
    if extents.contains .none then .none else if extents.all (· == .all) then .all else .some

def everyAbilityCan (abilities : List (AppAbility τ ρ)) (action : Action) (resourceType : τ) : Bool :=
  !abilities.isEmpty && abilities.all fun ability => canType ability action resourceType

def rulesAdmittingField (ability : AppAbility τ ρ) (action : Action) (resourceType : τ)
    (field : Text) : AppAbility τ ρ :=
  abilityOfRules (rulesFor ability action resourceType (some field))

def abilityFor (ability : AppAbility τ ρ) (action : Action) (resourceType : τ) : Option Text →
    AppAbility τ ρ
  | none => ability
  | some field => rulesAdmittingField ability action resourceType field

/-- The clauses of a read, one for each ability; no ability is refused. -/
def getResourceConditionsForAbilities (abilities : List (AppAbility τ ρ)) (resourceType : τ)
    (action : Action) (field : Option Text) :
    Option (List (Query ρ)) :=
  if abilities.isEmpty then none
  else
    some (abilities.map fun ability => accessibleBy (abilityFor ability action resourceType field)
     action resourceType)

def allows (abilities : List (AppAbility τ ρ)) (action : Action) (resourceType : τ) (record : ρ)
    (field : Option Text) : Bool :=
  !abilities.isEmpty && abilities.all fun ability => can ability action resourceType record field

end Extents

section Reach

variable {τ ρ : Type} [DecidableEq τ] (ability : AppAbility τ ρ) (action : Action) (resourceType : τ)

theorem accessibleBy_abilityOfRules (rules : List (RawRule τ ρ))
  (h : ∀ rule ∈ rules, rule.isFor action resourceType = true) :
  accessibleBy (abilityOfRules rules) action resourceType = queryOf (rules.map RawRule.toRule) := by
 have hpossible : possibleRulesFor (abilityOfRules rules) action resourceType = rules.map
  fun rule => { rule with fields := none } := by
  rw [possibleRulesFor, abilityOfRules, List.reverse_reverse, List.filter_eq_self]
  intro rule hrule
  obtain ⟨original, hmem, rfl⟩ := List.mem_map.mp hrule
  exact h original hmem
 have hfields : rulesFor (abilityOfRules rules) action resourceType none = rules.map fun rule =>
  { rule with fields := none } := by
  rw [rulesFor, hpossible, List.filter_eq_self]
  intro rule hrule
  obtain ⟨original, -, rfl⟩ := List.mem_map.mp hrule
  rfl
 rw [accessibleBy, hfields, List.map_map]
 rfl

theorem isFor_of_mem_possible {rule : RawRule τ ρ}
  (h : rule ∈ possibleRulesFor ability action resourceType) :
  rule.isFor action resourceType = true := (List.mem_filter.mp h).2

theorem isFor_of_mem_rulesFor {field : Option Text} {rule : RawRule τ ρ}
  (h : rule ∈ rulesFor ability action resourceType field) :
  rule.isFor action resourceType = true :=
   isFor_of_mem_possible ability action resourceType (List.mem_filter.mp h).1

theorem clause_eq (field : Option Text) :
  accessibleBy (abilityFor ability action resourceType field) action resourceType =
   queryOf ((rulesFor ability action resourceType field).map RawRule.toRule) := by
 cases field with
 | none => rfl
 | some field => exact accessibleBy_abilityOfRules action resourceType _ fun _ =>
  isFor_of_mem_rulesFor ability action resourceType

theorem can_of_reaches (field : Option Text)
  (h : Reaches ((rulesFor ability action resourceType field).map RawRule.toRule)) (record : ρ) :
  can ability action resourceType record field = true :=
 reaches_allows _ _ (fun rule hcondition => by rw [Rule.matchesRecord, hcondition]) h

theorem reaches_of_unlisted (field : Option Text)
  (hfield : ∀ name ∈ field, name ∉ deniedFields (possibleRulesFor ability action resourceType))
  (h : Reaches (((possibleRulesFor ability action resourceType).filter (·.fields.isNone)).map
   RawRule.toRule)) :
  Reaches ((rulesFor ability action resourceType field).map RawRule.toRule) := by
 refine reaches_filter RawRule.toRule _ _ _ (fun rule _ hnone => ?_)
  (fun rule hrule hmatches hsome => ?_) h
 · unfold RawRule.matchesField
   rw [Option.isNone_iff_eq_none.mp hnone]
 · obtain ⟨fields, hfields⟩ := Option.ne_none_iff_exists'.mp fun h =>
    Bool.false_ne_true (hsome.symm.trans (Option.isNone_iff_eq_none.mpr h))
   unfold RawRule.matchesField at hmatches
   rw [hfields] at hmatches
   cases field with
   | none =>
    have hallowed : rule.inverted = false := by simpa using hmatches
    exact hallowed
   | some name =>
    refine Bool.eq_false_iff.mpr fun hdenies => hfield name rfl (List.mem_flatMap.mpr ⟨rule, hrule, ?_⟩)
    have hdenies : rule.inverted = true := hdenies
    rw [if_pos hdenies, hfields]
    exact List.contains_iff_mem.mp hmatches

theorem reachesEveryRecord_iff : reachesEveryRecord ability action resourceType = true ↔
  Reaches ((rulesFor ability action resourceType none).map RawRule.toRule) := queryOf_isEmpty _

theorem reachesEveryRecord_of_rules (rules : List (RawRule τ ρ))
  (hrules : ∀ rule ∈ rules, rule.isFor action resourceType = true) :
  reachesEveryRecord (abilityOfRules rules) action resourceType = true ↔
   Reaches (rules.map RawRule.toRule) := by
 rw [reachesEveryRecord, accessibleBy_abilityOfRules action resourceType rules hrules]
 exact queryOf_isEmpty _

theorem extentFor_none :
  extentFor ability action resourceType = .none ↔ canType ability action resourceType = false := by
 unfold extentFor
 dsimp only
 split
 · next h => exact iff_of_true rfl h
 · next h =>
   refine iff_of_false ?_ h
   split_ifs <;> exact fun h => nomatch h

theorem can_of_extentFor_all (h : extentFor ability action resourceType = .all) (record : ρ)
  (field : Option Text) :
  can ability action resourceType record field = true := by
 have hpossible : ∀ rule ∈ (possibleRulesFor ability action resourceType).filter (·.fields.isNone),
  rule.isFor action resourceType = true :=
  fun rule hrule => isFor_of_mem_possible ability action resourceType (List.mem_filter.mp hrule).1
 refine can_of_reaches ability action resourceType field ?_ record
 unfold extentFor at h
 dsimp only at h
 split at h
 · cases h
 · split at h
   · next hplain =>
     -- no rule names a field, so each selection is all the rules
     split at h
     · next hreaches =>
       have hall : ∀ name : Option Text,
        rulesFor ability action resourceType name = possibleRulesFor ability action resourceType := by
        intro name
        refine List.filter_eq_self.mpr fun rule hrule => ?_
        unfold RawRule.matchesField
        rw [Option.isNone_iff_eq_none.mp (List.all_eq_true.mp hplain rule hrule)]
       rw [hall field, ← hall none]
       exact (reachesEveryRecord_iff ability action resourceType).mp hreaches
     · cases h
   · split at h
     · cases h
     · next hreaches =>
       have hplain :=
        (reachesEveryRecord_of_rules action resourceType _ hpossible).mp (by simpa using hreaches)
       split at h
       · next hdenied =>
         cases field with
         | none => exact reaches_of_unlisted ability action resourceType none (fun _ h => nomatch h) hplain
         | some name =>
          by_cases hname : name ∈ deniedFields (possibleRulesFor ability action resourceType)
          · have hfield := List.all_eq_true.mp hdenied name hname
            exact (reachesEveryRecord_of_rules action resourceType _ fun _ =>
             isFor_of_mem_rulesFor ability action resourceType).mp hfield
          · refine reaches_of_unlisted ability action resourceType (some name)
             (fun other hother => ?_) hplain
            cases hother
            exact hname
       · cases h

end Reach

section Answers

variable {τ ρ : Type} [DecidableEq τ]

theorem accessExtent_none (abilities : List (AppAbility τ ρ)) (action : Action) (resourceType : τ) :
  accessExtent abilities action resourceType = .none ↔
   everyAbilityCan abilities action resourceType = false := by
 unfold accessExtent everyAbilityCan
 dsimp only
 cases abilities with
 | nil => exact iff_of_true rfl rfl
 | cons first rest =>
  have hcontains :
   ((first :: rest).map fun ability => extentFor ability action resourceType).contains .none = true ↔
    (first :: rest).all (fun ability => canType ability action resourceType) = false := by
   rw [List.contains_iff_mem, List.mem_map, List.all_eq_false]
   refine exists_congr fun ability => and_congr_right fun _ => ?_
   rw [extentFor_none, Bool.not_eq_true]
  rw [List.isEmpty_cons, Bool.not_false, Bool.true_and, ← hcontains]
  simp only [Bool.false_eq_true, if_false]
  split
  · next h => exact iff_of_true rfl h
  · next h =>
    refine iff_of_false ?_ h
    split <;> exact fun h => nomatch h

theorem accessExtent_all (abilities : List (AppAbility τ ρ)) (action : Action) (resourceType : τ)
  (h : accessExtent abilities action resourceType = .all) :
  abilities ≠ [] ∧ ∀ ability ∈ abilities, extentFor ability action resourceType = .all := by
 unfold accessExtent at h
 dsimp only at h
 split at h
 · cases h
 · next hempty =>
   split at h
   · cases h
   · split at h
     · next hall =>
       refine ⟨fun h => hempty (by rw [h]; rfl), fun ability hability => ?_⟩
       exact beq_iff_eq.mp (List.all_eq_true.mp hall _ (List.mem_map_of_mem hability))
     · cases h

def AccessExtent.rank : AccessExtent → ℕ
  | .none => 0
  | .some => 1
  | .all => 2

theorem le_rank_accessExtent (abilities : List (AppAbility τ ρ)) (action : Action)
  (resourceType : τ) (hne : abilities ≠ []) (n : ℕ) (hn : n ≤ 2) :
  n ≤ (accessExtent abilities action resourceType).rank ↔ ∀ ability ∈ abilities, n ≤
   (extentFor ability action resourceType).rank := by
 have hextents : ∀ ability ∈ abilities, extentFor ability action resourceType ∈ abilities.map
  fun ability => extentFor ability action resourceType :=
  fun _ => List.mem_map_of_mem
 unfold accessExtent
 dsimp only
 rw [if_neg (by simpa using hne)]
 split
 · next hnone =>
   obtain ⟨ability, hability, hextent⟩ := List.mem_map.mp (List.contains_iff_mem.mp hnone)
   constructor
   · intro h other _
     have hzero : n ≤ 0 := h
     omega
   · intro h
     rw [← hextent]
     exact h ability hability
 · next hnone =>
   have hsome : ∀ ability ∈ abilities, 1 ≤ (extentFor ability action resourceType).rank := by
    intro ability hability
    have hne : extentFor ability action resourceType ≠ .none := fun h =>
     hnone (List.contains_iff_mem.mpr (h ▸ hextents ability hability))
    cases hextent : extentFor ability action resourceType with
    | none => exact absurd hextent hne
    | some => exact le_rfl
    | all => exact Nat.le_succ 1
   split
   · next hall =>
     refine iff_of_true hn fun ability hability => ?_
     rw [beq_iff_eq.mp (List.all_eq_true.mp hall _ (hextents ability hability))]
     exact hn
   · next hall =>
     constructor
     · intro h ability hability
       exact le_trans h (hsome ability hability)
     · intro h
       by_contra hlt
       have htwo : n = 2 := by
        have hone : ¬ n ≤ 1 := hlt
        omega
       refine hall (List.all_eq_true.mpr fun extent hextent => ?_)
       obtain ⟨ability, hability, rfl⟩ := List.mem_map.mp hextent
       have hrank := h ability hability
       cases hextent : extentFor ability action resourceType with
       | none => rw [hextent, htwo] at hrank; cases hrank
       | some => rw [hextent, htwo] at hrank; exact absurd hrank (by decide)
       | all => rfl

structure PromisesWithin (abilities : List (AppAbility τ ρ)) (action : Action) (resourceType : τ) :
    Prop where
  none_iff : accessExtent abilities action resourceType = .none ↔
   everyAbilityCan abilities action resourceType = false
  all : accessExtent abilities action resourceType = .all →
    ∀ ability ∈ abilities, ∀ record field, can ability action resourceType record field = true
  added : abilities ≠ [] → ∀ before after ability, abilities = before ++ after →
    (accessExtent (before ++ ability :: after) action resourceType).rank ≤
     (accessExtent abilities action resourceType).rank
  clauses : ∀ field conditions, getResourceConditionsForAbilities abilities resourceType action
   field = some conditions →
    ∀ record, (∀ clause ∈ conditions, clause.admits record = true) →
     allows abilities action resourceType record field = true

theorem promisesWithin (abilities : List (AppAbility τ ρ)) (action : Action) (resourceType : τ) :
    PromisesWithin abilities action resourceType := by
 constructor
 · exact accessExtent_none abilities action resourceType
 · intro h ability hability record field
   exact can_of_extentFor_all ability action resourceType
    ((accessExtent_all abilities action resourceType h).2 ability hability) record field
 · rintro hne before after ability rfl
   have hrank : (accessExtent (before ++ ability :: after) action resourceType).rank ≤ 2 := by
    cases accessExtent (before ++ ability :: after) action resourceType <;> decide
   rw [le_rank_accessExtent _ action resourceType hne _ hrank]
   intro other hother
   have hmem : other ∈ before ++ ability :: after := by
    rcases List.mem_append.mp hother with h | h
    · exact List.mem_append_left _ h
    · exact List.mem_append_right _ (List.mem_cons_of_mem _ h)
   exact (le_rank_accessExtent _ action resourceType (by simp) _ hrank).mp le_rfl other hmem
 · intro field conditions hconditions record hrecord
   unfold getResourceConditionsForAbilities at hconditions
   split at hconditions
   · cases hconditions
   · next hne =>
     obtain rfl := Option.some.inj hconditions
     rw [allows, Bool.and_eq_true, Bool.not_eq_true']
     refine ⟨by simpa using hne, List.all_eq_true.mpr fun ability hability => ?_⟩
     have hclause := hrecord _ (List.mem_map_of_mem hability)
     rw [clause_eq] at hclause
     exact queryOf_sound _ record hclause

end Answers

end BoardGamesEmpire.ResourceAccess
