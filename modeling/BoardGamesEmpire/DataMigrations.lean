import BoardGamesEmpire.JsonObject

set_option autoImplicit false

/-!
# The data-migration plan

The registry a build ships against the rows of `data_migrations`.
-/
namespace BoardGamesEmpire.DataMigrations
open JsText JsonText

/-- `run` takes what one boot brings with it and the data its transaction sees;
    `none` is a throw. -/
structure DataMigrationEntry (ω δ : Type) where
  name : Text
  revision : ℚ
  run : ω → δ → Option δ

structure DataMigrationLedgerRow where
  name : Text
  revision : ℤ
deriving DecidableEq

/-- The table; its unique index is on `name`. -/
structure Ledger where
  rows : List DataMigrationLedgerRow
  names : (rows.map (·.name)).Nodup

structure RevisionMismatch where
  name : Text
  codeRevision : ℚ
  ledgerRevision : ℤ
deriving DecidableEq

structure DataMigrationsPlan (ω δ : Type) where
  pending : List (DataMigrationEntry ω δ)
  applied : List Text
  edited : List RevisionMismatch
  ahead : List RevisionMismatch
  unknown : List Text

inductive RegistryError where
  | duplicateName (name : Text)
  | malformedName (name : Text)
  | revision (name : Text) (revision : ℚ)
deriving DecidableEq

/-- `/^\d{14}_[a-z][a-z0-9_]*$/`. -/
def entryName (name : Text) : Bool :=
  let stamp := name.take 14
  stamp.length == 14 && stamp.all Char.isDigit &&
    match name.drop 14 with
    | '_' :: c :: rest => c.isLower && rest.all fun d => d.isLower || d.isDigit || d == '_'
    | _ => false

def maxRevision : ℚ := 2147483647

/-- `Number.isInteger` and the range of the ledger's column. -/
def revisionFits (revision : ℚ) : Prop := revision.den = 1 ∧ 1 ≤ revision ∧ revision ≤ maxRevision

instance : DecidablePred revisionFits := fun _ => inferInstanceAs (Decidable (_ ∧ _))

section Plan

variable {ω δ : Type}

def assertFrom (seen : List Text) : List (DataMigrationEntry ω δ) → Except RegistryError Unit
  | [] => .ok ()
  | entry :: rest =>
    if seen.contains entry.name then .error (.duplicateName entry.name)
    else if !entryName entry.name then .error (.malformedName entry.name)
    else if ¬ revisionFits entry.revision then .error (.revision entry.name entry.revision)
    else assertFrom (entry.name :: seen) rest

def assertDataMigrationRegistry (entries : List (DataMigrationEntry ω δ)) : Except RegistryError Unit :=
  assertFrom [] entries

def byName (a b : DataMigrationEntry ω δ) : Bool := textLe a.name b.name

/-- `new Map(rows…).get(name)`: the last row of a name wins. -/
def ledgerRevision (rows : List DataMigrationLedgerRow) (name : Text) : Option ℤ :=
  (rows.reverse.find? fun row => row.name == name).map (·.revision)

def place (rows : List DataMigrationLedgerRow) (plan : DataMigrationsPlan ω δ)
    (entry : DataMigrationEntry ω δ) :
    DataMigrationsPlan ω δ :=
  match ledgerRevision rows entry.name with
  | none => { plan with pending := plan.pending ++ [entry] }
  | some revision =>
    if (revision : ℚ) = entry.revision then { plan with applied := plan.applied ++ [entry.name] }
    else if (revision : ℚ) < entry.revision then
      { plan with edited := plan.edited ++ [⟨entry.name, entry.revision, revision⟩] }
    else { plan with ahead := plan.ahead ++ [⟨entry.name, entry.revision, revision⟩] }

def planDataMigrations (entries : List (DataMigrationEntry ω δ)) (rows : List DataMigrationLedgerRow) :
    Except RegistryError (DataMigrationsPlan ω δ) := do
  assertDataMigrationRegistry entries
  let ordered := entries.mergeSort byName
  let known := entries.map (·.name)
  let placed := ordered.foldl (place rows) ⟨[], [], [], [], []⟩
  return { placed with unknown := sortTexts ((rows.map (·.name)).filter fun name => !known.contains name) }

structure Registry (ω δ : Type) where
  entries : List (DataMigrationEntry ω δ)
  accepted : assertDataMigrationRegistry entries = .ok ()

theorem assertFrom_ok {seen : List Text} {entries : List (DataMigrationEntry ω δ)} :
  assertFrom seen entries = .ok () ↔ (entries.map (·.name)).Nodup ∧
   ∀ entry ∈ entries, entry.name ∉ seen ∧ entryName entry.name = true ∧ revisionFits entry.revision := by
 induction entries generalizing seen with
 | nil => simp [assertFrom]
 | cons entry rest ih =>
  rw [assertFrom]
  by_cases hseen : seen.contains entry.name = true
  · rw [if_pos hseen]
    simp_all
  rw [if_neg hseen]
  by_cases hname : entryName entry.name = true
  swap
  · simp_all
  rw [if_neg (by simp [hname])]
  by_cases hrevision : revisionFits entry.revision
  swap
  · simp_all
  rw [if_neg (by simp [hrevision]), ih]
  simp only [List.mem_cons, not_or, List.map_cons, List.nodup_cons, List.mem_map, not_exists, not_and,
   forall_eq_or_imp]
  have hseen' : entry.name ∉ seen := by simpa using hseen
  constructor
  · rintro ⟨hnodup, hrest⟩
    exact ⟨⟨fun other hother => (hrest other hother).1.1, hnodup⟩, ⟨hseen', hname, hrevision⟩,
     fun other hother => ⟨(hrest other hother).1.2, (hrest other hother).2⟩⟩
  · rintro ⟨⟨hnew, hnodup⟩, -, hrest⟩
    exact ⟨hnodup, fun other hother =>
     ⟨⟨hnew other hother, (hrest other hother).1⟩, (hrest other hother).2⟩⟩

theorem Registry.names (registry : Registry ω δ) : (registry.entries.map (·.name)).Nodup :=
 (assertFrom_ok.1 registry.accepted).1

def DataMigrationsPlan.names (plan : DataMigrationsPlan ω δ) : List Text :=
  plan.pending.map (·.name) ++ plan.applied ++ plan.edited.map (·.name) ++ plan.ahead.map (·.name)

def Before (a b : Text) : Prop := textLe a b = true ∧ a ≠ b

end Plan

end BoardGamesEmpire.DataMigrations
