import BoardGamesEmpire.ReadCommittedStepwise
import BoardGamesEmpire.PluginSystem

set_option autoImplicit false

/-!
# Uninstall and the units it cuts off

Uninstall with the units it announces, beside the requests that write the unit
rows: the switches and the configuration of households and users, and a reinstall,
which may make a retained row dormant or revive it.
-/
namespace BoardGamesEmpire.PluginUninstall
open JsText Manifest ReadCommitted ReadCommittedProtocol PluginStore PluginEscalation PluginActivation
  PluginUpdateProgram PluginGrantProgram PluginSystem

inductive Outcome where
  | uninstalled (purgeData : Bool) (affectedUnits : List UnitRef)
  | service (event : Event)

abbrev LifecycleProgram := Code Row UnitRef Outcome

abbrev LifecycleState := Shared Row Outcome

/-- `findMany` over the enabled rows of one axis. -/
def enabledUnits (axis : PluginConsentScope) (v : Db) : List UnitRef :=
  ((unitRows v).filter fun entry => entry.1.consentScope == axis && entry.2.enabled).map (·.1)

def uninstallClaimed (purgeData : Bool) : LifecycleProgram :=
  .query fun _ v =>
    let affectedHouseholds := enabledUnits .household v
    .query fun _ v =>
      let affectedUnits := affectedHouseholds ++ enabledUnits .user v
      .execute (fun _ v => deleteGrants (fun _ _ => true) v) fun _ _ =>
        .execute (fun _ v => deletePermissions (fun _ => true) v) fun _ _ =>
          if purgeData then
            .execute (fun _ v => deleteUnits .household v) fun _ _ =>
              .execute (fun _ v => deleteUnits .user v) fun _ _ =>
                .commit (.uninstalled purgeData affectedUnits) .halt
          else .commit (.uninstalled purgeData affectedUnits) .halt

def uninstall (authorized purgeData : Bool) : LifecycleProgram :=
  if !authorized then .halt
  else .query fun initiatedAt v =>
    match livingPlugin v with
    | none => .halt
    | some _ =>
      .execute (fun _ v =>
        match livingPlugin v with
        | some row => [⟨.plugin, some (tombstoned initiatedAt row)⟩]
        | none => []) fun _ v =>
          match livingPlugin v with
          | some _ => uninstallClaimed purgeData
          | none => .rollback .halt

inductive Request where
  | uninstall (authorized purgeData : Bool)
  | install (input : InstallInput)
  | enableHousehold (input : EnableInput)
  | disableHousehold (householdId : Text) (authorized : Bool)
  | updateHouseholdConfig (householdId config : Text) (authorized : Bool)
  | enableUser (userId : Text)
  | disableUser (userId : Text)

def program (host : Host) : Request → LifecycleProgram
  | .uninstall authorized purgeData => uninstall authorized purgeData
  | .install input => relabel .service (install host input)
  | .enableHousehold input => relabel .service (enableHousehold host input)
  | .disableHousehold householdId authorized =>
    relabel .service (setUnitEnabled (.household householdId) false authorized)
  | .updateHouseholdConfig householdId config authorized =>
    relabel .service (updateHouseholdConfig host householdId config authorized)
  | .enableUser userId => relabel .service (setUnitEnabled (.user userId) true true)
  | .disableUser userId => relabel .service (setUnitEnabled (.user userId) false true)

section Rows

def Alive (db : Db) : Prop := ∃ row, plugin? db = some row ∧ row.uninstalledAt = none

def Tombstoned (db : Db) : Prop := ∃ row, plugin? db = some row ∧ row.uninstalledAt ≠ none

def retained (row : UnitRow) : ℕ × Bool × Bool × Option ℕ × ConfigValue :=
  (row.id, row.enabled, row.suspendedForConsent, row.suspendedAt, row.config)

def retainedAt (db : Db) (unit : UnitRef) : Option (ℕ × Bool × Bool × Option ℕ × ConfigValue) :=
  (unit? db unit).map retained

structure Bare (db : Db) : Prop where
  staged : ∀ row, plugin? db = some row → row.pending = none
  grants : ∀ key, grant? db key = none
  catalog : ∀ slug, declared? db slug = none

def Uninstalls (e : Entry Row Outcome) : Prop :=
  ∃ purgeData affectedUnits, e.event = .uninstalled purgeData affectedUnits

def Installs (e : Entry Row Outcome) : Prop := ∃ validated, e.event = .service (.installed validated)

structure CleanCut (ledger : List (Entry Row Outcome)) (db : Db) : Prop where
  affected : ∀ e ∈ ledger, ∀ purgeData affectedUnits, e.event = .uninstalled purgeData affectedUnits →
    affectedUnits.Nodup ∧
      ∀ unit, unit ∈ affectedUnits ↔ ∃ row, unit? e.before unit = some row ∧ row.enabled = true
  untouched : ∀ e ∈ ledger, Tombstoned e.before →
   ∀ unit, retainedAt e.after unit = retainedAt e.before unit
  purged : ∀ before e rest affectedUnits, ledger = before ++ e :: rest →
    e.event = .uninstalled true affectedUnits → (∀ e' ∈ rest, ¬ Installs e') → ∀ unit, unit? db unit = none
  bare : Tombstoned db → Bare db
  cut : ∀ e ∈ ledger, Alive e.before ∧ Tombstoned e.after ↔ Uninstalls e
  revived : ∀ e ∈ ledger, ¬ Alive e.before ∧ Alive e.after ↔ Installs e
  unchanged : ∀ e ∈ ledger, ¬ Uninstalls e → ¬ Installs e → plugin? e.after = plugin? e.before
  uninstalledOnce : ∀ before e between e' rest, ledger = before ++ e :: between ++ e' :: rest →
    Uninstalls e → Uninstalls e' → ∃ r ∈ between, Installs r
  installedOnce : ∀ before e between e' rest, ledger = before ++ e :: between ++ e' :: rest →
    Installs e → Installs e' → ∃ u ∈ between, Uninstalls u
  returned : ∀ before e between e' rest affectedUnits, ledger = before ++ e :: between ++ e' :: rest →
    e.event = .uninstalled false affectedUnits → Installs e' → (∀ r ∈ between, ¬ Installs r) →
      ∀ unit, retainedAt e'.after unit = retainedAt e.before unit

end Rows

end BoardGamesEmpire.PluginUninstall
