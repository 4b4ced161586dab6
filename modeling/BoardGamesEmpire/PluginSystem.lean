import BoardGamesEmpire.PluginGrantProgram

set_option autoImplicit false

/-!
# The plugin services together

Install, uninstall and the server-wide switches, and the requests a running
system receives. Every request is one program of the interleaving machine.
-/
namespace BoardGamesEmpire.PluginSystem
open JsText Manifest ReadCommitted PluginStore PluginEscalation PluginActivation PluginUpdateProgram
  PluginGrantProgram

section Install

variable (host : Host)

structure InstallInput where
  manifest : ManifestDocument
  sha256 : Text
  installerId : Text
  confirmCriticalSlugs : List Text
  authorized : Bool
  analysisCleared : Bool

/-- `create`: a row that is already there violates its key. -/
def createRow (k : Key) (row : ℕ → Row k) (rest : Program) : Program :=
  .execute (fun clock v => if (v.lookup k).isSome then [] else [⟨k, some (row clock)⟩])
    fun _ v => if (v.lookup k).isSome then .rollback .halt else rest

def installedGrant (validated : PluginManifestValidationResult) (installerId : Text)
    (corePermissions : List (Text × Permission)) (initiatedAt : ℕ) (check : NormalizedPermissionRequest)
    (id : ℕ) : PluginGrant :=
  ⟨id, .granted, installerId, validated.manifest.version, checkRisk corePermissions check, initiatedAt⟩

def serverChecks (validated : PluginManifestValidationResult) : List NormalizedPermissionRequest :=
  validated.permissionChecks.filter (·.consentScope == .server)

def persistRows (input : InstallInput) (validated : PluginManifestValidationResult)
    (corePermissions : List (Text × Permission)) (initiatedAt : ℕ) : Program :=
  (validated.declaredPermissions.map (·.canonicalSlug)).foldr
    (fun slug rest => createRow (.declared slug) (fun _ => ⟨.low⟩) rest)
    ((serverChecks validated).foldr
      (fun check rest => createRow (.grant (serverGrant check.canonicalSlug))
        (installedGrant validated input.installerId corePermissions initiatedAt check) rest)
      (.commit (.installed validated) .halt))

def freshPlugin (input : InstallInput) (validated : PluginManifestValidationResult) (initiatedAt : ℕ) :
    Plugin where
  slug := validated.manifest.slug
  version := validated.manifest.version
  scope := validated.manifest.scope
  enabled := false
  manifestJson := .manifest validated.manifest
  config := emptyConfig
  installedSha256 := input.sha256
  installedById := input.installerId
  installedAt := initiatedAt
  restartRequired := false
  pending := none
  uninstalledAt := none

def reinstalledPlugin (input : InstallInput) (validated : PluginManifestValidationResult)
    (config : ConfigValue) (initiatedAt : ℕ) (row : Plugin) : Plugin :=
  { freshPlugin input validated initiatedAt with slug := row.slug, config := config, restartRequired := true }

/-- `persist`. A row under another slug is another plugin's and not in this store. -/
def persist (input : InstallInput) (validated : PluginManifestValidationResult)
    (corePermissions : List (Text × Permission)) (initiatedAt : ℕ) : Program :=
  .query fun _ v =>
    let existing := plugin? v
    .query fun _ v =>
      if (validated.declaredPermissions.any fun declared => (declared? v declared.canonicalSlug).isSome)
      then .rollback .halt
      else
        match existing with
        | none => createRow .plugin (fun _ => freshPlugin input validated initiatedAt)
            (persistRows input validated corePermissions initiatedAt)
        | some row =>
          if row.slug ≠ validated.manifest.slug ∨ row.uninstalledAt = none then .rollback .halt
          else
            let config := retainedServerConfig host validated.manifest row.config
            .execute (fun _ v =>
              match plugin? v with
              | some row => if row.uninstalledAt = none then []
                else [⟨.plugin, some (reinstalledPlugin input validated config initiatedAt row)⟩]
              | none => []) fun _ v =>
                match plugin? v with
                | some row => if row.uninstalledAt = none then .rollback .halt
                  else reconcileHouseholdDormancy host validated.manifest initiatedAt
                    (persistRows input validated corePermissions initiatedAt)
                | none => .rollback .halt

def install (input : InstallInput) : Program :=
  match validatePluginManifest host.rules input.manifest true with
  | .error _ => .halt
  | .ok validated =>
    if collectForbiddenPermissionViolations validated ≠ [] ∨ input.authorized = false then .halt
    else .query fun initiatedAt _ => loadCorePermissions host validated fun corePermissions =>
      if compareExactReentry (criticalConfirmationExpectation (serverChecks validated) corePermissions)
          input.confirmCriticalSlugs && input.analysisCleared then
        persist host input validated corePermissions initiatedAt
      else .halt

end Install

section Lifecycle

variable (host : Host)

def tombstoned (initiatedAt : ℕ) (row : Plugin) : Plugin :=
  { row with enabled := false, uninstalledAt := some initiatedAt, restartRequired := true, pending := none }

/-- `updateMany` on the plugin row under a guard, as each caller goes on. -/
def updatePlugin (guard : Plugin → Bool) (f : Plugin → Plugin) (onMiss next : Program) : Program :=
  .execute (fun _ v =>
    match plugin? v with
    | some row => if guard row then [⟨.plugin, some (f row)⟩] else []
    | none => []) fun _ v =>
      match plugin? v with
      | some row => if guard row then next else onMiss
      | none => onMiss

def deleteUnits (axis : PluginConsentScope) (v : Db) : List PluginWrite :=
  ((unitRows v).filter fun entry => entry.1.consentScope == axis).map fun entry => ⟨.unit entry.1, none⟩

def uninstall (authorized purgeData : Bool) : Program :=
  if !authorized then .halt
  else .query fun initiatedAt v =>
    match livingPlugin v with
    | none => .halt
    | some _ =>
      updatePlugin (fun row => row.uninstalledAt == none) (tombstoned initiatedAt) (.rollback .halt) <|
        .execute (fun _ v => deleteGrants (fun _ _ => true) v) fun _ _ =>
          .execute (fun _ v => deletePermissions (fun _ => true) v) fun _ _ =>
            if purgeData then
              .execute (fun _ v => deleteUnits .household v) fun _ _ =>
                .execute (fun _ v => deleteUnits .user v) fun _ _ => .commit .uninstalled .halt
            else .commit .uninstalled .halt

/-- `enable` and `disable`; a cold enable asks for a restart. -/
def setEnabled (authorized enabled registered : Bool) : Program :=
  if !authorized then .halt
  else .query fun _ v =>
    match livingPlugin v with
    | none => .halt
    | some plugin =>
      if plugin.enabled = enabled then .halt
      else updatePlugin (fun row => row.enabled == !enabled && row.uninstalledAt == none)
        (fun row => { row with
          enabled
          restartRequired := if enabled && !registered then true else row.restartRequired })
        (.commit .unchanged .halt) (.commit .pluginUpdated .halt)

def updateConfig (authorized : Bool) (config : Text) : Program :=
  if !authorized then .halt
  else .query fun _ v =>
    match livingPlugin v with
    | none => .halt
    | some plugin =>
      match revalidateStoredManifest host plugin with
      | .error _ => .halt
      | .ok validated =>
        if !configAccepted host validated.manifest (some config) then .halt
        else .lock (lockPlugin true) fun _ v =>
          match plugin? v with
          | none => .rollback .halt
          | some row =>
            if row.uninstalledAt ≠ none ∨ classifyManifestMove row plugin ≠ none then .rollback .halt
            else updatePlugin (fun _ => true) (fun row => { row with config := .object config })
              (.rollback .halt) (.commit .pluginUpdated .halt)

end Lifecycle

inductive Request where
  | install (input : InstallInput)
  | stage (input : StageInput)
  | approve (input : ApproveInput)
  | reject (input : RejectInput)
  | uninstall (authorized purgeData : Bool)
  | setEnabled (authorized enabled registered : Bool)
  | updateConfig (authorized : Bool) (config : Text)
  | decide (input : DecisionInput)
  | revokeForAuthorityLoss (unit : UnitRef)
  | enableHousehold (input : EnableInput)
  | setUnitEnabled (unit : UnitRef) (enabled authorized : Bool)
  | updateHouseholdConfig (householdId config : Text) (authorized : Bool)

def program (host : Host) : Request → Program
  | .install input => install host input
  | .stage input => stage host input
  | .approve input => approve host input
  | .reject input => reject input
  | .uninstall authorized purgeData => uninstall authorized purgeData
  | .setEnabled authorized enabled registered => setEnabled authorized enabled registered
  | .updateConfig authorized config => updateConfig host authorized config
  | .decide input => decide host input
  | .revokeForAuthorityLoss unit => revokeForAuthorityLoss unit
  | .enableHousehold input => enableHousehold host input
  | .setUnitEnabled unit enabled authorized => setUnitEnabled unit enabled authorized
  | .updateHouseholdConfig householdId config authorized =>
   updateHouseholdConfig host householdId config authorized

abbrev System := Sys Row UnitRef Event

abbrev State := Shared Row Event

/-- A store before the first install: only the rows other services own. -/
def Fresh (db : Db) : Prop := ∀ k, outside k = false → db.lookup k = none

def Running (host : Host) (s : System) : Prop :=
  ∃ db, Fresh db ∧ Reachable (program host) outside db s

def Served (host : Host) (requests : List Request) (s : System) : Prop :=
  ∃ db, Fresh db ∧ Traced (program host) outside db requests s

theorem Served.running {host : Host} {requests : List Request} {s : System}
  (h : Served host requests s) :
  Running host s := by
 obtain ⟨db, hfresh, htraced⟩ := h
 exact ⟨db, hfresh, htraced.reachable⟩

end BoardGamesEmpire.PluginSystem
