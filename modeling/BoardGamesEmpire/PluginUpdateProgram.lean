import BoardGamesEmpire.PluginActivation

set_option autoImplicit false

/-!
# The update service as programs

`stage`, `approve`, `reject` and the activation they share, statement by
statement. A refused request halts; a thrown error inside a transaction rolls it
back. Reads whose result only feeds an event are left out.
-/
namespace BoardGamesEmpire.PluginUpdateProgram
open JsText Manifest ReadCommitted PluginStore PluginEscalation PluginActivation

structure ActivationRecord where
  activation : Activation
  seeded : List NormalizedPermissionRequest
  suspendedHouseholdUnits : List SuspensionCandidate
  suspendedUserUnits : List SuspensionCandidate
deriving DecidableEq

inductive Event where
  | staged (slot : StagedUpdate)
  | rejected (stagingId : ℕ)
  | activated (record : ActivationRecord)
  | uninstalled
  | installed (validated : PluginManifestValidationResult)
  | pluginUpdated
  | decided (key : GrantKey)
  | revoked
  | unitUpdated (unit : UnitRef)
  | unchanged
deriving DecidableEq

abbrev Program := Code Row UnitRef Event

/-- A living plugin row, as `loadUpdatablePlugin` and its siblings read it. -/
def livingPlugin (v : Db) : Option Plugin := (plugin? v).filter fun row => row.uninstalledAt == none

section Units

/-- `updateMany` over the unit rows a predicate picks. -/
def updateUnits (p : UnitRef → UnitRow → Bool) (f : UnitRow → UnitRow) (v : Db) : List PluginWrite :=
  ((unitRows v).filter fun entry => p entry.1 entry.2).map fun entry => ⟨.unit entry.1, some (f entry.2)⟩

def isFound (found : List (UnitRef × UnitRow)) (unit : UnitRef) (row : UnitRow) : Bool :=
  found.any fun entry => entry.1 == unit && entry.2.id == row.id

def updateFound (found : List (UnitRef × UnitRow)) (f : UnitRow → UnitRow) (next : Program) : Program :=
  if found = [] then next else .execute (fun _ v => updateUnits (isFound found) f v) fun _ _ => next

/-- The guarded suspension write of `applySuspension`. -/
def suspendWrites (initiatedAt : ℕ) (candidates : List SuspensionCandidate) (v : Db) :
    List PluginWrite :=
  updateUnits (fun unit row => isFound (candidates.map fun c => (c.unit, c.before)) unit row &&
    !row.suspendedForConsent) (suspend initiatedAt) v

def flipped (initiatedAt : ℕ) (candidates : List SuspensionCandidate) (v : Db) :
    List SuspensionCandidate :=
  candidates.filter fun c =>
    match unit? v c.unit with
    | some row => row.id == c.before.id && row.suspendedAt == some initiatedAt
    | none => false

def suspendPass (a : Activation) (axis : PluginConsentScope)
    (next : List SuspensionCandidate → Program) : Program :=
  if reconsentSlugs a.comparison axis = [] then next []
  else .query fun _ v =>
    let units := servingUnits axis v
    if units = [] then next []
    else .query fun _ v =>
      let candidates := suspensionCandidates units a.initiatedAt
        (grantedTo axis units (reconsentSlugs a.comparison axis) v) (reconsentSlugs a.comparison axis)
        (currentRiskBySlug a.next a.corePermissions)
      if candidates = [] then next []
      else .execute (fun _ v => suspendWrites a.initiatedAt candidates v) fun _ v =>
        if (suspendWrites a.initiatedAt candidates v).length = candidates.length then next candidates
        else .query fun _ v => next (flipped a.initiatedAt candidates v)

def configConforms (host : Host) (manifest : PluginManifest) (row : UnitRow) : Bool :=
  match row.config with
  | .other _ => false
  | .object fields => host.validateConfig manifest fields != .issues

def dormant (reason : PluginUnitDormantReason) (initiatedAt : ℕ) (row : UnitRow) : UnitRow :=
  { row with dormantReason := some reason, dormantAt := some initiatedAt }

def revived (row : UnitRow) : UnitRow := { row with dormantReason := none, dormantAt := none }

def reconcileHouseholdDormancy (host : Host) (manifest : PluginManifest) (initiatedAt : ℕ)
    (next : Program) : Program :=
  .query fun _ v =>
    let rows := (unitRows v).filter fun entry => entry.1.consentScope == .household
    match manifest.scope with
    | .server =>
      updateFound (rows.filter fun entry => entry.2.dormantReason != some .scopeOrphaned)
        (dormant .scopeOrphaned initiatedAt) next
    | .household =>
      let orphaned := rows.filter fun entry => entry.2.dormantReason == some .scopeOrphaned
      let serving := rows.filter fun entry => entry.2.dormantReason == none
      let failing := (orphaned ++ serving).filter fun entry => !configConforms host manifest entry.2
      let reviving := orphaned.filter fun entry => configConforms host manifest entry.2
      updateFound failing (dormant .needsConfiguration initiatedAt) (updateFound reviving revived next)

end Units

section Activate

def claimWrites (a : Activation) (config : ConfigValue) (v : Db) : List PluginWrite :=
  match plugin? v with
  | some row => if claimable a row then [⟨.plugin, some (promoted a config row)⟩] else []
  | none => []

/-- `SELECT … FROM plugin_grants WHERE scope_type = 'Server' FOR UPDATE`. -/
def lockServerGrants (v : Db) : List PluginLock :=
  (serverRows v).map fun entry => ⟨.row (.grant entry.1), true⟩

/-- One step; a scope move reads the stale rows first and deletes them by id. -/
def stepCode (a : Activation) (onCollision : Program) (step : ActivationStep) (rest : Program) :
    Program :=
  match step with
  | .moveScope slug scopeType =>
    .query fun _ v =>
      let stale := (grantRows v).filter fun entry =>
        entry.1.permissionSlug == slug && entry.1.scopeType == scopeType
      if stale = [] then rest
      else .execute (fun _ v => deleteFound stale (fun _ => true) v) fun _ _ => rest
  | step =>
    .execute (fun clock v => (stepWrites a step clock v).toOption.getD []) fun clock v =>
      match stepWrites a step clock v with
      | .ok _ => rest
      | .error .decisionCollision => .rollback onCollision
      | .error .other => .rollback .halt

def finishActivation (host : Host) (a : Activation) (seeded : List NormalizedPermissionRequest) :
    Program :=
  suspendPass a .household fun households => suspendPass a .user fun users =>
    reconcileHouseholdDormancy host a.next.manifest a.initiatedAt
      (.commit (.activated ⟨a, seeded, households, users⟩) .halt)

def activateClaimed (host : Host) (a : Activation) (onCollision : Program) : Program :=
  .lock lockServerGrants fun _ v =>
    if blockedByDenial a (serverRows v) ≠ [] then .rollback .halt
    else
      let seeded := seededChecks a (serverRows v)
      if reentryExact a seeded then
        (activationSteps a seeded).foldr (stepCode a onCollision) (finishActivation host a seeded)
      else .rollback .halt

def activateInTransaction (host : Host) (a : Activation) (onCollision : Program) : Program :=
  .lock (lockPlugin true) fun _ v =>
    match plugin? v with
    | none => .rollback .halt
    | some current =>
      .execute (fun _ v => claimWrites a (retainedServerConfig host a.next.manifest current.config) v)
        fun _ v =>
          match plugin? v with
          | some row => if claimable a row then activateClaimed host a onCollision else .rollback .halt
          | none => .rollback .halt

def activate (host : Host) (a : Activation) : Program :=
  let again : Program := .start .halt (activateInTransaction host a .halt)
  .start again (activateInTransaction host a again)

end Activate

section Requests

variable (host : Host)

def validateNextManifest (plugin : Plugin) (raw : ManifestDocument) :
    Option PluginManifestValidationResult :=
  match validatePluginManifest host.rules raw true with
  | .error _ => none
  | .ok next =>
    if next.manifest.slug = plugin.slug ∧ next.manifest.version ≠ plugin.version then some next else none

def validateStoredManifest (plugin : Plugin) (json : ManifestDocument) (expectedVersion : Text)
    (enforceBgeCompat : Bool) : Option PluginManifestValidationResult :=
  match validatePluginManifest host.rules json enforceBgeCompat with
  | .error _ => none
  | .ok validated =>
    if validated.manifest.slug = plugin.slug ∧ validated.manifest.version = expectedVersion then
      some validated
    else none

def validateActiveManifest (plugin : Plugin) : Option PluginManifestValidationResult :=
  validateStoredManifest host plugin plugin.manifestJson plugin.version false

/-- Every core check exists, has no wildcard subject and binds its unit. -/
def corePermissionsAccepted (next : PluginManifestValidationResult)
    (corePermissions : List (Text × Permission)) : Bool :=
  next.externalPermissionChecks.all (fun slug => (mapGet corePermissions slug).isSome) &&
    next.permissionChecks.all fun check => !hasWildcardSubject corePermissions check &&
      !isUnboundedUnitConsent host corePermissions check

def loadCorePermissions (next : PluginManifestValidationResult)
    (continue_ : List (Text × Permission) → Program) : Program :=
  .query fun _ v =>
    let corePermissions := corePermissionsAt v next.externalPermissionChecks
    if corePermissionsAccepted host next corePermissions then continue_ corePermissions else .halt

structure StageInput where
  manifest : ManifestDocument
  sha256 : Text
  initiatorId : Text
  authorized : Bool
  analysisCleared : Bool

def stageable (row : Plugin) : Bool := row.pending == none && row.uninstalledAt == none

def stagedSlot (next : PluginManifestValidationResult) (sha256 : Text) (initiatedAt clock : ℕ) :
    StagedUpdate :=
  ⟨next.manifest.version, .manifest next.manifest, sha256, initiatedAt, clock⟩

def stagePending (next : PluginManifestValidationResult) (sha256 : Text) (initiatedAt : ℕ) : Program :=
  .execute (fun clock v =>
    match plugin? v with
    | some row => if stageable row then
        [⟨.plugin, some { row with pending := some (stagedSlot next sha256 initiatedAt clock) }⟩] else []
    | none => []) fun clock v =>
      match plugin? v with
      | some row => if stageable row then
          .commit (.staged (stagedSlot next sha256 initiatedAt clock)) .halt else .rollback .halt
      | none => .rollback .halt

def stage (input : StageInput) : Program :=
  if !input.authorized then .halt
  else .query fun initiatedAt v =>
    match livingPlugin v with
    | none => .halt
    | some plugin =>
      match validateNextManifest host plugin input.manifest with
      | none => .halt
      | some next =>
        if plugin.pending ≠ none ∨ collectForbiddenPermissionViolations next ≠ [] then .halt
        else loadCorePermissions host next fun corePermissions =>
          if !input.analysisCleared then .halt
          else
            match validateActiveManifest host plugin with
            | none => .halt
            | some active => .query fun _ v =>
              let comparison := compare active next corePermissions (grantRows v)
              if !comparison.serverGating && comparison.blockedByDenial == [] then
                activate host ⟨plugin, active, next, input.sha256, comparison, [], corePermissions,
                  input.initiatorId, initiatedAt, none⟩
              else stagePending next input.sha256 initiatedAt

structure ApproveInput where
  stagingId : ℕ
  approverId : Text
  confirmCriticalSlugs : List Text
  authorized : Bool

def isArtifactSha256 (s : Text) : Bool :=
  s.length == 64 && s.all fun c => isDecimal c || ('a' ≤ c && c ≤ 'f')

/-- The server checks of `next` without a decision. -/
def serverChecksToSeed (next : PluginManifestValidationResult) (v : Db) :
    List NormalizedPermissionRequest :=
  (next.permissionChecks.filter (·.consentScope == .server)).filter fun check =>
    !((serverRows v).map (·.1.permissionSlug)).contains check.canonicalSlug

def approveResolved (input : ApproveInput) (plugin : Plugin) (slot : StagedUpdate)
    (active next : PluginManifestValidationResult) (corePermissions : List (Text × Permission))
    (initiatedAt : ℕ) : Program :=
  .query fun _ v =>
    let comparison := compare active next corePermissions (grantRows v)
    if comparison.blockedByDenial ≠ [] then .halt
    else .query fun _ v =>
      let checksToSeed := serverChecksToSeed next v
      let riskEscalatedChecks := next.permissionChecks.filter fun check =>
        comparison.serverRiskEscalatedSlugs.contains check.canonicalSlug
      if compareExactReentry (criticalConfirmationExpectation (checksToSeed ++ riskEscalatedChecks)
          corePermissions) input.confirmCriticalSlugs then
        activate host ⟨plugin, active, next, slot.pendingSha256, comparison, checksToSeed, corePermissions,
          input.approverId, initiatedAt, some ⟨input.confirmCriticalSlugs, riskEscalatedChecks⟩⟩
      else .halt

def approve (input : ApproveInput) : Program :=
  if !input.authorized then .halt
  else .query fun initiatedAt v =>
    match livingPlugin v with
    | none => .halt
    | some plugin =>
      match plugin.pending with
      | none => .halt
      | some slot =>
        if slot.pendingStagingId ≠ input.stagingId ∨ isArtifactSha256 slot.pendingSha256 = false then .halt
        else
          match validateStoredManifest host plugin slot.pendingManifestJson slot.pendingVersion true,
            validateActiveManifest host plugin with
          | some next, some active => loadCorePermissions host next fun corePermissions =>
              approveResolved host input plugin slot active next corePermissions initiatedAt
          | _, _ => .halt

structure RejectInput where
  stagingId : ℕ
  authorized : Bool

def rejectable (slot : StagedUpdate) (row : Plugin) : Bool :=
  row.uninstalledAt == none &&
    row.pending.map (·.pendingVersion) == some slot.pendingVersion &&
    row.pending.map (·.pendingStagingId) == some slot.pendingStagingId

def rejectWrites (slot : StagedUpdate) (v : Db) : List PluginWrite :=
  match plugin? v with
  | some row => if rejectable slot row then [⟨.plugin, some { row with pending := none }⟩] else []
  | none => []

def reject (input : RejectInput) : Program :=
  if !input.authorized then .halt
  else .query fun _ v =>
    match livingPlugin v with
    | none => .halt
    | some plugin =>
      match plugin.pending with
      | none => .halt
      | some slot =>
        if slot.pendingStagingId ≠ input.stagingId then .halt
        else .execute (fun _ v => rejectWrites slot v) fun _ v =>
          match plugin? v with
          | some row =>
            if rejectable slot row then .commit (.rejected slot.pendingStagingId) .halt
            else .rollback .halt
          | none => .rollback .halt

end Requests

end BoardGamesEmpire.PluginUpdateProgram
