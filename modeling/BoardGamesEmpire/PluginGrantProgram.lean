import BoardGamesEmpire.PluginUpdateProgram

set_option autoImplicit false

/-!
# Decisions and unit rows as programs

`PluginGrantService` and `PluginUnitLifecycleService`. The household and user
methods come in pairs that differ in the unit only, so a pair is one program
over `UnitRef`.
-/
namespace BoardGamesEmpire.PluginGrantProgram
open JsText Manifest ReadCommitted PluginStore PluginEscalation PluginActivation PluginUpdateProgram

inductive PluginChangeKind where
  | reinstalled | versionActivated
deriving DecidableEq

def classifyManifestMove (row expected : Plugin) : Option PluginChangeKind :=
  if row.installedAt ≠ expected.installedAt then some .reinstalled
  else if row.version ≠ expected.version then some .versionActivated
  else if row.manifestJson ≠ expected.manifestJson then some .versionActivated
  else none

/-- `lockLiveHousehold`. -/
def isLiveHousehold (v : Db) (householdId : Text) : Bool :=
  match home? v householdId with
  | some home => !home.deleted
  | none => false

def lockLiveHousehold (householdId : Text) (next : Program) : Program :=
  .lock (fun v => if isLiveHousehold v householdId then [⟨.row (.home householdId), false⟩] else [])
    fun _ v => if isLiveHousehold v householdId then next else .rollback .halt

def openScope (unit : UnitRef) (next : Program) : Program :=
  match unit with
  | .household id => lockLiveHousehold id next
  | .user _ => next

/-- `lockHouseholdUnitScope` and `lockUserUnitScope`. -/
def lockUnitScope (unit : UnitRef) (next : Program) : Program :=
  .lock (fun _ => [⟨.advisory unit, true⟩]) fun _ _ => next

/-- `lockHouseholdUnit` and `lockUserUnit`. -/
def lockUnit (unit : UnitRef) (next : Option UnitRow → Program) : Program :=
  .lock (fun v => if (unit? v unit).isSome then [⟨.row (.unit unit), true⟩] else [])
    fun _ v => next (unit? v unit)

/-- `update` of the unit row found before, if it is still there. -/
def updateUnit (unit : UnitRef) (found : UnitRow) (guard : UnitRow → Bool) (f : UnitRow → UnitRow)
    (next : Program) : Program :=
  .execute (fun _ v =>
    match unit? v unit with
    | some row => if row.id == found.id && guard row then [⟨.unit unit, some (f row)⟩] else []
    | none => []) fun _ _ => next

/-- The two reads of `outstandingUnitSlugs`. -/
def readOutstanding (unit : UnitRef) (checks : List NormalizedPermissionRequest)
    (next : List Text → Program) : Program :=
  .query fun _ v =>
    let granted := grantedOn unit checks v
    .query fun _ v => next (outstandingSlugs granted (corePermissionsAt v (coreSlugs checks)) checks)

section Passes

variable (host : Host)

/-- `suspendHouseholdUnit` and `suspendUserUnit`, inside the caller's transaction. -/
def suspendUnit (validated : PluginManifestValidationResult) (unit : UnitRef) (deniedSlug : Text)
    (initiatedAt : ℕ) (next : Program) : Program :=
  lockUnitScope unit <| lockUnit unit fun found =>
    match found with
    | none => next
    | some row =>
      if row.suspendedForConsent then next
      else readOutstanding unit (unitChecks validated unit) fun outstanding =>
        if outstanding.contains deniedSlug then
          updateUnit unit row (!·.suspendedForConsent) (suspend initiatedAt) next
        else next

/-- The living plugin row as a pass locks it, `FOR SHARE`. -/
def lockLivePlugin (next : Plugin → Program) : Program :=
  .lock (lockPlugin false) fun _ v =>
    match livingPlugin v with
    | none => .commit .unchanged .halt
    | some live => next live

/-- `currentManifestOf`, whose error rolls the pass back. -/
def withCurrentManifest (live : Plugin) (next : PluginManifestValidationResult → Program) : Program :=
  match revalidateStoredManifest host live with
  | .error _ => .rollback .halt
  | .ok validated => next validated

def reenabled (row : UnitRow) : UnitRow := { row with suspendedForConsent := false, suspendedAt := none }

/-- `maybeReenableSuspendedHousehold` and `maybeReenableSuspendedUser`. -/
def maybeReenable (unit : UnitRef) : Program :=
  lockLivePlugin fun live => lockUnitScope unit <| lockUnit unit fun found =>
    match found with
    | none => .commit .unchanged .halt
    | some row =>
      if !row.suspendedForConsent then .commit .unchanged .halt
      else withCurrentManifest host live fun validated =>
        let reenable :=
         updateUnit unit row (·.suspendedForConsent) reenabled (.commit (.unitUpdated unit) .halt)
        if unitChecks validated unit = [] then reenable
        else readOutstanding unit (unitChecks validated unit) fun outstanding =>
          if outstanding = [] then reenable else .commit .unchanged .halt

/-- `maybeSuspendHousehold` and `maybeSuspendUser`. -/
def maybeSuspend (unit : UnitRef) (deniedSlug : Text) (initiatedAt : ℕ) : Program :=
  lockLivePlugin fun live => withCurrentManifest host live fun validated =>
    suspendUnit validated unit deniedSlug initiatedAt (.commit (.unitUpdated unit) .halt)

end Passes

section Decide

variable (host : Host)

structure DecisionInput where
  permissionSlug : Text
  scopeType : PluginGrantScope
  scopeId : Option Text
  status : PluginGrantStatus
  deciderId : Text
  authorized : Bool

/-- The consenting unit; `none` is the server, and a missing unit id is refused before. -/
def unitAt (scopeType : PluginGrantScope) (scopeId : Text) : Option UnitRef :=
  match scopeType with
  | .server => none
  | .household => some (.household scopeId)
  | .user => some (.user scopeId)

def normalizeScopeId (input : DecisionInput) : Option Text :=
  match input.scopeType with
  | .server =>
    match input.scopeId with
    | none => some serverScopeSentinel
    | some id => if id = serverScopeSentinel then some serverScopeSentinel else none
  | .household | .user =>
    match input.scopeId with
    | none => none
    | some id => if id = serverScopeSentinel then none else some id

/-- `resolveRiskLevel`: none when the permission may not be granted. -/
def resolveRiskLevel (v : Db) (check : NormalizedPermissionRequest) : Option RiskLevel :=
  match check.origin with
  | .plugin =>
    match parsePluginPermissionSlug check.canonicalSlug with
    | none => none
    | some parsed =>
      if isPluginAdministrationSlug parsed.bareSlug || parsed.subjectPath == allSubject ||
          "all:".toList.isPrefixOf parsed.subjectPath then none
      else (declared? v check.canonicalSlug).map (·.riskLevel)
  | .core =>
    if isPluginAdministrationSlug check.canonicalSlug then none
    else
      match permission? v check.canonicalSlug with
      | none => none
      | some permission =>
        if permission.subject = allSubject then none
        else if grantScopeOf check.consentScope ≠ .server ∧ host.bindsConsentUnit check.canonicalSlug
            permission (grantScopeOf check.consentScope) = false then none
        else some permission.riskLevel

/-- `reconcileUnitState` and the re-enable pass after a new decision. -/
def afterDecision (unit : Option UnitRef) (status : PluginGrantStatus) (required : Bool)
    (deniedSlug : Text) (changed : Bool) (initiatedAt : ℕ) : Program :=
  match unit, status with
  | none, _ => .halt
  | some unit, .granted => maybeReenable host unit
  | some unit, .denied =>
    if !changed && required then maybeSuspend host unit deniedSlug initiatedAt else .halt

def createUserUnit (validated : PluginManifestValidationResult) (unit : UnitRef)
    (check : NormalizedPermissionRequest) (initiatedAt : ℕ) (next : Program) : Program :=
  let otherRequired := ((unitChecks validated unit).filter fun candidate => candidate.required &&
    candidate.canonicalSlug != check.canonicalSlug).map (·.canonicalSlug)
  lockUnitScope unit <| .query fun _ v =>
    let bornSuspended := (grantRows v).any fun entry => entry.1.scopeType == unit.scope &&
      entry.1.scopeId == unit.scopeId && entry.2.status == .denied &&
      otherRequired.contains entry.1.permissionSlug
    .execute (fun clock v =>
      if (unit? v unit).isSome then []
      else [⟨.unit unit, some ⟨clock, true, bornSuspended,
        if bornSuspended then some initiatedAt else none, emptyConfig, none, none⟩⟩]) fun _ _ => next

def settleUnit (validated : PluginManifestValidationResult) (unit : Option UnitRef)
    (status : PluginGrantStatus) (check : NormalizedPermissionRequest) (initiatedAt : ℕ)
    (next : Program) : Program :=
  match unit, status with
  | some unit, .denied =>
    if check.required then suspendUnit validated unit check.canonicalSlug initiatedAt next else next
  | some (.user id), .granted => createUserUnit validated (.user id) check initiatedAt next
  | _, _ => next

def decidedRow (plugin : Plugin) (input : DecisionInput) (risk : RiskLevel) (initiatedAt id : ℕ) :
    PluginGrant :=
  ⟨id, input.status, input.deciderId, plugin.version, risk, initiatedAt⟩

def decideClaimed (input : DecisionInput) (plugin : Plugin) (validated : PluginManifestValidationResult)
    (check : NormalizedPermissionRequest) (scopeId : Text) (initiatedAt : ℕ) : Program :=
  let key : GrantKey := ⟨input.scopeType, scopeId, check.canonicalSlug⟩
  let unit := unitAt input.scopeType scopeId
  .lock (lockPlugin false) fun _ v =>
    match plugin? v with
    | none => .rollback .halt
    | some claim =>
      if claim.uninstalledAt ≠ none ∨ classifyManifestMove claim plugin ≠ none then .rollback .halt
      else .query fun _ v =>
        match resolveRiskLevel host v check with
        | none => .rollback .halt
        | some risk => .query fun _ v =>
          match grant? v key with
          | some existing =>
            if existing.status = input.status ∧ existing.manifestVersion = plugin.version ∧
                existing.decidedRiskLevel = risk then
              .commit .unchanged (afterDecision host unit input.status check.required check.canonicalSlug
                false initiatedAt)
            else upsert key unit risk
          | none => upsert key unit risk
where
  /-- The upsert keeps the id of a row that is still there. -/
  upsert (key : GrantKey) (unit : Option UnitRef) (risk : RiskLevel) : Program :=
    .execute (fun clock v =>
      [⟨.grant key, some (decidedRow plugin input risk initiatedAt
        (((grant? v key).map (·.id)).getD clock))⟩]) fun _ _ =>
      settleUnit validated unit input.status check initiatedAt
        (.commit (.decided key) (afterDecision host unit input.status check.required check.canonicalSlug
          true initiatedAt))

def decide (input : DecisionInput) : Program :=
  .query fun initiatedAt v =>
    match livingPlugin v with
    | none => .halt
    | some plugin =>
      match revalidateStoredManifest host plugin with
      | .error _ => .halt
      | .ok validated =>
        match validated.permissionChecks.find? fun check =>
         check.canonicalSlug == input.permissionSlug with
        | none => .halt
        | some check =>
          if grantScopeOf check.consentScope ≠ input.scopeType then .halt
          else if input.status = .denied ∧ check.required = true ∧ check.consentScope = .server then .halt
          else
            match normalizeScopeId input with
            | none => .halt
            | some scopeId =>
              if !input.authorized then .halt
              else
                let body := openDecision input scopeId
                  (decideClaimed host input plugin validated check scopeId initiatedAt)
                .start (.start .halt body) body
where
  openDecision (input : DecisionInput) (scopeId : Text) (next : Program) : Program :=
    match input.scopeType with
    | .household => lockLiveHousehold scopeId next
    | .server | .user => next

end Decide

section Revoke

/-- Authority lost over a unit deletes its granted decisions. A missing unit id
    and the server scope are refused before. -/
def revokeForAuthorityLoss (unit : UnitRef) : Program :=
  if unit.scopeId = serverScopeSentinel then .halt
  else .query fun _ v =>
    let rows := (grantRows v).filter fun entry => entry.1.scopeType == unit.scope &&
      entry.1.scopeId == unit.scopeId && entry.2.status == .granted
    if rows = [] then .commit .unchanged .halt
    else .execute (fun _ v => deleteFound rows (·.status == .granted) v) fun _ _ => .commit .revoked .halt

end Revoke

section UnitLifecycle

variable (host : Host)

/-- `assertStillLiving`; without an expected row any living one will do. -/
def assertStillLiving (expected : Option Plugin) (next : Plugin → Program) : Program :=
  .lock (lockPlugin false) fun _ v =>
    match plugin? v with
    | none => .rollback .halt
    | some row =>
      if row.uninstalledAt ≠ none then .rollback .halt
      else if (expected.bind (classifyManifestMove row)) ≠ none then .rollback .halt
      else next row

/-- `openHouseholdUnit` and `openUserUnit`. -/
def openUnit (unit : UnitRef) (expected : Option Plugin) (requireSurface : Bool)
    (next : Option UnitRow → Program) : Program :=
  openScope unit <| assertStillLiving expected fun row =>
    if requireSurface && row.scope != .household then .rollback .halt
    else lockUnitScope unit <| .query fun _ v => next (unit? v unit)

structure EnableInput where
  householdId : Text
  config : Option Text
  authorized : Bool

def configDormancyCleared (existing row : UnitRow) : UnitRow :=
  if existing.dormantReason = some .needsConfiguration then revived row else row

def retainedConfigSatisfies (manifest : PluginManifest) : Option UnitRow → Bool
  | none => false
  | some row =>
    match row.config with
    | .other _ => false
    | .object fields => host.validateConfig manifest fields == .conforms

def deniedRequiredSlugs (validated : PluginManifestValidationResult) (unit : UnitRef) (v : Db) :
    List Text :=
  let required := ((unitChecks validated unit).filter (·.required)).map (·.canonicalSlug)
  ((grantRows v).filter fun entry => entry.1.scopeType == unit.scope && entry.1.scopeId == unit.scopeId &&
    entry.2.status == .denied && required.contains entry.1.permissionSlug).map (·.1.permissionSlug)

def enableRow (config : Option Text) (existing row : UnitRow) : UnitRow :=
  configDormancyCleared existing { row with
    enabled := if existing.enabled then row.enabled else true
    config := (config.map .object).getD row.config }

def enableOpened (validated : PluginManifestValidationResult) (unit : UnitRef) (config : Option Text)
    (initiatedAt : ℕ) (existing : Option UnitRow) : Program :=
  let gated := config = none ∧ (validated.manifest.requiresHouseholdConfig = true ∨
    existing.bind (·.dormantReason) = some .needsConfiguration)
  if gated ∧ retainedConfigSatisfies host validated.manifest existing = false then .rollback .halt
  else
    match existing with
    | some row => updateUnit unit row (fun _ => true) (enableRow config row)
     (.commit (.unitUpdated unit) .halt)
    | none => .query fun _ v =>
      let bornSuspended := deniedRequiredSlugs validated unit v ≠ []
      .execute (fun clock v =>
        if (unit? v unit).isSome then []
        else [⟨.unit unit, some ⟨clock, true, bornSuspended,
          if bornSuspended then some initiatedAt else none, .object (config.getD []), none, none⟩⟩])
        fun _ v => if (unit? v unit).isSome then .rollback .halt else .commit (.unitUpdated unit) .halt

def configAccepted (manifest : PluginManifest) : Option Text → Bool
  | none => true
  | some fields => host.validateConfig manifest fields == .conforms

def enableHousehold (input : EnableInput) : Program :=
  .query fun initiatedAt v =>
    match livingPlugin v with
    | none => .halt
    | some plugin =>
      if plugin.scope ≠ .household ∨ input.authorized = false then .halt
      else
        match revalidateStoredManifest host plugin with
        | .error _ => .halt
        | .ok validated =>
          if !configAccepted host validated.manifest input.config then .halt
          else
            let unit : UnitRef := .household input.householdId
            openUnit unit (some plugin) true fun existing =>
              match existing with
              | some row =>
                if row.enabled && row.dormantReason == none && input.config == none then
                  .commit .unchanged .halt
                else enableOpened host validated unit input.config initiatedAt existing
              | none => enableOpened host validated unit input.config initiatedAt existing

/-- `disableHousehold`, `enableUser` and `disableUser`: the switch of an enrolled unit. -/
def setUnitEnabled (unit : UnitRef) (enabled authorized : Bool) : Program :=
  .query fun _ v =>
    match livingPlugin v with
    | none => .halt
    | some _ =>
      if !authorized then .halt
      else openUnit unit none false fun existing =>
        match existing with
        | none => .rollback .halt
        | some row =>
          if row.enabled = enabled then .commit .unchanged .halt
          else updateUnit unit row (fun _ => true) (fun row => { row with enabled })
            (.commit (.unitUpdated unit) .halt)

def updateHouseholdConfig (householdId : Text) (config : Text) (authorized : Bool) : Program :=
  .query fun _ v =>
    match livingPlugin v with
    | none => .halt
    | some plugin =>
      if plugin.scope ≠ .household ∨ authorized = false then .halt
      else
        match revalidateStoredManifest host plugin with
        | .error _ => .halt
        | .ok validated =>
          if !configAccepted host validated.manifest (some config) then .halt
          else
            let unit : UnitRef := .household householdId
            openUnit unit (some plugin) true fun existing =>
              match existing with
              | none => .rollback .halt
              | some row => updateUnit unit row (fun _ => true)
                  (fun current => configDormancyCleared row { current with config := .object config })
                  (.commit (.unitUpdated unit) .halt)

end UnitLifecycle

end BoardGamesEmpire.PluginGrantProgram
