import BoardGamesEmpire.PluginEscalation

set_option autoImplicit false

/-!
# Promoting a version

The transaction that `stage` and `approve` share. Its grant and catalog writes
are a list of steps, so that the sequential reading of an activation and the
interleaved one run the same list.
-/
namespace BoardGamesEmpire.PluginActivation
open JsText Manifest ReadCommitted PluginStore PluginEscalation

abbrev PluginLock := Lock Key UnitRef

abbrev PluginWrite := Write Row

def pluginLock (exclusive : Bool) : PluginLock := ⟨.row .plugin, exclusive⟩

/-- `SELECT … FROM plugins … FOR SHARE` or `FOR UPDATE`; a missing row is not locked. -/
def lockPlugin (exclusive : Bool) (v : Db) : List PluginLock :=
  if (plugin? v).isSome then [pluginLock exclusive] else []

structure Reentry where
  confirmCriticalSlugs : List Text
  riskEscalatedChecks : List NormalizedPermissionRequest
deriving DecidableEq

/-- The arguments of `activateInTransaction`. `plugin` is the row the request
    loaded, `initiatedAt` the time of that read. -/
structure Activation where
  plugin : Plugin
  active : PluginManifestValidationResult
  next : PluginManifestValidationResult
  artifactSha256 : Text
  comparison : UpdateEscalationComparison
  checksToSeed : List NormalizedPermissionRequest
  corePermissions : List (Text × Permission)
  actorId : Text
  initiatedAt : ℕ
  reentry : Option Reentry
deriving DecidableEq

section Claim

def retainedServerConfig (host : Host) (manifest : PluginManifest) : ConfigValue → ConfigValue
  | .other _ => emptyConfig
  | .object fields =>
    match host.validateConfig manifest fields with
    | .conforms => .object fields
    | .issues | .throws => emptyConfig

def claimable (a : Activation) (row : Plugin) : Bool :=
  row.uninstalledAt == none &&
    row.pending.map (·.pendingVersion) == a.plugin.pending.map (·.pendingVersion) &&
    row.pending.map (·.pendingStagingId) == a.plugin.pending.map (·.pendingStagingId)

def promoted (a : Activation) (config : ConfigValue) (row : Plugin) : Plugin :=
  { row with
    version := a.next.manifest.version
    scope := a.next.manifest.scope
    manifestJson := .manifest a.next.manifest
    config := config
    installedSha256 := a.artifactSha256
    pending := none
    restartRequired := true }

def serverRows (v : Db) : List (GrantKey × PluginGrant) :=
  (grantRows v).filter fun entry => entry.1.scopeType == .server

/-- The required checks of `next` that a locked server decision refuses. -/
def blockedByDenial (a : Activation) (serverGrants : List (GrantKey × PluginGrant)) : List Text :=
  (a.next.permissionChecks.filter fun check => check.consentScope == .server && check.required &&
    ((serverGrants.filter (·.2.status == .denied)).map (·.1.permissionSlug)).contains
      check.canonicalSlug).map (·.canonicalSlug)

def seededChecks (a : Activation) (serverGrants : List (GrantKey × PluginGrant)) :
    List NormalizedPermissionRequest :=
  a.checksToSeed.filter fun check =>
    !(serverGrants.map (·.1.permissionSlug)).contains check.canonicalSlug

def reentryExact (a : Activation) (seeded : List NormalizedPermissionRequest) : Bool :=
  match a.reentry with
  | none => true
  | some reentry => compareExactReentry
      (criticalConfirmationExpectation (seeded ++ reentry.riskEscalatedChecks) a.corePermissions)
      reentry.confirmCriticalSlugs

end Claim

section Steps

/-- `deleteMany` over the decisions a predicate picks. -/
def deleteGrants (p : GrantKey → PluginGrant → Bool) (v : Db) : List PluginWrite :=
  ((grantRows v).filter fun entry => p entry.1 entry.2).map fun entry => ⟨.grant entry.1, none⟩

/-- `deleteMany` by id: a row found before is found again under its key and id. -/
def deleteFound (found : List (GrantKey × PluginGrant)) (p : PluginGrant → Bool) (v : Db) :
    List PluginWrite :=
  deleteGrants (fun key row => (found.any fun f => f.1 == key && f.2.id == row.id) && p row) v

def deletePermissions (p : Text → Bool) (v : Db) : List PluginWrite :=
  ((declaredRows v).filter fun entry => p entry.1).map fun entry => ⟨.declared entry.1, none⟩

/-- One grant or catalog step of the activation, in the order the source runs them. -/
inductive ActivationStep where
  | deleteGrants (slugs : List Text)
  | deletePermissions (slugs : List Text)
  | createPermission (slug : Text)
  | reStamp (slug : Text)
  | moveScope (slug : Text) (scopeType : PluginGrantScope)
  | seed (check : NormalizedPermissionRequest)
deriving DecidableEq

inductive WriteFailure where
  | decisionCollision
  | other
deriving DecidableEq

def reStamped (a : Activation) (slug : Text) (row : PluginGrant) : PluginGrant :=
  { row with
    decidedRiskLevel := ((mapGet a.corePermissions slug).map (·.riskLevel)).getD .low
    decidedById := a.actorId
    decidedAt := a.initiatedAt
    manifestVersion := a.next.manifest.version }

def seededGrant (a : Activation) (id : ℕ) (check : NormalizedPermissionRequest) : PluginGrant :=
  ⟨id, .granted, a.actorId, a.next.manifest.version, checkRisk a.corePermissions check, a.initiatedAt⟩

def stepWrites (a : Activation) (step : ActivationStep) (clock : ℕ) (v : Db) :
    Except WriteFailure (List PluginWrite) :=
  match step with
  | .deleteGrants slugs => .ok (deleteGrants (fun key _ => slugs.contains key.permissionSlug) v)
  | .deletePermissions slugs => .ok (deletePermissions slugs.contains v)
  | .createPermission slug =>
    match declared? v slug with
    | none => .ok [⟨.declared slug, some ⟨.low⟩⟩]
    | some _ => .error .other
  | .reStamp slug =>
    match grant? v (serverGrant slug) with
    | some row => .ok [⟨.grant (serverGrant slug), some (reStamped a slug row)⟩]
    | none => .error .other
  | .moveScope slug scopeType =>
    .ok (deleteGrants (fun key _ => key.permissionSlug == slug && key.scopeType == scopeType) v)
  | .seed check =>
    match grant? v (serverGrant check.canonicalSlug) with
    | none => .ok [⟨.grant (serverGrant check.canonicalSlug), some (seededGrant a clock check)⟩]
    | some _ => .error .decisionCollision

def removalSteps (a : Activation) : List ActivationStep :=
  let removed := (declaredSlugDiff a.active a.next).removed
  let dropped := requestedSlugsDropped a.active a.next removed
  (if removed = [] then [] else [.deleteGrants removed, .deletePermissions removed]) ++
    (if dropped = [] then [] else [.deleteGrants dropped])

def activationSteps (a : Activation) (seeded : List NormalizedPermissionRequest) :
    List ActivationStep :=
  removalSteps a ++
    (declaredSlugDiff a.active a.next).added.map .createPermission ++
    a.comparison.serverRiskEscalatedSlugs.map .reStamp ++
    (scopeMoves a.comparison).map (fun move => .moveScope move.1 move.2) ++
    seeded.map .seed

/-- The steps run by themselves, from the store `v`. -/
def applySteps (a : Activation) : List ActivationStep → ℕ → Db → Except WriteFailure Db
  | [], _, v => .ok v
  | step :: rest, clock, v =>
    match stepWrites a step clock v with
    | .error failure => .error failure
    | .ok writes => applySteps a rest (clock + 1) (applyLog v writes)

def stepRow (a : Activation) (step : ActivationStep) (clock : ℕ) :
    (k : Key) → Option (Row k) → Option (Row k)
  | .grant key, row =>
    match step with
    | .deleteGrants slugs => if slugs.contains key.permissionSlug then none else row
    | .moveScope slug scopeType =>
      if key.permissionSlug == slug && key.scopeType == scopeType then none else row
    | .reStamp slug => if key = serverGrant slug then row.map (reStamped a slug) else row
    | .seed check =>
      if key = serverGrant check.canonicalSlug then some (seededGrant a clock check) else row
    | .deletePermissions _ | .createPermission _ => row
  | .declared slug, row =>
    match step with
    | .deletePermissions slugs => if slugs.contains slug then none else row
    | .createPermission added => if slug = added then some ⟨.low⟩ else row
    | .deleteGrants _ | .moveScope _ _ | .reStamp _ | .seed _ => row
  | .plugin, row | .unit _, row | .permission _, row | .home _, row => row

theorem filter_not_const {α : Type} (x : Option α) (b : Bool) :
  (x.filter fun _ => !b) = if b then none else x := by
 cases x <;> cases b <;> rfl

theorem lookup_deleteGrants (p : GrantKey → PluginGrant → Bool) (v : Db) (key : GrantKey) :
  grant? (applyLog v (deleteGrants p v)) key = (grant? v key).filter fun row => !p key row := by
 cases hrow : grant? v key with
 | none =>
  have hnot : ∀ w ∈ deleteGrants p v, w.key ≠ .grant key := by
   intro w hw heq
   obtain ⟨⟨key', row⟩, hmem, rfl⟩ := List.mem_map.1 hw
   cases heq
   rw [List.mem_filter, mem_grantRows, hrow] at hmem
   cases hmem.1
  rw [grant?, lookup_applyLog_of_notMem v hnot]
  exact hrow
 | some row =>
  by_cases hp : p key row = true
  · have hmem : (⟨.grant key, none⟩ : PluginWrite) ∈ deleteGrants p v :=
     List.mem_map.2 ⟨(key, row), List.mem_filter.2 ⟨mem_grantRows.2 hrow, hp⟩, rfl⟩
    rw [grant?, lookup_applyLog_erased v (fun w hw => by
     obtain ⟨entry, -, rfl⟩ := List.mem_map.1 hw
     rfl) ⟨_, hmem, rfl⟩, Option.filter_some, hp]
    rfl
  · have hnot : ∀ w ∈ deleteGrants p v, w.key ≠ .grant key := by
     intro w hw heq
     obtain ⟨⟨key', row'⟩, hmem, rfl⟩ := List.mem_map.1 hw
     cases heq
     rw [List.mem_filter, mem_grantRows, hrow] at hmem
     cases hmem.1
     exact hp hmem.2
    rw [grant?, lookup_applyLog_of_notMem v hnot, Option.filter_some, Bool.eq_false_iff.2 hp]
    exact hrow

theorem deleteGrants_key {p : GrantKey → PluginGrant → Bool} {v : Db} {k : Key}
  (hk : ∀ key, k ≠ .grant key) : ∀ w ∈ deleteGrants p v, w.key ≠ k := by
 intro w hw heq
 obtain ⟨entry, -, rfl⟩ := List.mem_map.1 hw
 exact hk _ heq.symm

theorem lookup_insertion {v : Db} {key : Key} {value : Row key}
  {f : (k : Key) → Option (Row k) → Option (Row k)} (hself : f key (v.lookup key) = some value)
  (hother : ∀ k, k ≠ key → f k (v.lookup k) = v.lookup k) {k : Key} :
  (applyLog v [⟨key, some value⟩]).lookup k = f k (v.lookup k) := by
 by_cases hk : k = key
 · subst hk
   exact (lookup_applyWrite_self v k (some value)).trans hself.symm
 · rw [hother k hk]
   exact lookup_applyLog_of_notMem v (by simpa using Ne.symm hk)

theorem lookup_deletePermissions (p : Text → Bool) (v : Db) (slug : Text) :
  declared? (applyLog v (deletePermissions p v)) slug =
   (declared? v slug).filter fun _ => !p slug := by
 by_cases hmem : ∃ w ∈ deletePermissions p v, w.key = .declared slug
 · rw [declared?, lookup_applyLog_erased v (fun w hw => by
    obtain ⟨entry, -, rfl⟩ := List.mem_map.1 hw
    rfl) hmem]
   obtain ⟨w, hw, heq⟩ := hmem
   obtain ⟨⟨slug', row⟩, hin, rfl⟩ := List.mem_map.1 hw
   cases heq
   simp [(List.mem_filter.1 hin).2]
 · have hnot : ∀ w ∈ deletePermissions p v, w.key ≠ .declared slug := fun w hw heq => hmem ⟨w, hw, heq⟩
   rw [declared?, lookup_applyLog_of_notMem v hnot]
   cases hrow : declared? v slug with
   | none => exact hrow
   | some row =>
    have hp : p slug = false := by
     by_contra hp
     refine hmem ⟨⟨.declared slug, none⟩, List.mem_map.2 ⟨(slug, row), ?_, rfl⟩, rfl⟩
     exact List.mem_filter.2 ⟨mem_declaredRows.2 hrow, Bool.not_eq_false _ ▸ hp⟩
    rw [Option.filter_some, hp]
    exact hrow

theorem lookup_step {a : Activation} {step : ActivationStep} {clock : ℕ} {v : Db}
  {writes : List PluginWrite} (h : stepWrites a step clock v = .ok writes) (k : Key) :
  (applyLog v writes).lookup k = stepRow a step clock k (v.lookup k) := by
 cases step with
 | deleteGrants slugs =>
  cases h
  cases k with
  | grant key =>
   exact (lookup_deleteGrants _ v key).trans (filter_not_const _ _)
  | plugin | declared _ | unit _ | permission _ | home _ =>
   exact lookup_applyLog_of_notMem v (deleteGrants_key (by simp))
 | moveScope slug scopeType =>
  cases h
  cases k with
  | grant key =>
   exact (lookup_deleteGrants _ v key).trans (filter_not_const _ _)
  | plugin | declared _ | unit _ | permission _ | home _ =>
   exact lookup_applyLog_of_notMem v (deleteGrants_key (by simp))
 | deletePermissions slugs =>
  cases h
  cases k with
  | declared slug =>
   exact (lookup_deletePermissions _ v slug).trans (filter_not_const _ _)
  | plugin | grant _ | unit _ | permission _ | home _ =>
   refine lookup_applyLog_of_notMem v fun w hw heq => ?_
   obtain ⟨entry, -, rfl⟩ := List.mem_map.1 hw
   cases heq
 | createPermission slug =>
  simp only [stepWrites] at h
  split at h
  swap
  · cases h
  cases h
  exact lookup_insertion (by simp [stepRow]) fun k hne => by
   cases k with
   | declared slug' => exact if_neg fun heq => hne (congrArg Key.declared heq)
   | plugin | grant _ | unit _ | permission _ | home _ => rfl
 | reStamp slug =>
  simp only [stepWrites] at h
  split at h
  swap
  · cases h
  rename_i row hrow
  cases h
  exact lookup_insertion (by
   rw [grant?] at hrow
   simp [stepRow, hrow]) fun k hne => by
   cases k with
   | grant key => exact if_neg fun heq => hne (congrArg Key.grant heq)
   | plugin | declared _ | unit _ | permission _ | home _ => rfl
 | seed check =>
  simp only [stepWrites] at h
  split at h
  swap
  · cases h
  cases h
  exact lookup_insertion (by simp [stepRow]) fun k hne => by
   cases k with
   | grant key => exact if_neg fun heq => hne (congrArg Key.grant heq)
   | plugin | declared _ | unit _ | permission _ | home _ => rfl

end Steps

section Suspension

structure SuspensionCandidate where
  unit : UnitRef
  before : UnitRow
  after : UnitRow
  outstanding : List Text
deriving DecidableEq

def servingUnits (axis : PluginConsentScope) (v : Db) : List (UnitRef × UnitRow) :=
  (unitRows v).filter fun entry => entry.1.consentScope == axis && !entry.2.suspendedForConsent

def grantedTo (axis : PluginConsentScope) (units : List (UnitRef × UnitRow)) (slugs : List Text)
    (v : Db) : List (GrantKey × PluginGrant) :=
  (grantRows v).filter fun entry => entry.1.scopeType == grantScopeOf axis &&
    (units.map (·.1.scopeId)).contains entry.1.scopeId && entry.2.status == .granted &&
    slugs.contains entry.1.permissionSlug

def suspend (initiatedAt : ℕ) (row : UnitRow) : UnitRow :=
  { row with suspendedForConsent := true, suspendedAt := some initiatedAt }

def outstandingOf (granted : List (GrantKey × PluginGrant)) (reconsentSlugs : List Text)
    (currentRisk : List (Text × RiskLevel)) (unit : UnitRef) : List Text :=
  let decided := granted.map fun entry =>
    ((entry.1.scopeId, entry.1.permissionSlug), entry.2.decidedRiskLevel)
  reconsentSlugs.filter fun slug =>
    match mapGet decided (unit.scopeId, slug) with
    | none => true
    | some decidedRiskLevel => !riskCovers decidedRiskLevel ((mapGet currentRisk slug).getD .low)

def suspensionCandidates (units : List (UnitRef × UnitRow)) (initiatedAt : ℕ)
    (granted : List (GrantKey × PluginGrant)) (reconsentSlugs : List Text)
    (currentRisk : List (Text × RiskLevel)) : List SuspensionCandidate :=
  units.filterMap fun entry =>
    let outstanding := outstandingOf granted reconsentSlugs currentRisk entry.1
    if outstanding = [] then none
    else some ⟨entry.1, entry.2, suspend initiatedAt entry.2, outstanding⟩

def reconsentSlugs (comparison : UpdateEscalationComparison) : PluginConsentScope → List Text
  | .server => []
  | .household => comparison.householdReconsentSlugs
  | .user => comparison.userReconsentSlugs

def suspensions (a : Activation) (axis : PluginConsentScope) (v : Db) : List SuspensionCandidate :=
  suspensionCandidates (servingUnits axis v) a.initiatedAt
    (grantedTo axis (servingUnits axis v) (reconsentSlugs a.comparison axis) v)
    (reconsentSlugs a.comparison axis) (currentRiskBySlug a.next a.corePermissions)

/-- `outstandingUnitSlugs` over the rows its two reads return. -/
def outstandingSlugs (granted : List (GrantKey × PluginGrant)) (corePermissions : List (Text × Permission))
    (unitChecks : List NormalizedPermissionRequest) : List Text :=
  let decidedBySlug := granted.map fun entry => (entry.1.permissionSlug, entry.2.decidedRiskLevel)
  let outstanding (check : NormalizedPermissionRequest) : Bool :=
    match mapGet decidedBySlug check.canonicalSlug with
    | none => check.required
    | some decidedRiskLevel =>
      match check.origin with
      | .plugin => !riskCovers decidedRiskLevel .low
      | .core =>
        match mapGet corePermissions check.canonicalSlug with
        | none => check.required
        | some permission => !riskCovers decidedRiskLevel permission.riskLevel
  (unitChecks.filter outstanding).map (·.canonicalSlug)

def grantedOn (unit : UnitRef) (unitChecks : List NormalizedPermissionRequest) (v : Db) :
    List (GrantKey × PluginGrant) :=
  (grantRows v).filter fun entry => entry.1.scopeType == unit.scope && entry.1.scopeId == unit.scopeId &&
    entry.2.status == .granted && (unitChecks.map (·.canonicalSlug)).contains entry.1.permissionSlug

def coreSlugs (unitChecks : List NormalizedPermissionRequest) : List Text :=
  (unitChecks.filter (·.origin == .core)).map (·.canonicalSlug)

def unitChecks (validated : PluginManifestValidationResult) (unit : UnitRef) :
    List NormalizedPermissionRequest :=
  validated.permissionChecks.filter (·.consentScope == unit.consentScope)

def outstandingUnitSlugs (v : Db) (unit : UnitRef) (checks : List NormalizedPermissionRequest) :
    List Text :=
  outstandingSlugs (grantedOn unit checks v) (corePermissionsAt v (coreSlugs checks)) checks

end Suspension

end BoardGamesEmpire.PluginActivation
