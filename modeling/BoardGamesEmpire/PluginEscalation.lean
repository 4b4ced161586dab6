import BoardGamesEmpire.PluginStore

set_option autoImplicit false

/-!
# What an update asks for again

`compareForEscalations`, the two slug diffs and the consent gates of the update
service. All of it is computed from a pair of validated manifests, the decision
rows and today's catalog.
-/
namespace BoardGamesEmpire.PluginEscalation
open JsText Manifest PluginStore

inductive UpdateEscalation where
  | newPermission (slug : Text) (consentScope : PluginConsentScope) (required : Bool)
  | permissionPromotedToRequired (slug : Text) (consentScope : PluginConsentScope)
  | riskEscalated (slug : Text) (scopeType : PluginGrantScope)
      (decidedRiskLevel currentRiskLevel : RiskLevel)
  | outboundDomainAdded (domain : Text)
  | outboundDomainsConfigured
  | consentScopeChanged (slug : Text) (source target : PluginConsentScope) (required : Bool)
  | writesCoreAdded (model : Text)
deriving DecidableEq

structure ComparisonCheck where
  canonicalSlug : Text
  consentScope : PluginConsentScope
  required : Bool
deriving DecidableEq

structure ManifestComparisonView where
  outboundDomains : OutboundDomains
  writesCore : List Text
  checks : List ComparisonCheck
deriving DecidableEq

structure GrantComparisonView where
  permissionSlug : Text
  scopeType : PluginGrantScope
  status : PluginGrantStatus
  decidedRiskLevel : RiskLevel
deriving DecidableEq

structure UpdateEscalationComparison where
  escalations : List UpdateEscalation
  serverGating : Bool
  blockedByDenial : List Text
  householdReconsentSlugs : List Text
  serverRiskEscalatedSlugs : List Text
  userReconsentSlugs : List Text
deriving DecidableEq

section Comparator

def previousCheck (active : ManifestComparisonView) (slug : Text) : Option ComparisonCheck :=
  mapGet (active.checks.map fun check => (check.canonicalSlug, check)) slug

def scopeChanged (active : ManifestComparisonView) (check : ComparisonCheck) : Bool :=
  match previousCheck active check.canonicalSlug with
  | none => false
  | some previous => check.consentScope != previous.consentScope

def checkEscalation (active : ManifestComparisonView) (check : ComparisonCheck) :
    Option UpdateEscalation :=
  match previousCheck active check.canonicalSlug with
  | none => some (.newPermission check.canonicalSlug check.consentScope check.required)
  | some previous =>
    if check.consentScope ≠ previous.consentScope then
      some (.consentScopeChanged check.canonicalSlug previous.consentScope check.consentScope
        check.required)
    else if check.required && !previous.required then
      some (.permissionPromotedToRequired check.canonicalSlug check.consentScope)
    else none

def riskEscalation (active next : ManifestComparisonView)
    (currentRiskBySlug : List (Text × RiskLevel)) (grant : GrantComparisonView) :
    Option UpdateEscalation :=
  let scopeChangedSlugs := (next.checks.filter (scopeChanged active)).map (·.canonicalSlug)
  if !(next.checks.map (·.canonicalSlug)).contains grant.permissionSlug then none
  else if scopeChangedSlugs.contains grant.permissionSlug then none
  else if grant.status ≠ .granted then none
  else
    match mapGet currentRiskBySlug grant.permissionSlug with
    | none => none
    | some currentRiskLevel =>
      if riskCovers grant.decidedRiskLevel currentRiskLevel then none
      else some (.riskEscalated grant.permissionSlug grant.scopeType grant.decidedRiskLevel
        currentRiskLevel)

theorem riskEscalation_some {active next : ManifestComparisonView}
  {currentRiskBySlug : List (Text × RiskLevel)} {grant : GrantComparisonView}
  {escalation : UpdateEscalation} :
  riskEscalation active next currentRiskBySlug grant = some escalation ↔
   (∃ check ∈ next.checks, check.canonicalSlug = grant.permissionSlug) ∧
   (∀ check ∈ next.checks, check.canonicalSlug = grant.permissionSlug →
    scopeChanged active check = false) ∧
   grant.status = .granted ∧
   ∃ currentRiskLevel, mapGet currentRiskBySlug grant.permissionSlug = some currentRiskLevel ∧
    riskCovers grant.decidedRiskLevel currentRiskLevel = false ∧
    escalation = .riskEscalated grant.permissionSlug grant.scopeType grant.decidedRiskLevel
     currentRiskLevel := by
 have hmember : (!(next.checks.map (·.canonicalSlug)).contains grant.permissionSlug) = true ↔
   ¬ ∃ check ∈ next.checks, check.canonicalSlug = grant.permissionSlug := by
  simp
 have hmoved : ((next.checks.filter (scopeChanged active)).map (·.canonicalSlug)).contains
   grant.permissionSlug = true ↔ ¬ ∀ check ∈ next.checks,
    check.canonicalSlug = grant.permissionSlug → scopeChanged active check = false := by
  simp only [List.contains_iff_mem, List.mem_map, List.mem_filter, not_forall, Bool.not_eq_false]
  exact ⟨fun ⟨check, ⟨hmem, hchanged⟩, hslug⟩ => ⟨check, hmem, hslug, hchanged⟩,
   fun ⟨check, hmem, hslug, hchanged⟩ => ⟨check, ⟨hmem, hchanged⟩, hslug⟩⟩
 simp only [riskEscalation, hmember, hmoved]
 by_cases hnext : ∃ check ∈ next.checks, check.canonicalSlug = grant.permissionSlug
 swap
 · simp only [hnext, not_false_eq_true, if_true, reduceCtorEq, false_and]
 by_cases hscope : ∀ check ∈ next.checks, check.canonicalSlug = grant.permissionSlug →
   scopeChanged active check = false
 swap
 · rw [if_neg (not_not.2 hnext), if_pos hscope]
   exact ⟨nofun, fun h => absurd h.2.1 hscope⟩
 rw [if_neg (not_not.2 hnext), if_neg (not_not.2 hscope), and_iff_right hnext, and_iff_right hscope]
 by_cases hstatus : grant.status = .granted
 swap
 · rw [if_pos hstatus]
   exact ⟨nofun, fun h => absurd h.1 hstatus⟩
 rw [if_neg (not_not.2 hstatus), and_iff_right hstatus]
 cases hrisk : mapGet currentRiskBySlug grant.permissionSlug with
 | none => simp
 | some currentRiskLevel =>
  cases hcovers : riskCovers grant.decidedRiskLevel currentRiskLevel with
  | true => simp [hcovers]
  | false =>
   simp only [hcovers, Bool.false_eq_true, if_false, Option.some.injEq, exists_eq_left', true_and]
   exact eq_comm

def compareOutboundDomains : OutboundDomains → OutboundDomains → List UpdateEscalation
  | .configured, .configured => []
  | .listed _, .configured => [.outboundDomainsConfigured]
  | .configured, .listed _ => []
  | .listed known, .listed domains =>
    (domains.filter fun domain => !known.contains domain).map .outboundDomainAdded

def isServerGating : UpdateEscalation → Bool
  | .newPermission _ consentScope _ => consentScope == .server
  | .consentScopeChanged _ _ target _ => target == .server
  | .riskEscalated _ scopeType _ _ => scopeType == .server
  | .outboundDomainAdded _ | .outboundDomainsConfigured | .writesCoreAdded _ => true
  | .permissionPromotedToRequired _ _ => false

def reconsentSlug (axis : PluginConsentScope) : UpdateEscalation → Option Text
  | .newPermission slug consentScope required =>
    if consentScope = axis ∧ required = true then some slug else none
  | .permissionPromotedToRequired slug consentScope => if consentScope = axis then some slug else none
  | .consentScopeChanged slug _ target required =>
    if target = axis ∧ required = true then some slug else none
  | .riskEscalated slug scopeType _ _ => if scopeType = grantScopeOf axis then some slug else none
  | .outboundDomainAdded _ | .outboundDomainsConfigured | .writesCoreAdded _ => none

def serverRiskEscalatedSlug : UpdateEscalation → Option Text
  | .riskEscalated slug .server _ _ => some slug
  | _ => none

def compareForEscalations (active next : ManifestComparisonView) (grants : List GrantComparisonView)
    (currentRiskBySlug : List (Text × RiskLevel)) : UpdateEscalationComparison :=
  let escalations := next.checks.filterMap (checkEscalation active) ++
    grants.filterMap (riskEscalation active next currentRiskBySlug) ++
    compareOutboundDomains active.outboundDomains next.outboundDomains ++
    (next.writesCore.filter fun model => !active.writesCore.contains model).map .writesCoreAdded
  let deniedServerSlugs := (grants.filter fun grant =>
    grant.scopeType == .server && grant.status == .denied).map (·.permissionSlug)
  { escalations
    serverGating := escalations.any isServerGating
    blockedByDenial := (next.checks.filter fun check => check.consentScope == .server &&
      check.required && deniedServerSlugs.contains check.canonicalSlug).map (·.canonicalSlug)
    householdReconsentSlugs := escalations.filterMap (reconsentSlug .household)
    serverRiskEscalatedSlugs := escalations.filterMap serverRiskEscalatedSlug
    userReconsentSlugs := escalations.filterMap (reconsentSlug .user) }

end Comparator

section Service

def comparisonView (validated : PluginManifestValidationResult) : ManifestComparisonView :=
  ⟨validated.manifest.outboundDomains, validated.manifest.writesCore,
    validated.permissionChecks.map fun check =>
      ⟨check.canonicalSlug, check.consentScope, check.required⟩⟩

def grantView (entry : GrantKey × PluginGrant) : GrantComparisonView :=
  ⟨entry.1.permissionSlug, entry.1.scopeType, entry.2.status, entry.2.decidedRiskLevel⟩

def checkRisk (corePermissions : List (Text × Permission)) (check : NormalizedPermissionRequest) :
    RiskLevel :=
  match check.origin with
  | .plugin => .low
  | .core => ((mapGet corePermissions check.canonicalSlug).map (·.riskLevel)).getD .low

def currentRiskBySlug (next : PluginManifestValidationResult)
    (corePermissions : List (Text × Permission)) : List (Text × RiskLevel) :=
  next.permissionChecks.map fun check => (check.canonicalSlug, checkRisk corePermissions check)

def compare (active next : PluginManifestValidationResult) (corePermissions : List (Text × Permission))
    (grants : List (GrantKey × PluginGrant)) : UpdateEscalationComparison :=
  compareForEscalations (comparisonView active) (comparisonView next) (grants.map grantView)
    (currentRiskBySlug next corePermissions)

structure PluginUpdateDeclaresDiff where
  added : List Text
  removed : List Text
deriving DecidableEq

def declaredSlugs (validated : PluginManifestValidationResult) : List Text :=
  (validated.declaredPermissions.map (·.canonicalSlug)).eraseDups

def declaredSlugDiff (active next : PluginManifestValidationResult) : PluginUpdateDeclaresDiff :=
  ⟨(declaredSlugs next).filter fun slug => !(declaredSlugs active).contains slug,
    (declaredSlugs active).filter fun slug => !(declaredSlugs next).contains slug⟩

def requestedSlugsDropped (active next : PluginManifestValidationResult) (removedDeclares : List Text) :
    List Text :=
  ((active.permissionChecks.map (·.canonicalSlug)).filter fun slug =>
    !(next.permissionChecks.map (·.canonicalSlug)).contains slug &&
      !removedDeclares.contains slug).eraseDups

variable {slug : Text}

theorem mem_declaredSlugs {validated : PluginManifestValidationResult} :
  slug ∈ declaredSlugs validated ↔
   ∃ declared ∈ validated.declaredPermissions, declared.canonicalSlug = slug := by
 simp [declaredSlugs]

theorem mem_requestedSlugsDropped {active next : PluginManifestValidationResult}
  {removed : List Text} : slug ∈ requestedSlugsDropped active next removed ↔
   (∃ check ∈ active.permissionChecks, check.canonicalSlug = slug) ∧
   (∀ check ∈ next.permissionChecks, check.canonicalSlug ≠ slug) ∧ slug ∉ removed := by
 simp [requestedSlugsDropped]

theorem requested_notRemoved {active next : PluginManifestValidationResult}
  (hactive : Validated active) (hnext : Validated next) {check : NormalizedPermissionRequest}
  (hcheck : check ∈ next.permissionChecks) :
  check.canonicalSlug ∉ (declaredSlugDiff active next).removed := by
 simp only [declaredSlugDiff, List.mem_filter, mem_declaredSlugs, hactive.declared, hnext.declared,
  Bool.not_eq_true', ← Bool.not_eq_true, List.contains_iff_mem]
 rintro ⟨⟨declared, hdeclared, hold⟩, hnot⟩
 rcases check_declared (hnext.checks ▸ hcheck) with ⟨-, kept, hkept, heq⟩ | ⟨-, hbar⟩
 · exact hnot ⟨kept, hkept, heq⟩
 · rw [← hold] at hbar
   exact hbar (declared_bar hdeclared)

def movedScope : UpdateEscalation → Option (Text × PluginGrantScope)
  | .consentScopeChanged slug source _ _ => some (slug, grantScopeOf source)
  | _ => none

def scopeMoves (comparison : UpdateEscalationComparison) : List (Text × PluginGrantScope) :=
  comparison.escalations.filterMap movedScope

theorem previousCheck_iff {active : PluginManifestValidationResult} (hactive : Validated active)
  {previous : ComparisonCheck} :
  previousCheck (comparisonView active) slug = some previous ↔
   ∃ check ∈ active.permissionChecks, check.canonicalSlug = slug ∧
    previous = ⟨slug, check.consentScope, check.required⟩ := by
 rw [previousCheck, mapGet_iff]
 · simp only [comparisonView, List.map_map, List.mem_map, Function.comp_apply, Prod.mk.injEq]
   constructor
   · rintro ⟨check, hcheck, rfl, rfl⟩
     exact ⟨check, hcheck, rfl, rfl⟩
   · rintro ⟨check, hcheck, rfl, rfl⟩
     exact ⟨check, hcheck, rfl, rfl⟩
 · intro k v v' hv hv'
   simp only [comparisonView, List.map_map, List.mem_map, Function.comp_apply, Prod.mk.injEq] at hv hv'
   obtain ⟨check, hcheck, rfl, rfl⟩ := hv
   obtain ⟨check', hcheck', hslug, rfl⟩ := hv'
   rw [hactive.check_eq hcheck' hcheck hslug]

theorem escalations_filterMap {β : Type} (active next : PluginManifestValidationResult)
  (corePermissions : List (Text × Permission)) (grants : List (GrantKey × PluginGrant))
  {f : UpdateEscalation → Option β} (hdomain : ∀ domain, f (.outboundDomainAdded domain) = none)
  (hconfigured : f .outboundDomainsConfigured = none)
  (hmodel : ∀ model, f (.writesCoreAdded model) = none) :
  (compare active next corePermissions grants).escalations.filterMap f =
   ((comparisonView next).checks.filterMap fun check =>
    (checkEscalation (comparisonView active) check).bind f) ++
   grants.filterMap fun entry => (riskEscalation (comparisonView active) (comparisonView next)
    (currentRiskBySlug next corePermissions) (grantView entry)).bind f := by
 have hdomains : (compareOutboundDomains (comparisonView active).outboundDomains
   (comparisonView next).outboundDomains).filterMap f = [] := by
  rw [List.filterMap_eq_nil_iff]
  intro escalation hmem
  unfold compareOutboundDomains at hmem
  split at hmem
  · simp at hmem
  · rw [List.mem_singleton.1 hmem]
    exact hconfigured
  · simp at hmem
  · obtain ⟨domain, -, rfl⟩ := List.mem_map.1 hmem
    exact hdomain domain
 unfold compare compareForEscalations
 simp only [List.filterMap_append, List.filterMap_filterMap, hdomains, List.filterMap_map,
  Function.comp_def, hmodel, List.append_nil]
 simp

theorem scopeMoves_compare (active next : PluginManifestValidationResult)
  (corePermissions : List (Text × Permission)) (grants : List (GrantKey × PluginGrant)) :
  scopeMoves (compare active next corePermissions grants) =
   (comparisonView next).checks.filterMap fun check =>
    (checkEscalation (comparisonView active) check).bind movedScope := by
 have hrisk : ∀ grant : GrantComparisonView, (riskEscalation (comparisonView active)
   (comparisonView next) (currentRiskBySlug next corePermissions) grant).bind movedScope = none := by
  intro grant
  cases hrisk : riskEscalation (comparisonView active) (comparisonView next)
    (currentRiskBySlug next corePermissions) grant with
  | none => rfl
  | some escalation =>
   obtain ⟨-, -, -, current, -, -, rfl⟩ := riskEscalation_some.1 hrisk
   rfl
 rw [scopeMoves, escalations_filterMap active next corePermissions grants (fun _ => rfl) rfl fun _ => rfl]
 simp [hrisk]

theorem mem_scopeMoves {active next : PluginManifestValidationResult}
  {corePermissions : List (Text × Permission)} {grants : List (GrantKey × PluginGrant)}
  {scopeType : PluginGrantScope} :
  (slug, scopeType) ∈ scopeMoves (compare active next corePermissions grants) ↔
   ∃ check ∈ (comparisonView next).checks, check.canonicalSlug = slug ∧
    ∃ previous, previousCheck (comparisonView active) slug = some previous ∧
     check.consentScope ≠ previous.consentScope ∧ grantScopeOf previous.consentScope = scopeType := by
 rw [scopeMoves_compare, List.mem_filterMap]
 have hmoved : ∀ check : ComparisonCheck,
   (checkEscalation (comparisonView active) check).bind movedScope = some (slug, scopeType) ↔
    check.canonicalSlug = slug ∧ ∃ previous,
     previousCheck (comparisonView active) slug = some previous ∧
     check.consentScope ≠ previous.consentScope ∧ grantScopeOf previous.consentScope = scopeType := by
  intro check
  unfold checkEscalation
  cases hprevious : previousCheck (comparisonView active) check.canonicalSlug with
  | none =>
   refine iff_of_false (by simp [movedScope]) ?_
   rintro ⟨rfl, previous, hsome, -⟩
   rw [hprevious] at hsome
   cases hsome
  | some previous =>
   by_cases hscope : check.consentScope = previous.consentScope
   · have hnot : (if check.required && !previous.required then
       some (UpdateEscalation.permissionPromotedToRequired check.canonicalSlug check.consentScope)
       else none).bind movedScope ≠ some (slug, scopeType) := by
      split_ifs <;> simp [movedScope]
     refine iff_of_false (by simpa only [hscope, ne_eq, not_true_eq_false, if_false] using hnot) ?_
     rintro ⟨rfl, other, hsome, hne, -⟩
     rw [hprevious] at hsome
     exact hne (Option.some.inj hsome ▸ hscope)
   · simp only [ne_eq, hscope, not_false_eq_true, if_true, Option.bind_some, movedScope,
      Option.some.injEq, Prod.mk.injEq]
     constructor
     · rintro ⟨rfl, rfl⟩
       exact ⟨rfl, previous, hprevious, hscope, rfl⟩
     · rintro ⟨rfl, other, hsome, -, hfrom⟩
       rw [hprevious] at hsome
       exact ⟨rfl, Option.some.inj hsome ▸ hfrom⟩
 exact exists_congr fun check => and_congr_right fun _ => hmoved check

end Service

section Gates

/-- `PLUGIN_ADMIN_PERMISSION_SLUG_PATTERN`. -/
def isPluginAdministrationSlug (slug : Text) : Bool :=
  slug == "manage:plugin".toList || "manage:plugin:".toList.isPrefixOf slug

structure ForbiddenPermissionViolation where
  permissionSlug : Text
  detail : Text
deriving DecidableEq

def collectForbiddenPermissionViolations (validated : PluginManifestValidationResult) :
    List ForbiddenPermissionViolation :=
  ((validated.permissionChecks.filter fun check =>
      check.origin == .core && isPluginAdministrationSlug check.canonicalSlug).map fun check =>
    ⟨check.canonicalSlug,
      "is plugin-administration authority — granted to a plugin it is a self-escalation loop".toList⟩) ++
  validated.declaredPermissions.flatMap fun declared =>
    match parsePluginPermissionSlug declared.canonicalSlug with
    | none => []
    | some parsed =>
      (if isPluginAdministrationSlug parsed.bareSlug then
        [⟨declared.canonicalSlug, ("mimics the plugin-administration vocabulary — the hard exclusion " ++
          "applies to the bare form").toList⟩] else []) ++
      (if parsed.subjectPath == allSubject || "all:".toList.isPrefixOf parsed.subjectPath then
        [⟨declared.canonicalSlug, ("claims the 'all' subject — a naive CASL mapping would read it as " ++
          "wildcard authority").toList⟩] else [])

def hasWildcardSubject (corePermissions : List (Text × Permission))
    (check : NormalizedPermissionRequest) : Bool :=
  check.origin == .core &&
    ((mapGet corePermissions check.canonicalSlug).map (·.subject)) == some allSubject

def isUnboundedUnitConsent (host : Host) (corePermissions : List (Text × Permission))
    (check : NormalizedPermissionRequest) : Bool :=
  check.origin == .core && grantScopeOf check.consentScope != .server &&
    match mapGet corePermissions check.canonicalSlug with
    | some permission =>
      !host.bindsConsentUnit check.canonicalSlug permission (grantScopeOf check.consentScope)
    | none => false

def criticalConfirmationExpectation (checksToGrant : List NormalizedPermissionRequest)
    (corePermissions : List (Text × Permission)) : List Text :=
  (checksToGrant.filter fun check => check.origin == .core &&
    ((mapGet corePermissions check.canonicalSlug).map (·.riskLevel)) == some .critical).map
      (·.canonicalSlug)

def compareExactReentry (expected received : List Text) : Bool :=
  expected.all received.contains && received.all expected.contains

end Gates

end BoardGamesEmpire.PluginEscalation
