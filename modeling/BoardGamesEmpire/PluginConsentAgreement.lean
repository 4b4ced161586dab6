import BoardGamesEmpire.PluginStore

set_option autoImplicit false

/-!
# What the consent screen shows and what the ability confers

`PluginConsentCheckClassifier.classify` and
`PermissionsService.getPluginGrantSnapshot` read the same rows along two
different paths: one check by check, the other decision by decision.
-/
namespace BoardGamesEmpire.PluginConsentAgreement
open JsText Manifest PluginStore

inductive PluginUnit where
  | server
  | household (householdId : Text)
  | user (userId : Text)
deriving DecidableEq

def unitOwnsConsentScope (consentScope : PluginConsentScope) : PluginUnit → Bool
  | .server => consentScope == .server
  | .household _ => consentScope == .household
  | .user _ => consentScope == .user

def unitConsumesConsentScope (consentScope : PluginConsentScope) (unit : PluginUnit) : Bool :=
  consentScope == .server || unitOwnsConsentScope consentScope unit

def grantScopeCoordinatesForUnit : PluginUnit → List (PluginGrantScope × Text)
  | .server => [(.server, serverScopeSentinel)]
  | .household id => [(.server, serverScopeSentinel), (.household, id)]
  | .user id => [(.server, serverScopeSentinel), (.user, id)]

def grantsAt (db : Db) (unit : PluginUnit) : List (GrantKey × PluginGrant) :=
  (grantRows db).filter fun entry =>
    (grantScopeCoordinatesForUnit unit).contains (entry.1.scopeType, entry.1.scopeId)

/-- `pluginPermission.findMany` over a list of slugs. -/
def ownPermissionsAt (db : Db) (slugs : List Text) : List (Text × PluginPermission) :=
  (declaredRows db).filter fun entry => slugs.contains entry.1

def riskEntries (core : List (Text × Permission)) (own : List (Text × PluginPermission)) :
    List (Text × RiskLevel) :=
  core.map (fun entry => (entry.1, entry.2.riskLevel)) ++
    own.map fun entry => (entry.1, entry.2.riskLevel)

def wildcardEntries (core : List (Text × Permission)) : List Text :=
  (core.filter fun entry => entry.2.subject == allSubject).map Prod.fst

section Classifier

inductive ConsentCheckDecision where
  | granted | denied | pending
deriving DecidableEq

structure ClassifiedConsentCheck where
  decision : ConsentCheckDecision
  decidedRiskLevel : Option RiskLevel
  staleRisk : Bool
deriving DecidableEq

structure ConsentCheckClassification where
  decisions : List (Text × ClassifiedConsentCheck)
  currentRiskBySlug : List (Text × RiskLevel)
deriving DecidableEq

structure CatalogState where
  riskBySlug : List (Text × RiskLevel)
  wildcardSlugs : List Text
  corePermissionsBySlug : List (Text × Permission)

def loadCatalogState (db : Db) (checks : List NormalizedPermissionRequest) : CatalogState :=
  let slugsOf origin := (checks.filter (·.origin == origin)).map (·.canonicalSlug)
  let corePermissions := corePermissionsAt db (slugsOf .core)
  ⟨riskEntries corePermissions (ownPermissionsAt db (slugsOf .plugin)),
    wildcardEntries corePermissions, corePermissions⟩

def decide (grant : Option PluginGrant) (currentRiskLevel : Option RiskLevel)
    (wildcardSubject unboundedUnitScope : Bool) : ConsentCheckDecision :=
  match grant with
  | none => .pending
  | some grant =>
    if grant.status = .denied then .denied
    else if wildcardSubject then .pending
    else if unboundedUnitScope then .pending
    else
      match currentRiskLevel with
      | none => .pending
      | some current => if riskCovers grant.decidedRiskLevel current then .granted else .pending

def classifyCheck (host : Host) (grants : List ((PluginGrantScope × Text) × PluginGrant))
    (catalog : CatalogState) (check : NormalizedPermissionRequest) : ClassifiedConsentCheck :=
  let decidingScope := grantScopeOf check.consentScope
  let grant := mapGet grants (decidingScope, check.canonicalSlug)
  let currentRiskLevel := mapGet catalog.riskBySlug check.canonicalSlug
  let wildcardSubject := catalog.wildcardSlugs.contains check.canonicalSlug
  let unboundedUnitScope := check.origin == .core && decidingScope != .server &&
    match mapGet catalog.corePermissionsBySlug check.canonicalSlug with
    | some permission => !host.bindsConsentUnit check.canonicalSlug permission decidingScope
    | none => false
  ⟨decide grant currentRiskLevel wildcardSubject unboundedUnitScope,
    grant.map (·.decidedRiskLevel),
    match grant, currentRiskLevel with
    | some grant, some current => grant.status == .granted && !wildcardSubject &&
        !unboundedUnitScope && !riskCovers grant.decidedRiskLevel current
    | _, _ => false⟩

def classify (host : Host) (db : Db) (unit : PluginUnit)
    (checks : List NormalizedPermissionRequest) : ConsentCheckClassification :=
  if checks = [] then ⟨[], []⟩
  else
    let addressable := checks.filter fun check => unitConsumesConsentScope check.consentScope unit
    let grants := (grantsAt db unit).filter fun entry =>
      (addressable.map (·.canonicalSlug)).contains entry.1.permissionSlug
    let catalog := loadCatalogState db checks
    let byScopeAndSlug := grants.map fun entry =>
      ((entry.1.scopeType, entry.1.permissionSlug), entry.2)
    ⟨addressable.map fun check => (check.canonicalSlug, classifyCheck host byScopeAndSlug catalog check),
      catalog.riskBySlug⟩

end Classifier

section Snapshot

inductive PluginAbilityRenderRejection where
  | foreignNamespaceSlug (permissionSlug : Text)
  | malformedSlug (permissionSlug : Text)
  | invalidStoredManifest (detail : StoredManifestInvalid)
deriving DecidableEq

structure PluginGrantSnapshot where
  unit : PluginUnit
  servable : Bool
  corePermissions : List (Text × Permission)
  ownGrantSlugs : List Text
deriving DecidableEq

/-- `loadPluginUnitEnablement` collapsed to the serving predicate. -/
def isUnitServed (db : Db) : PluginUnit → Bool
  | .server => true
  | .household id =>
    match unit? db (.household id) with
    | none => false
    | some row => row.enabled && !row.suspendedForConsent && row.dormantReason == none
  | .user id =>
    match unit? db (.user id) with
    | none => false
    | some row => row.enabled && !row.suspendedForConsent

/-- The corruption check: a `plugin|` decision outside the plugin's own namespace. -/
def slugRejection (plugin : Plugin) (slug : Text) : Option PluginAbilityRenderRejection :=
  if isPluginPermissionSlug slug then
    match parsePluginPermissionSlug slug with
    | none => some (.malformedSlug slug)
    | some parsed => if parsed.pluginSlug = plugin.slug then none else some (.foreignNamespaceSlug slug)
  else none

def grantsRequestedByActiveManifest (host : Host) (readerRegistered : Bool) (plugin : Plugin)
    (grants : List (GrantKey × PluginGrant)) :
    Except PluginAbilityRenderRejection (List (GrantKey × PluginGrant)) :=
  if !readerRegistered then .ok []
  else
    match revalidateStoredManifest host plugin with
    | .error detail => .error (.invalidStoredManifest detail)
    | .ok validated =>
      let requested := validated.permissionChecks.map fun check =>
        (grantScopeOf check.consentScope, check.canonicalSlug)
      .ok (grants.filter fun entry => requested.contains (entry.1.scopeType, entry.1.permissionSlug))

/-- Whether one decision still describes the permission it was made on. -/
def confers (host : Host) (wildcardSlugs : List Text) (corePermissionsBySlug : List (Text × Permission))
    (currentRiskBySlug : List (Text × RiskLevel)) (entry : GrantKey × PluginGrant) : Bool :=
  let slug := entry.1.permissionSlug
  !wildcardSlugs.contains slug &&
    !(entry.1.scopeType != .server &&
      match mapGet corePermissionsBySlug slug with
      | some permission => !host.bindsConsentUnit slug permission entry.1.scopeType
      | none => false) &&
    match mapGet currentRiskBySlug slug with
    | none => false
    | some currentRisk => riskCovers entry.2.decidedRiskLevel currentRisk

def grantedAt (db : Db) (unit : PluginUnit) : List (GrantKey × PluginGrant) :=
  (grantsAt db unit).filter fun entry => entry.2.status == .granted

def slugsAt (requested : List (GrantKey × PluginGrant)) : List Text :=
  requested.map fun entry => entry.1.permissionSlug

def ownSlugsAt (requested : List (GrantKey × PluginGrant)) : List Text :=
  ((slugsAt requested).filter isPluginPermissionSlug).eraseDups

def coreSlugsAt (requested : List (GrantKey × PluginGrant)) : List Text :=
  (slugsAt requested).filter fun slug => !(ownSlugsAt requested).contains slug

def conferringAt (host : Host) (db : Db) (requested : List (GrantKey × PluginGrant)) : List Text :=
  let corePermissions := corePermissionsAt db (coreSlugsAt requested)
  (requested.filter (confers host (wildcardEntries corePermissions) corePermissions
    (riskEntries corePermissions (ownPermissionsAt db (ownSlugsAt requested))))).map
      fun entry => entry.1.permissionSlug

def getPluginGrantSnapshot (host : Host) (readerRegistered : Bool) (db : Db) (unit : PluginUnit) :
    Except PluginAbilityRenderRejection (Option PluginGrantSnapshot) :=
  match plugin? db with
  | none => .ok none
  | some plugin =>
    if !(plugin.enabled && plugin.uninstalledAt == none && isUnitServed db unit) then
      .ok (some ⟨unit, false, [], []⟩)
    else if grantedAt db unit = [] then .ok (some ⟨unit, true, [], []⟩)
    else
      match (grantedAt db unit).findSome? fun entry => slugRejection plugin entry.1.permissionSlug with
      | some rejection => .error rejection
      | none => do
        let requestedGrants ←
          grantsRequestedByActiveManifest host readerRegistered plugin (grantedAt db unit)
        let corePermissions := corePermissionsAt db (coreSlugsAt requestedGrants)
        let conferringSlugs := conferringAt host db requestedGrants
        return some ⟨unit, true, corePermissions.filter fun entry => conferringSlugs.contains entry.1,
          (ownSlugsAt requestedGrants).filter conferringSlugs.contains⟩

end Snapshot

/-- The slugs a snapshot lets the plugin use; a rejected ability has none. -/
def conferred : Except PluginAbilityRenderRejection (Option PluginGrantSnapshot) → List Text
  | .ok (some snapshot) => snapshot.corePermissions.map Prod.fst ++ snapshot.ownGrantSlugs
  | _ => []

/-- The screen reports a consumed check granted exactly when the ability
    confers it, and the ability confers nothing else. -/
structure Agrees (host : Host) (readerRegistered : Bool) (db : Db) (unit : PluginUnit)
    (checks : List NormalizedPermissionRequest) : Prop where
  granted_iff : ∀ check ∈ checks, unitConsumesConsentScope check.consentScope unit = true →
    ((mapGet (classify host db unit checks).decisions check.canonicalSlug).map (·.decision) =
        some .granted ↔
      check.canonicalSlug ∈ conferred (getPluginGrantSnapshot host readerRegistered db unit))
  only : ∀ slug ∈ conferred (getPluginGrantSnapshot host readerRegistered db unit),
    ∃ check ∈ checks, unitConsumesConsentScope check.consentScope unit = true ∧
      check.canonicalSlug = slug

section Catalog

variable {db : Db} {slugs own : List Text} {slug : Text}

theorem riskEntries_fun {k : Text} {v v' : RiskLevel} (hdisjoint : ∀ s ∈ slugs, s ∉ own)
  (h : (k, v) ∈ riskEntries (corePermissionsAt db slugs) (ownPermissionsAt db own))
  (h' : (k, v') ∈ riskEntries (corePermissionsAt db slugs) (ownPermissionsAt db own)) : v = v' := by
 have hcases : ∀ r, (k, r) ∈ riskEntries (corePermissionsAt db slugs) (ownPermissionsAt db own) →
   (k ∈ slugs ∧ (permission? db k).map (·.riskLevel) = some r) ∨
   (k ∈ own ∧ (declared? db k).map (·.riskLevel) = some r) := by
  intro r hr
  simp only [riskEntries, List.mem_append, List.mem_map, Prod.mk.injEq] at hr
  rcases hr with ⟨⟨s, p⟩, hp, rfl, rfl⟩ | ⟨⟨s, p⟩, hp, rfl, rfl⟩
  · simp only [corePermissionsAt, List.mem_filter, mem_permissionRows, List.contains_iff_mem] at hp
    exact .inl ⟨hp.2, by simp [hp.1]⟩
  · simp only [ownPermissionsAt, List.mem_filter, mem_declaredRows, List.contains_iff_mem] at hp
    exact .inr ⟨hp.2, by simp [hp.1]⟩
 rcases hcases v h with ⟨hk, hv⟩ | ⟨hk, hv⟩ <;> rcases hcases v' h' with ⟨hk', hv'⟩ | ⟨hk', hv'⟩
 · exact Option.some.inj (hv.symm.trans hv')
 · exact absurd hk' (hdisjoint k hk)
 · exact absurd hk (hdisjoint k hk')
 · exact Option.some.inj (hv.symm.trans hv')

theorem riskEntries_core (hdisjoint : ∀ s ∈ slugs, s ∉ own) (h : slug ∈ slugs) :
  mapGet (riskEntries (corePermissionsAt db slugs) (ownPermissionsAt db own)) slug =
   (permission? db slug).map (·.riskLevel) := by
 ext risk
 rw [mapGet_iff fun k v v' => riskEntries_fun hdisjoint]
 have hnot := hdisjoint slug h
 simp [riskEntries, corePermissionsAt, ownPermissionsAt, mem_permissionRows, h, hnot]

theorem riskEntries_own (hdisjoint : ∀ s ∈ slugs, s ∉ own) (h : slug ∈ own) :
  mapGet (riskEntries (corePermissionsAt db slugs) (ownPermissionsAt db own)) slug =
   (declared? db slug).map (·.riskLevel) := by
 ext risk
 rw [mapGet_iff fun k v v' => riskEntries_fun hdisjoint]
 have hnot : slug ∉ slugs := fun hs => hdisjoint slug hs h
 simp [riskEntries, corePermissionsAt, ownPermissionsAt, mem_declaredRows, h, hnot]

theorem mem_wildcardEntries (db : Db) (h : slug ∈ slugs) :
  slug ∈ wildcardEntries (corePermissionsAt db slugs) ↔
   ∃ row, permission? db slug = some row ∧ row.subject = allSubject := by
 simp [wildcardEntries, corePermissionsAt, mem_permissionRows, h]

theorem notMem_wildcardEntries (db : Db) (h : slug ∉ slugs) :
  slug ∉ wildcardEntries (corePermissionsAt db slugs) := by
 simp [wildcardEntries, corePermissionsAt, h]

end Catalog

/-- The one question both readings answer: does the decision on this row, at
    this scope, still describe the permission? -/
def StillDescribes (host : Host) (db : Db) (check : NormalizedPermissionRequest)
    (row : PluginGrant) : Prop :=
  row.status = .granted ∧
  match check.origin with
  | .core => ∃ permission, permission? db check.canonicalSlug = some permission ∧
      permission.subject ≠ allSubject ∧
      (grantScopeOf check.consentScope = .server ∨
        host.bindsConsentUnit check.canonicalSlug permission (grantScopeOf check.consentScope) = true) ∧
      riskCovers row.decidedRiskLevel permission.riskLevel = true
  | .plugin => ∃ permission, declared? db check.canonicalSlug = some permission ∧
      riskCovers row.decidedRiskLevel permission.riskLevel = true

def DecidedBy (db : Db) (unit : PluginUnit) (check : NormalizedPermissionRequest)
    (row : PluginGrant) : Prop :=
  ∃ scopeId, (grantScopeOf check.consentScope, scopeId) ∈ grantScopeCoordinatesForUnit unit ∧
    grant? db ⟨grantScopeOf check.consentScope, scopeId, check.canonicalSlug⟩ = some row

theorem coordinates_unique {unit : PluginUnit} {scope : PluginGrantScope} {a b : Text}
  (ha : (scope, a) ∈ grantScopeCoordinatesForUnit unit)
  (hb : (scope, b) ∈ grantScopeCoordinatesForUnit unit) : a = b := by
 cases unit <;> simp_all [grantScopeCoordinatesForUnit] <;> grind

theorem mem_grantsAt {db : Db} {unit : PluginUnit} {key : GrantKey} {row : PluginGrant} :
  (key, row) ∈ grantsAt db unit ↔ grant? db key = some row ∧
   (key.scopeType, key.scopeId) ∈ grantScopeCoordinatesForUnit unit := by
 simp [grantsAt, mem_grantRows]

theorem consumed_iff {unit : PluginUnit} {scope : PluginConsentScope} :
  unitConsumesConsentScope scope unit = true ↔
   ∃ scopeId, (grantScopeOf scope, scopeId) ∈ grantScopeCoordinatesForUnit unit := by
 cases unit <;> cases scope <;>
  simp [unitConsumesConsentScope, unitOwnsConsentScope, grantScopeCoordinatesForUnit, grantScopeOf]

section Classified

variable {host : Host} {db : Db} {unit : PluginUnit} {m : PluginManifest}
  {check : NormalizedPermissionRequest}

def addressedGrants (db : Db) (unit : PluginUnit) (checks : List NormalizedPermissionRequest) :
    List ((PluginGrantScope × Text) × PluginGrant) :=
  ((grantsAt db unit).filter fun entry =>
    ((checks.filter fun check => unitConsumesConsentScope check.consentScope unit).map
      (·.canonicalSlug)).contains entry.1.permissionSlug).map fun entry =>
        ((entry.1.scopeType, entry.1.permissionSlug), entry.2)

theorem mem_addressedGrants {checks : List NormalizedPermissionRequest} (hcheck : check ∈ checks)
  (hconsumed : unitConsumesConsentScope check.consentScope unit = true) {row : PluginGrant} :
  ((grantScopeOf check.consentScope, check.canonicalSlug), row) ∈ addressedGrants db unit checks ↔
   DecidedBy db unit check row := by
 simp only [addressedGrants, List.mem_map, List.mem_filter, Prod.exists, mem_grantsAt,
  List.contains_iff_mem, Prod.mk.injEq]
 constructor
 · rintro ⟨⟨scope, scopeId, slug⟩, row', ⟨⟨hrow, hcoord⟩, -⟩, ⟨rfl, rfl⟩, rfl⟩
   exact ⟨scopeId, hcoord, hrow⟩
 · rintro ⟨scopeId, hcoord, hrow⟩
   exact ⟨_, row, ⟨⟨hrow, hcoord⟩, ⟨check, ⟨hcheck, hconsumed⟩, rfl⟩⟩, ⟨rfl, rfl⟩, rfl⟩

theorem addressedGrants_get {checks : List NormalizedPermissionRequest} (hcheck : check ∈ checks)
  (hconsumed : unitConsumesConsentScope check.consentScope unit = true) {row : PluginGrant} :
  mapGet (addressedGrants db unit checks) (grantScopeOf check.consentScope, check.canonicalSlug) =
   some row ↔ DecidedBy db unit check row := by
 rw [mapGet_iff, mem_addressedGrants hcheck hconsumed]
 rintro ⟨scope, slug⟩ v v' hv hv'
 simp only [addressedGrants, List.mem_map, List.mem_filter, Prod.exists, mem_grantsAt,
  Prod.mk.injEq] at hv hv'
 obtain ⟨⟨_, id, _⟩, _, ⟨⟨hrow, hcoord⟩, -⟩, ⟨rfl, rfl⟩, rfl⟩ := hv
 obtain ⟨⟨_, id', _⟩, _, ⟨⟨hrow', hcoord'⟩, -⟩, ⟨rfl, rfl⟩, rfl⟩ := hv'
 obtain rfl : id = id' := coordinates_unique hcoord hcoord'
 exact Option.some.inj (hrow.symm.trans hrow')

theorem slugsOf_disjoint (hm : Valid m) :
  ∀ slug ∈ ((permissionChecksOf m).filter (·.origin == .core)).map (·.canonicalSlug),
   slug ∉ ((permissionChecksOf m).filter (·.origin == .plugin)).map (·.canonicalSlug) := by
 intro slug hcore hown
 simp only [List.mem_map, List.mem_filter, beq_iff_eq] at hcore hown
 obtain ⟨a, ⟨ha, hacore⟩, rfl⟩ := hcore
 obtain ⟨b, ⟨hb, hbown⟩, hslug⟩ := hown
 rw [check_eq_of_slug hm hb ha hslug, hacore] at hbown
 cases hbown

theorem decide_granted {grant : Option PluginGrant} {current : Option RiskLevel}
  {wildcard unbounded : Bool} :
  decide grant current wildcard unbounded = .granted ↔
   ∃ row risk, grant = some row ∧ row.status = .granted ∧ wildcard = false ∧ unbounded = false ∧
    current = some risk ∧ riskCovers row.decidedRiskLevel risk = true := by
 cases grant with
 | none => simp [decide]
 | some row =>
  cases hs : row.status with
  | denied => simp [decide, hs]
  | granted => cases current <;> cases wildcard <;> cases unbounded <;> simp [decide, hs]

theorem classifyCheck_granted (hm : Valid m) (hcheck : check ∈ permissionChecksOf m)
  (hconsumed : unitConsumesConsentScope check.consentScope unit = true) :
  (classifyCheck host (addressedGrants db unit (permissionChecksOf m))
    (loadCatalogState db (permissionChecksOf m)) check).decision = .granted ↔
   ∃ row, DecidedBy db unit check row ∧ StillDescribes host db check row := by
 simp only [classifyCheck, decide_granted, addressedGrants_get hcheck hconsumed]
 have hdisjoint := slugsOf_disjoint hm
 refine exists_congr fun row => ?_
 cases horigin : check.origin with
 | core =>
  have hmem : check.canonicalSlug ∈
    ((permissionChecksOf m).filter (·.origin == .core)).map (·.canonicalSlug) :=
   List.mem_map_of_mem (List.mem_filter.2 ⟨hcheck, by simp [horigin]⟩)
  simp only [loadCatalogState, StillDescribes, horigin, riskEntries_core hdisjoint hmem,
   corePermissionsAt_get hmem, ← Bool.not_eq_true, List.contains_iff_mem, mem_wildcardEntries db hmem]
  cases hperm : permission? db check.canonicalSlug with
  | none => simp
  | some permission => simp; grind
 | plugin =>
  have hmem : check.canonicalSlug ∈
    ((permissionChecksOf m).filter (·.origin == .plugin)).map (·.canonicalSlug) :=
   List.mem_map_of_mem (List.mem_filter.2 ⟨hcheck, by simp [horigin]⟩)
  have hnot : check.canonicalSlug ∉
    ((permissionChecksOf m).filter (·.origin == .core)).map (·.canonicalSlug) :=
   fun hcore => hdisjoint _ hcore hmem
  simp only [loadCatalogState, StillDescribes, horigin, riskEntries_own hdisjoint hmem,
   ← Bool.not_eq_true, List.contains_iff_mem, notMem_wildcardEntries db hnot]
  simp

theorem classify_granted (hm : Valid m) (hcheck : check ∈ permissionChecksOf m)
  (hconsumed : unitConsumesConsentScope check.consentScope unit = true) :
  (mapGet (classify host db unit (permissionChecksOf m)).decisions check.canonicalSlug).map
    (·.decision) = some .granted ↔
   ∃ row, DecidedBy db unit check row ∧ StillDescribes host db check row := by
 rw [← classifyCheck_granted hm hcheck hconsumed]
 have hne : permissionChecksOf m ≠ [] := List.ne_nil_of_mem hcheck
 have hget : mapGet (classify host db unit (permissionChecksOf m)).decisions check.canonicalSlug =
   some (classifyCheck host (addressedGrants db unit (permissionChecksOf m))
    (loadCatalogState db (permissionChecksOf m)) check) := by
  rw [classify, if_neg hne]
  rw [mapGet_iff]
  · exact List.mem_map.2 ⟨check, List.mem_filter.2 ⟨hcheck, hconsumed⟩, rfl⟩
  · intro k v v' hv hv'
    simp only [List.mem_map, List.mem_filter, Prod.mk.injEq] at hv hv'
    obtain ⟨a, ⟨ha, -⟩, rfl, rfl⟩ := hv
    obtain ⟨b, ⟨hb, -⟩, hslug, rfl⟩ := hv'
    rw [check_eq_of_slug hm hb ha hslug]
 rw [hget]
 simp

end Classified

section Conferred

variable {host : Host} {db : Db} {unit : PluginUnit} {m : PluginManifest}

/-- The granted decisions the active manifest still requests at their scope. -/
def requestedAt (db : Db) (unit : PluginUnit) (checks : List NormalizedPermissionRequest) :
    List (GrantKey × PluginGrant) :=
  (grantedAt db unit).filter fun entry => (checks.map fun check =>
    (grantScopeOf check.consentScope, check.canonicalSlug)).contains
      (entry.1.scopeType, entry.1.permissionSlug)

variable {requested : List (GrantKey × PluginGrant)}

theorem mem_ownSlugsAt {slug : Text} :
  slug ∈ ownSlugsAt requested ↔ slug ∈ slugsAt requested ∧ isPluginPermissionSlug slug = true := by
 simp [ownSlugsAt]

theorem mem_coreSlugsAt {slug : Text} :
  slug ∈ coreSlugsAt requested ↔ slug ∈ slugsAt requested ∧ isPluginPermissionSlug slug = false := by
 simp only [coreSlugsAt, List.mem_filter, Bool.not_eq_true', ← Bool.not_eq_true,
  List.contains_iff_mem, mem_ownSlugsAt]
 tauto

theorem mem_requestedAt {checks : List NormalizedPermissionRequest} {key : GrantKey}
  {row : PluginGrant} :
  (key, row) ∈ requestedAt db unit checks ↔ row.status = .granted ∧
   ∃ check ∈ checks, DecidedBy db unit check row ∧ grant? db key = some row ∧
    key.scopeType = grantScopeOf check.consentScope ∧ key.permissionSlug = check.canonicalSlug ∧
    (key.scopeType, key.scopeId) ∈ grantScopeCoordinatesForUnit unit := by
 obtain ⟨scope, scopeId, slug⟩ := key
 simp only [requestedAt, grantedAt, List.mem_filter, mem_grantsAt, beq_iff_eq, List.contains_iff_mem,
  List.mem_map, Prod.mk.injEq]
 constructor
 · rintro ⟨⟨⟨hrow, hcoord⟩, hgranted⟩, check, hcheck, rfl, rfl⟩
   exact ⟨hgranted, check, hcheck, ⟨scopeId, hcoord, hrow⟩, hrow, rfl, rfl, hcoord⟩
 · rintro ⟨hgranted, check, hcheck, -, hrow, rfl, rfl, hcoord⟩
   exact ⟨⟨⟨hrow, hcoord⟩, hgranted⟩, check, hcheck, rfl, rfl⟩

theorem confers_iff (hm : Valid m) {key : GrantKey}
  {row : PluginGrant} {check : NormalizedPermissionRequest} (hcheck : check ∈ permissionChecksOf m)
  (hmem : (key, row) ∈ requested) (hscope : key.scopeType = grantScopeOf check.consentScope)
  (hslug : key.permissionSlug = check.canonicalSlug) (hgranted : row.status = .granted) :
  confers host (wildcardEntries (corePermissionsAt db (coreSlugsAt requested)))
    (corePermissionsAt db (coreSlugsAt requested))
    (riskEntries (corePermissionsAt db (coreSlugsAt requested))
     (ownPermissionsAt db (ownSlugsAt requested))) (key, row) = true ↔
   StillDescribes host db check row := by
 have hin : check.canonicalSlug ∈ slugsAt requested := hslug ▸ List.mem_map_of_mem hmem
 have hdisjoint : ∀ slug ∈ coreSlugsAt requested, slug ∉ ownSlugsAt requested := by
  intro slug hcore hown
  rw [mem_coreSlugsAt] at hcore
  rw [mem_ownSlugsAt, hcore.2] at hown
  simp at hown
 simp only [confers, hslug, hscope, StillDescribes, hgranted, true_and]
 rcases check_namespace hm hcheck with ⟨horigin, hns, -⟩ | ⟨horigin, hns⟩
 · have hown : check.canonicalSlug ∈ ownSlugsAt requested := mem_ownSlugsAt.2 ⟨hin, hns⟩
   have hnot : check.canonicalSlug ∉ coreSlugsAt requested := fun h => hdisjoint _ h hown
   have hnone : mapGet (corePermissionsAt db (coreSlugsAt requested)) check.canonicalSlug = none := by
    cases hget : mapGet (corePermissionsAt db (coreSlugsAt requested)) check.canonicalSlug with
    | none => rfl
    | some found =>
     have := mapGet_mem hget
     simp [corePermissionsAt, hnot] at this
   simp only [horigin, riskEntries_own hdisjoint hown, hnone]
   have hwild := notMem_wildcardEntries db hnot
   cases declared? db check.canonicalSlug <;> simp [hwild]
 · have hcore : check.canonicalSlug ∈ coreSlugsAt requested := mem_coreSlugsAt.2 ⟨hin, hns⟩
   simp only [horigin, riskEntries_core hdisjoint hcore, corePermissionsAt_get hcore]
   have hwild := mem_wildcardEntries db hcore
   cases hperm : permission? db check.canonicalSlug with
   | none => simp
   | some permission =>
    simp only [hperm, Option.some.injEq, exists_eq_left'] at hwild
    simp [hwild]
    grind

theorem mem_conferringAt (hm : Valid m) {slug : Text} :
  slug ∈ conferringAt host db (requestedAt db unit (permissionChecksOf m)) ↔
   ∃ check ∈ permissionChecksOf m, check.canonicalSlug = slug ∧
    ∃ row, DecidedBy db unit check row ∧ StillDescribes host db check row := by
 simp only [conferringAt, List.mem_map, List.mem_filter, Prod.exists]
 constructor
 · rintro ⟨key, row, ⟨hmem, hconfers⟩, rfl⟩
   obtain ⟨hgranted, check, hcheck, hdecided, -, hscope, hslug, -⟩ := mem_requestedAt.1 hmem
   exact ⟨check, hcheck, hslug.symm, row, hdecided,
    (confers_iff hm hcheck hmem hscope hslug hgranted).1 hconfers⟩
 · rintro ⟨check, hcheck, rfl, row, hdecided, hdescribes⟩
   obtain ⟨scopeId, hcoord, hrow⟩ := hdecided
   have hmem : ((⟨grantScopeOf check.consentScope, scopeId, check.canonicalSlug⟩ : GrantKey), row) ∈
     requestedAt db unit (permissionChecksOf m) :=
    mem_requestedAt.2 ⟨hdescribes.1, check, hcheck, ⟨scopeId, hcoord, hrow⟩, hrow, rfl, rfl, hcoord⟩
   exact ⟨_, row, ⟨hmem, (confers_iff hm hcheck hmem rfl rfl hdescribes.1).2 hdescribes⟩, rfl⟩

theorem conferringAt_listed {slug : Text} (h : slug ∈ conferringAt host db requested) :
  (∃ row, (slug, row) ∈ corePermissionsAt db (coreSlugsAt requested)) ∨
   slug ∈ ownSlugsAt requested := by
 simp only [conferringAt, List.mem_map, List.mem_filter, Prod.exists] at h
 obtain ⟨key, row, ⟨-, hconfers⟩, rfl⟩ := h
 simp only [confers, Bool.and_eq_true] at hconfers
 obtain ⟨-, hrisk⟩ := hconfers
 split at hrisk
 · cases hrisk
 · rename_i risk hget
   have hmem := mapGet_mem hget
   simp only [riskEntries, List.mem_append, List.mem_map, Prod.mk.injEq, Prod.exists] at hmem
   rcases hmem with ⟨slug', permission, hin, hslug', -⟩ | ⟨slug', permission, hin, hslug', -⟩
   · exact .inl ⟨permission, hslug' ▸ hin⟩
   · right
     simp only [ownPermissionsAt, List.mem_filter, List.contains_iff_mem] at hin
     exact hslug' ▸ hin.2

end Conferred

section Agreement

variable {host : Host} {db : Db} {unit : PluginUnit} {plugin : Plugin}
  {validated : PluginManifestValidationResult}

theorem snapshot_servable (hplugin : plugin? db = some plugin)
  (hmanifest : revalidateStoredManifest host plugin = .ok validated)
  (hservable : (plugin.enabled && plugin.uninstalledAt == none && isUnitServed db unit) = true)
  (hclean : ∀ entry ∈ grantedAt db unit, slugRejection plugin entry.1.permissionSlug = none) :
  ∀ slug, slug ∈ conferred (getPluginGrantSnapshot host true db unit) ↔
   slug ∈ conferringAt host db (requestedAt db unit validated.permissionChecks) := by
 intro slug
 by_cases hnone : grantedAt db unit = []
 · have hempty : requestedAt db unit validated.permissionChecks = [] := by simp [requestedAt, hnone]
   have hsnap : getPluginGrantSnapshot host true db unit = .ok (some ⟨unit, true, [], []⟩) := by
    simp only [getPluginGrantSnapshot, hplugin, hservable]
    rw [if_neg (by simp), if_pos hnone]
   simp [hsnap, hempty, conferred, conferringAt]
 · have hfind : (grantedAt db unit).findSome?
     (fun entry => slugRejection plugin entry.1.permissionSlug) = none :=
    List.findSome?_eq_none_iff.2 hclean
   have hsnap : getPluginGrantSnapshot host true db unit = .ok (some
     ⟨unit, true,
      (corePermissionsAt db (coreSlugsAt (requestedAt db unit validated.permissionChecks))).filter
       fun entry => (conferringAt host db (requestedAt db unit validated.permissionChecks)).contains
        entry.1,
      (ownSlugsAt (requestedAt db unit validated.permissionChecks)).filter
       (conferringAt host db (requestedAt db unit validated.permissionChecks)).contains⟩) := by
    simp only [getPluginGrantSnapshot, hplugin, hservable]
    rw [if_neg (by simp), if_neg hnone]
    simp only [hfind, grantsRequestedByActiveManifest, hmanifest]
    rfl
   rw [hsnap]
   simp only [conferred, List.mem_append, List.mem_map, List.mem_filter, List.contains_iff_mem,
    Prod.exists, exists_and_right, exists_eq_right]
   constructor
   · rintro (⟨-, h⟩ | ⟨-, h⟩)
     · exact h
     · exact h
   · intro h
     rcases conferringAt_listed h with ⟨row, hrow⟩ | hown
     · exact .inl ⟨⟨row, hrow⟩, h⟩
     · exact .inr ⟨hown, h⟩

/-- For a servable unit the screen and the ability agree, unless a granted
    decision the unit reads names a malformed or foreign `plugin|` slug: then
    the ability is refused with a typed rejection. -/
theorem classify_agrees_with_snapshot (hplugin : plugin? db = some plugin)
    (hmanifest : revalidateStoredManifest host plugin = .ok validated)
    (hservable : (plugin.enabled && plugin.uninstalledAt == none && isUnitServed db unit) = true) :
    ((∀ entry ∈ grantedAt db unit, slugRejection plugin entry.1.permissionSlug = none) →
      Agrees host true db unit validated.permissionChecks) ∧
    ((∃ entry ∈ grantedAt db unit, slugRejection plugin entry.1.permissionSlug ≠ none) →
      ∃ entry ∈ grantedAt db unit, ∃ rejection,
        slugRejection plugin entry.1.permissionSlug = some rejection ∧
        getPluginGrantSnapshot host true db unit = .error rejection) := by
 constructor
 · intro hclean
   obtain ⟨m, -, hm, -, -, rfl⟩ := revalidateStoredManifest_ok hmanifest
   have hmem := snapshot_servable hplugin hmanifest hservable hclean
   constructor
   · intro check hcheck hconsumed
     rw [classify_granted hm hcheck hconsumed, hmem, mem_conferringAt hm]
     constructor
     · intro h
       exact ⟨check, hcheck, rfl, h⟩
     · rintro ⟨other, hother, hslug, h⟩
       rw [← check_eq_of_slug hm hother hcheck hslug]
       exact h
   · intro slug hslug
     rw [hmem, mem_conferringAt hm] at hslug
     obtain ⟨check, hcheck, rfl, row, ⟨scopeId, hcoord, -⟩, -⟩ := hslug
     exact ⟨check, hcheck, consumed_iff.2 ⟨scopeId, hcoord⟩, rfl⟩
 · rintro ⟨bad, hbad, hrejected⟩
   have hne : grantedAt db unit ≠ [] := List.ne_nil_of_mem hbad
   cases hfind : (grantedAt db unit).findSome?
     (fun entry => slugRejection plugin entry.1.permissionSlug) with
   | none => exact absurd (List.findSome?_eq_none_iff.1 hfind bad hbad) hrejected
   | some rejection =>
    obtain ⟨entry, hentry, hfound⟩ := List.exists_of_findSome?_eq_some hfind
    refine ⟨entry, hentry, rejection, hfound, ?_⟩
    simp only [getPluginGrantSnapshot, hplugin, hservable]
    rw [if_neg (by simp), if_neg hne]
    simp only [hfind]

end Agreement

section Samples

def sampleHost : Host := ⟨⟨fun _ _ => []⟩, fun _ _ _ => true, fun _ _ => .conforms⟩

def sampleManifest : PluginManifest where
  slug := "demo".toList
  version := "1.0.0".toList
  scope := .household
  declares := ["read:shelf".toList]
  checks := [⟨"read:game".toList, true, none⟩, ⟨"read:shelf".toList, false, some .household⟩]
  outboundDomains := .listed []
  writesCore := []
  configSchema := []
  requiresHouseholdConfig := false
  rest := []

def samplePlugin : Plugin where
  slug := "demo".toList
  version := "1.0.0".toList
  scope := .household
  enabled := true
  manifestJson := .manifest sampleManifest
  config := emptyConfig
  installedSha256 := []
  installedById := "admin".toList
  installedAt := 0
  restartRequired := false
  pending := none
  uninstalledAt := none

def sampleGrant : PluginGrant := ⟨0, .granted, "admin".toList, "1.0.0".toList, .low, 0⟩

def ownShelfSlug : Text := "plugin|demo|read:shelf".toList

/-- An installed plugin, one serving household and three granted decisions; the
    last one is on `extraSlug` at server scope. -/
def sampleDb (extraSlug : Text) : Db :=
  ofRows
    [⟨.plugin, samplePlugin⟩,
      ⟨.permission "read:game".toList, ⟨.low, "Game".toList, [], false⟩⟩,
      ⟨.declared ownShelfSlug, ⟨.low⟩⟩,
      ⟨.unit (.household "home".toList), ⟨1, true, false, none, emptyConfig, none, none⟩⟩,
      ⟨.grant (serverGrant "read:game".toList), sampleGrant⟩,
      ⟨.grant (unitGrant (.household "home".toList) ownShelfSlug), sampleGrant⟩,
      ⟨.grant (serverGrant extraSlug), sampleGrant⟩]

theorem classify_agrees_on_sample :
    conferred (getPluginGrantSnapshot sampleHost true (sampleDb "read:game".toList)
        (.household "home".toList)) = ["read:game".toList, ownShelfSlug] ∧
      Agrees sampleHost true (sampleDb "read:game".toList) (.household "home".toList)
        (permissionChecksOf sampleManifest) :=
 ⟨by decide +kernel, (@classify_agrees_with_snapshot sampleHost (sampleDb "read:game".toList)
  (.household "home".toList) samplePlugin ⟨sampleManifest, permissionChecksOf sampleManifest,
   declaredPermissionsOf sampleManifest, externalPermissionChecksOf sampleManifest⟩
  (by decide +kernel) (by decide +kernel) (by decide +kernel)).1 (by decide +kernel)⟩

/-- One granted row in another plugin's namespace silences the ability, while
    the screen still shows the household's checks granted. -/
theorem foreign_decision_disagrees :
    ¬ Agrees sampleHost true (sampleDb "plugin|other|read:shelf".toList) (.household "home".toList)
      (permissionChecksOf sampleManifest) := by
 intro h
 have hiff := h.granted_iff ⟨"read:game".toList, true, .server, .core, "read:game".toList⟩
  (by decide +kernel) (by decide +kernel)
 exact absurd (hiff.1 (by decide +kernel)) (by decide +kernel)

end Samples

end BoardGamesEmpire.PluginConsentAgreement
