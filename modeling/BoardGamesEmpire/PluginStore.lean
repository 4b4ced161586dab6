import BoardGamesEmpire.Manifest
import BoardGamesEmpire.ReadCommitted

set_option autoImplicit false

/-!
# The rows of one plugin

The tables the plugin services share, cut down to one plugin: its own row, its
consent decisions, its declared permissions, the household and user enablement
rows, and the two tables other services own that they read, the core permission
catalog and the households.
-/
namespace BoardGamesEmpire.PluginStore
open JsText Manifest ReadCommitted

inductive RiskLevel where
  | low | medium | high | critical
deriving DecidableEq

def RiskLevel.rank : RiskLevel → ℕ
  | .low => 0
  | .medium => 1
  | .high => 2
  | .critical => 3

def riskCovers (decidedRiskLevel currentRiskLevel : RiskLevel) : Bool :=
  currentRiskLevel.rank ≤ decidedRiskLevel.rank

inductive PluginGrantScope where
  | server | household | user
deriving DecidableEq

inductive PluginGrantStatus where
  | granted | denied
deriving DecidableEq

inductive PluginUnitDormantReason where
  | scopeOrphaned | needsConfiguration
deriving DecidableEq

inductive ConfigValue where
  | object (fields : Text)
  | other (json : Text)
deriving DecidableEq

def emptyConfig : ConfigValue := .object []

structure StagedUpdate where
  pendingVersion : Text
  pendingManifestJson : ManifestDocument
  pendingSha256 : Text
  pendingSince : ℕ
  pendingStagingId : ℕ
deriving DecidableEq

/-- The columns of `plugins` that the modelled services read or write. -/
structure Plugin where
  slug : Text
  version : Text
  scope : PluginScope
  enabled : Bool
  manifestJson : ManifestDocument
  config : ConfigValue
  installedSha256 : Text
  installedById : Text
  installedAt : ℕ
  restartRequired : Bool
  pending : Option StagedUpdate
  uninstalledAt : Option ℕ
deriving DecidableEq

structure GrantKey where
  scopeType : PluginGrantScope
  scopeId : Text
  permissionSlug : Text
deriving DecidableEq

structure PluginGrant where
  id : ℕ
  status : PluginGrantStatus
  decidedById : Text
  manifestVersion : Text
  decidedRiskLevel : RiskLevel
  decidedAt : ℕ
deriving DecidableEq

structure PluginPermission where
  riskLevel : RiskLevel
deriving DecidableEq

inductive UnitRef where
  | household (householdId : Text)
  | user (userId : Text)
deriving DecidableEq

/-- A `household_plugins` or `user_plugins` row; the user axis has no dormancy. -/
structure UnitRow where
  id : ℕ
  enabled : Bool
  suspendedForConsent : Bool
  suspendedAt : Option ℕ
  config : ConfigValue
  dormantReason : Option PluginUnitDormantReason
  dormantAt : Option ℕ
deriving DecidableEq

/-- A core permission; `rule` is the action, fields, conditions and inversion. -/
structure Permission where
  riskLevel : RiskLevel
  subject : Text
  rule : Text
  retired : Bool
deriving DecidableEq

structure Household where
  deleted : Bool
deriving DecidableEq

inductive Key where
  | plugin
  | grant (key : GrantKey)
  | declared (slug : Text)
  | unit (unit : UnitRef)
  | permission (slug : Text)
  | home (householdId : Text)
deriving DecidableEq

abbrev Row : Key → Type
  | .plugin => Plugin
  | .grant _ => PluginGrant
  | .declared _ => PluginPermission
  | .unit _ => UnitRow
  | .permission _ => Permission
  | .home _ => Household

abbrev Db := AList Row

def ofRows (rows : List (Sigma Row)) : Db := rows.foldr (fun entry db => db.insert entry.1 entry.2) ∅

def outside : Key → Bool
  | .permission _ | .home _ => true
  | _ => false

theorem lookup_outside (db : Db) {w : Write Row} (hw : outside w.key = true) {k : Key}
  (hk : outside k = false) : (applyWrite db w).lookup k = db.lookup k := by
 refine lookup_applyWrite_ne db ?_
 rintro rfl
 rw [hw] at hk
 cases hk

/-- What a configuration schema says of a document; a schema that does not
    compile makes the validator throw. -/
inductive ConfigVerdict where
  | conforms | issues | throws
deriving DecidableEq

/-- What the services take from code outside this model: the other manifest
    rules, the binding rule for unit consent, and the schema validator. -/
structure Host where
  rules : ManifestRules
  bindsConsentUnit : Text → Permission → PluginGrantScope → Bool
  validateConfig : PluginManifest → Text → ConfigVerdict

def serverScopeSentinel : Text := []

def grantScopeOf : PluginConsentScope → PluginGrantScope
  | .server => .server
  | .household => .household
  | .user => .user

theorem grantScopeOf_injective {a b : PluginConsentScope} (h : grantScopeOf a = grantScopeOf b) :
  a = b := by
 cases a <;> cases b <;> first | rfl | cases h

def UnitRef.scope : UnitRef → PluginGrantScope
  | .household _ => .household
  | .user _ => .user

def UnitRef.consentScope : UnitRef → PluginConsentScope
  | .household _ => .household
  | .user _ => .user

def UnitRef.scopeId : UnitRef → Text
  | .household id => id
  | .user id => id

def unitGrant (unit : UnitRef) (slug : Text) : GrantKey := ⟨unit.scope, unit.scopeId, slug⟩

def serverGrant (slug : Text) : GrantKey := ⟨.server, serverScopeSentinel, slug⟩

def plugin? (db : Db) : Option Plugin := db.lookup .plugin

def grant? (db : Db) (key : GrantKey) : Option PluginGrant := db.lookup (.grant key)

def declared? (db : Db) (slug : Text) : Option PluginPermission := db.lookup (.declared slug)

def unit? (db : Db) (unit : UnitRef) : Option UnitRow := db.lookup (.unit unit)

def home? (db : Db) (householdId : Text) : Option Household := db.lookup (.home householdId)

def permission? (db : Db) (slug : Text) : Option Permission :=
  (db.lookup (.permission slug)).filter fun row => !row.retired

def asGrant : Sigma Row → Option (GrantKey × PluginGrant)
  | ⟨.grant key, row⟩ => some (key, row)
  | _ => none

def asUnit : Sigma Row → Option (UnitRef × UnitRow)
  | ⟨.unit unit, row⟩ => some (unit, row)
  | _ => none

def asDeclared : Sigma Row → Option (Text × PluginPermission)
  | ⟨.declared slug, row⟩ => some (slug, row)
  | _ => none

def asPermission : Sigma Row → Option (Text × Permission)
  | ⟨.permission slug, row⟩ => some (slug, row)
  | _ => none

def grantRows (db : Db) : List (GrantKey × PluginGrant) := db.entries.filterMap asGrant

def unitRows (db : Db) : List (UnitRef × UnitRow) := db.entries.filterMap asUnit

def declaredRows (db : Db) : List (Text × PluginPermission) := db.entries.filterMap asDeclared

def permissionRows (db : Db) : List (Text × Permission) :=
  (db.entries.filterMap asPermission).filter fun entry => !entry.2.retired

variable {db : Db}

theorem mem_grantRows {key : GrantKey} {row : PluginGrant} :
  (key, row) ∈ grantRows db ↔ grant? db key = some row := by
 rw [grantRows, List.mem_filterMap, grant?, ← Option.mem_def, AList.mem_lookup_iff]
 constructor
 · rintro ⟨⟨k, r⟩, hmem, heq⟩
   cases k with
   | grant key' => cases heq; exact hmem
   | plugin | declared _ | unit _ | permission _ | home _ => cases heq
 · exact fun hmem => ⟨_, hmem, rfl⟩

theorem mem_unitRows {unit : UnitRef} {row : UnitRow} :
  (unit, row) ∈ unitRows db ↔ unit? db unit = some row := by
 rw [unitRows, List.mem_filterMap, unit?, ← Option.mem_def, AList.mem_lookup_iff]
 constructor
 · rintro ⟨⟨k, r⟩, hmem, heq⟩
   cases k with
   | unit unit' => cases heq; exact hmem
   | plugin | declared _ | grant _ | permission _ | home _ => cases heq
 · exact fun hmem => ⟨_, hmem, rfl⟩

theorem mem_declaredRows {slug : Text} {row : PluginPermission} :
  (slug, row) ∈ declaredRows db ↔ declared? db slug = some row := by
 rw [declaredRows, List.mem_filterMap, declared?, ← Option.mem_def, AList.mem_lookup_iff]
 constructor
 · rintro ⟨⟨k, r⟩, hmem, heq⟩
   cases k with
   | declared slug' => cases heq; exact hmem
   | plugin | unit _ | grant _ | permission _ | home _ => cases heq
 · exact fun hmem => ⟨_, hmem, rfl⟩

theorem mem_permissionRows {slug : Text} {row : Permission} :
  (slug, row) ∈ permissionRows db ↔ permission? db slug = some row := by
 rw [permissionRows, List.mem_filter, List.mem_filterMap, permission?, Option.filter_eq_some_iff,
  ← Option.mem_def, AList.mem_lookup_iff]
 refine and_congr_left fun _ => ?_
 constructor
 · rintro ⟨⟨k, r⟩, hmem, heq⟩
   cases k with
   | permission slug' => cases heq; exact hmem
   | plugin | unit _ | grant _ | declared _ | home _ => cases heq
 · exact fun hmem => ⟨_, hmem, rfl⟩

def allSubject : Text := "all".toList

/-- `permission.findMany` over a list of slugs. -/
def corePermissionsAt (db : Db) (slugs : List Text) : List (Text × Permission) :=
  (permissionRows db).filter fun entry => slugs.contains entry.1

theorem corePermissionsAt_get {slugs : List Text} {slug : Text} (h : slug ∈ slugs) :
  mapGet (corePermissionsAt db slugs) slug = permission? db slug := by
 ext row
 rw [mapGet_iff]
 · simp [corePermissionsAt, mem_permissionRows, h]
 · intro k v v' hv hv'
   simp only [corePermissionsAt, List.mem_filter, mem_permissionRows] at hv hv'
   exact Option.some.inj (hv.1.symm.trans hv'.1)

theorem grantRows_nodup (db : Db) : ((grantRows db).map Prod.fst).Nodup := by
 refine filterMap_nodup asGrant Sigma.fst Prod.fst ?_ db.entries db.nodupKeys
 rintro ⟨a, ra⟩ ⟨b, rb⟩ x y hx hy hxy
 cases a with
 | grant key =>
  cases b with
  | grant key' =>
   cases hx
   cases hy
   exact congrArg Key.grant hxy
  | plugin | declared _ | unit _ | permission _ | home _ => cases hy
 | plugin | declared _ | unit _ | permission _ | home _ => cases hx

inductive StoredManifestInvalid where
  | failedValidation (error : PluginManifestValidationError)
  | slugMismatch (manifestSlug : Text)
  | versionMismatch (manifestVersion : Text)
deriving DecidableEq

def revalidateStoredManifest (host : Host) (row : Plugin) :
    Except StoredManifestInvalid PluginManifestValidationResult :=
  match validatePluginManifest host.rules row.manifestJson false with
  | .error error => .error (.failedValidation error)
  | .ok validated =>
    if validated.manifest.slug ≠ row.slug then .error (.slugMismatch validated.manifest.slug)
    else if validated.manifest.version ≠ row.version then
      .error (.versionMismatch validated.manifest.version)
    else .ok validated

theorem revalidateStoredManifest_ok {host : Host} {row : Plugin}
  {validated : PluginManifestValidationResult}
  (h : revalidateStoredManifest host row = .ok validated) :
  ∃ m, row.manifestJson = .manifest m ∧ Valid m ∧ m.slug = row.slug ∧ m.version = row.version ∧
   validated = ⟨m, permissionChecksOf m, declaredPermissionsOf m, externalPermissionChecksOf m⟩ := by
 unfold revalidateStoredManifest at h
 split at h
 · cases h
 · rename_i result hvalid
   obtain ⟨m, hdoc, hm, rfl⟩ := validatePluginManifest_ok hvalid
   split at h
   · cases h
   · rename_i hslug
     split at h
     · cases h
     · rename_i hversion
       cases h
       exact ⟨m, hdoc, hm, not_not.1 hslug, not_not.1 hversion, rfl⟩

end BoardGamesEmpire.PluginStore
