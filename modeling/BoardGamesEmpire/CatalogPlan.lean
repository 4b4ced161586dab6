import BoardGamesEmpire.JsonObject

set_option autoImplicit false

/-!
# Planning a catalog reconcile

`planReconcile` compares the manifest with the three catalog tables and lists
the writes that bring the tables to it.
-/
namespace BoardGamesEmpire.Catalog
open JsText JsonText

inductive Action where
  | create | read | update | delete | manage
  deriving DecidableEq, Repr

inductive RiskLevel where
  | low | medium | high | critical
  deriving DecidableEq, Repr

inductive PermissionOwner where
  | system | admin | plugin
  deriving DecidableEq, Repr

def nul : Char := Char.ofNat 0

/-- A text the database can hold as a slug or a role name: it has no NUL. -/
abbrev Name := { s : Text // nul ∉ s }

abbrev Document (ν : Type) := { v : Json ν // proper v = true }

abbrev Date := ℕ

structure PermissionSeedDefinition (ν : Type) where
  action : Action
  subject : Text
  slug : Name
  riskLevel : RiskLevel
  reason : Text
  conditions : Option (Document ν)
  fields : Option (List Text)

structure RoleSeedDefinition where
  name : Name
  description : Text

/-- `rolePermissions` holds the entries of the record, role name by role name. -/
structure CatalogManifest (ν : Type) where
  permissions : List (PermissionSeedDefinition ν)
  roles : List RoleSeedDefinition
  rolePermissions : List (Name × List Name)

structure PermissionSnapshotRow (ν : Type) where
  slug : Name
  action : Action
  subject : Text
  fields : List Text
  conditions : Option (Json ν)
  inverted : Bool
  reason : Option Text
  riskLevel : RiskLevel
  managedBy : PermissionOwner
  retiredAt : Option Date

structure RoleSnapshotRow where
  name : Name
  description : Option Text
  managedBy : PermissionOwner

structure RolePermissionSnapshotRow where
  roleName : Name
  permissionSlug : Name
  managedBy : PermissionOwner
  deriving DecidableEq

structure CatalogSnapshot (ν : Type) where
  permissions : List (PermissionSnapshotRow ν)
  roles : List RoleSnapshotRow
  rolePermissions : List RolePermissionSnapshotRow

inductive PermissionField where
  | action | subject | fields | conditions | inverted | reason | riskLevel
  deriving DecidableEq, Repr

inductive DriftField where
  | column (field : PermissionField)
  | description
  | retiredAt
  deriving DecidableEq, Repr

inductive ColumnValue (ν : Type) where
  | action (value : Action)
  | riskLevel (value : RiskLevel)
  | text (value : Option Text)
  | texts (value : List Text)
  | json (value : Json ν)
  | flag (value : Bool)
  | date (value : Option Date)

structure FieldChange (ν : Type) where
  field : DriftField
  before : ColumnValue ν
  after : ColumnValue ν

structure PermissionUpdate (ν : Type) where
  slug : Name
  changes : List (FieldChange ν)

structure PermissionSkip (ν : Type) where
  slug : Name
  managedBy : PermissionOwner
  drift : List (FieldChange ν)

structure RetainedPermission where
  slug : Name
  managedBy : PermissionOwner

structure RoleUpdate (ν : Type) where
  name : Name
  changes : List (FieldChange ν)

structure RoleSkip (ν : Type) where
  name : Name
  managedBy : PermissionOwner
  drift : List (FieldChange ν)

structure RolePermissionEdge where
  roleName : Name
  permissionSlug : Name
  deriving DecidableEq

structure PermissionPlan (ν : Type) where
  create : List (PermissionSeedDefinition ν)
  update : List (PermissionUpdate ν)
  revive : List Name
  retire : List Name
  skipped : List (PermissionSkip ν)
  retained : List RetainedPermission
  conflicts : List Name

structure RolePlan (ν : Type) where
  create : List RoleSeedDefinition
  update : List (RoleUpdate ν)
  skipped : List (RoleSkip ν)
  orphans : List Name
  conflicts : List Name

structure RolePermissionPlan where
  create : List RolePermissionEdge
  delete : List RolePermissionEdge
  retained : List RolePermissionSnapshotRow
  conflicts : List RolePermissionEdge

structure ReconcilePlan (ν : Type) where
  permissions : PermissionPlan ν
  roles : RolePlan ν
  rolePermissions : RolePermissionPlan

/-- `new Set(values)`, in the order a `for … of` visits it. -/
def setOf (values : List Name) : List Name := values.eraseDups

def emptyObject {ν : Type} : Json ν := .obj []

/-- `value ?? {}`: a JSON `null` reads as no value. -/
def orEmpty {ν : Type} : Option (Json ν) → Json ν
  | none => emptyObject
  | some .null => emptyObject
  | some v => v

def sameSet (a b : List Text) : Bool :=
  a.length == b.length && sortTexts a == sortTexts b

section Plan

variable {ν : Type} (F : NumberFormat ν)

def canonicalJson (v : Json ν) : Text := stringify F (sortKeys v)

def wantedFields (wanted : PermissionSeedDefinition ν) : List Text := wanted.fields.getD []

def wantedConditions (wanted : PermissionSeedDefinition ν) : Json ν :=
  orEmpty (wanted.conditions.map Subtype.val)

def permissionFields : List PermissionField :=
  [.action, .subject, .fields, .conditions, .inverted, .reason, .riskLevel]

def comparePermissionField (wanted : PermissionSeedDefinition ν) (row : PermissionSnapshotRow ν) :
    PermissionField → ColumnValue ν × ColumnValue ν × Bool
  | .action => (.action row.action, .action wanted.action, row.action == wanted.action)
  | .subject =>
    (.text (some row.subject), .text (some wanted.subject), row.subject == wanted.subject)
  | .riskLevel =>
    (.riskLevel row.riskLevel, .riskLevel wanted.riskLevel, row.riskLevel == wanted.riskLevel)
  | .reason => (.text row.reason, .text (some wanted.reason), row.reason == some wanted.reason)
  | .inverted => (.flag row.inverted, .flag false, row.inverted == false)
  | .fields =>
    (.texts row.fields, .texts (wantedFields wanted), sameSet row.fields (wantedFields wanted))
  | .conditions =>
    (.json (orEmpty row.conditions), .json (wantedConditions wanted),
      canonicalJson F (orEmpty row.conditions) == canonicalJson F (wantedConditions wanted))

def diffPermission (wanted : PermissionSeedDefinition ν) (row : PermissionSnapshotRow ν) :
    List (FieldChange ν) :=
  permissionFields.filterMap fun field =>
    let (before, after, same) := comparePermissionField F wanted row field
    if same then none else some ⟨.column field, before, after⟩

def permissionRow (snapshot : CatalogSnapshot ν) (slug : Name) : Option (PermissionSnapshotRow ν) :=
  mapGet (snapshot.permissions.map fun row => (row.slug, row)) slug

def systemRow (snapshot : CatalogSnapshot ν) (wanted : PermissionSeedDefinition ν) :
    Option (PermissionSnapshotRow ν) :=
  (permissionRow snapshot wanted.slug).filter (·.managedBy == .system)

def planPermissions (manifest : CatalogManifest ν) (snapshot : CatalogSnapshot ν) :
    PermissionPlan ν where
  create := manifest.permissions.filter fun wanted => (permissionRow snapshot wanted.slug).isNone
  update := manifest.permissions.filterMap fun wanted =>
    (systemRow snapshot wanted).bind fun row =>
      if (diffPermission F wanted row).isEmpty then none
      else some ⟨wanted.slug, diffPermission F wanted row⟩
  revive := manifest.permissions.filterMap fun wanted =>
    (systemRow snapshot wanted).bind fun row =>
      if row.retiredAt.isNone then none else some wanted.slug
  skipped := manifest.permissions.filterMap fun wanted =>
    (permissionRow snapshot wanted.slug).bind fun row =>
      if row.managedBy = .admin then
        some ⟨wanted.slug, row.managedBy, diffPermission F wanted row ++
          if row.retiredAt.isNone then [] else [⟨.retiredAt, .date row.retiredAt, .date none⟩]⟩
      else none
  conflicts := manifest.permissions.filterMap fun wanted =>
    (permissionRow snapshot wanted.slug).bind fun row =>
      if row.managedBy = .plugin then some wanted.slug else none
  -- The second loop of the source, over the rows the manifest does not list.
  retained := snapshot.permissions.filterMap fun row =>
    if (manifest.permissions.map (·.slug)).contains row.slug then none
    else if row.managedBy = .system then none
    else some ⟨row.slug, row.managedBy⟩
  retire := snapshot.permissions.filterMap fun row =>
    if (manifest.permissions.map (·.slug)).contains row.slug then none
    else if row.managedBy = .system ∧ row.retiredAt = none then some row.slug
    else none

def roleRow (snapshot : CatalogSnapshot ν) (name : Name) : Option RoleSnapshotRow :=
  mapGet (snapshot.roles.map fun row => (row.name, row)) name

def roleDrift (wanted : RoleSeedDefinition) (row : RoleSnapshotRow) : List (FieldChange ν) :=
  if row.description = some wanted.description then []
  else [⟨.description, .text row.description, .text (some wanted.description)⟩]

def planRoles (manifest : CatalogManifest ν) (snapshot : CatalogSnapshot ν) : RolePlan ν where
  create := manifest.roles.filter fun wanted => (roleRow snapshot wanted.name).isNone
  update := manifest.roles.filterMap fun wanted =>
    (roleRow snapshot wanted.name).bind fun row =>
      if row.managedBy = .system ∧ row.description ≠ some wanted.description then
        some ⟨wanted.name, roleDrift wanted row⟩
      else none
  skipped := manifest.roles.filterMap fun wanted =>
    (roleRow snapshot wanted.name).bind fun row =>
      if row.managedBy = .admin then some ⟨wanted.name, row.managedBy, roleDrift wanted row⟩
      else none
  conflicts := manifest.roles.filterMap fun wanted =>
    (roleRow snapshot wanted.name).bind fun row =>
      if row.managedBy = .plugin then some wanted.name else none
  orphans := snapshot.roles.filterMap fun row =>
    if (manifest.roles.map (·.name)).contains row.name then none
    else if row.managedBy = .system then some row.name
    else none

def edgeKey (roleName permissionSlug : Name) : Text := roleName.val ++ nul :: permissionSlug.val

/-- The edges the manifest lists, in the order its two loops visit them. -/
def CatalogManifest.edges (manifest : CatalogManifest ν) : List RolePermissionEdge :=
  manifest.rolePermissions.flatMap fun entry => entry.2.map fun slug => ⟨entry.1, slug⟩

def edgeRow (snapshot : CatalogSnapshot ν) (edge : RolePermissionEdge) :
    Option RolePermissionSnapshotRow :=
  mapGet (snapshot.rolePermissions.map fun row => (edgeKey row.roleName row.permissionSlug, row))
    (edgeKey edge.roleName edge.permissionSlug)

def listsEdge (manifest : CatalogManifest ν) (row : RolePermissionSnapshotRow) : Bool :=
  (manifest.edges.map fun edge => edgeKey edge.roleName edge.permissionSlug).contains
    (edgeKey row.roleName row.permissionSlug)

def planRolePermissions (manifest : CatalogManifest ν) (snapshot : CatalogSnapshot ν) :
    RolePermissionPlan where
  create := manifest.edges.filter fun edge => (edgeRow snapshot edge).isNone
  conflicts := manifest.edges.filter fun edge =>
    (edgeRow snapshot edge).any (·.managedBy == .plugin)
  delete := (snapshot.rolePermissions.filter fun row =>
    !listsEdge manifest row && row.managedBy == .system).map
      fun row => ⟨row.roleName, row.permissionSlug⟩
  retained := snapshot.rolePermissions.filter fun row =>
    !listsEdge manifest row && row.managedBy != .system

def planReconcile (manifest : CatalogManifest ν) (snapshot : CatalogSnapshot ν) :
    ReconcilePlan ν where
  permissions := planPermissions F manifest snapshot
  roles := planRoles manifest snapshot
  rolePermissions := planRolePermissions manifest snapshot

/-- The permissions an apply converges: those that drifted and those revived. -/
def converged (plan : PermissionPlan ν) : List Name :=
  setOf (plan.update.map (·.slug) ++ plan.revive)

def countMutations (plan : ReconcilePlan ν) : ℕ :=
  plan.permissions.create.length + (converged plan.permissions).length +
    plan.permissions.retire.length + plan.roles.create.length + plan.roles.update.length +
    plan.rolePermissions.create.length + plan.rolePermissions.delete.length

def ReconcilePlan.conflictFree (plan : ReconcilePlan ν) : Prop :=
  plan.permissions.conflicts = [] ∧ plan.roles.conflicts = [] ∧ plan.rolePermissions.conflicts = []

end Plan

end BoardGamesEmpire.Catalog
