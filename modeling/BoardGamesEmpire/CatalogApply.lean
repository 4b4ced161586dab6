import BoardGamesEmpire.CatalogPlan

set_option autoImplicit false

/-!
# Applying a catalog reconcile

The catalog tables with their row ids, the statements `applyReconcilePlan`
issues on them, and the snapshot the planner reads.
-/
namespace BoardGamesEmpire.Catalog
open JsText JsonText

structure Stored (ι ρ : Type) where
  id : ι
  row : ρ

structure RolePermissionRow (ι : Type) where
  roleId : ι
  permissionId : ι
  managedBy : PermissionOwner

structure Tables (ι ν : Type) where
  permissions : List (Stored ι (PermissionSnapshotRow ν))
  roles : List (Stored ι RoleSnapshotRow)
  rolePermissions : List (RolePermissionRow ι)

structure IdSupply (ι : Type) where
  mint : List ι → ι
  mint_fresh : ∀ used, mint used ∉ used

def countingIds : IdSupply ℕ where
  mint used := used.sum + 1
  mint_fresh used h := by
    have := List.single_le_sum (fun _ _ => Nat.zero_le _) _ h
    omega

inductive ReconcileError where
  | shortWrite (statement : String) (planned written : ℕ)
  | recordNotFound (key : Name)
  | undefinedName (kind : String) (key : Name)
  deriving DecidableEq

/-- The tables inside the transaction, and how many rows it has written. -/
structure Session (ι ν : Type) where
  tables : Tables ι ν
  written : ℕ

section Statements

variable {ι ρ : Type}

/-- `createMany` with `skipDuplicates`, and its row count: a row whose key is
    taken is skipped. -/
def insertMany {τ δ κ : Type} [DecidableEq κ] (keyOf : τ → κ) (key : δ → κ)
    (make : List τ → δ → τ) (rows : List τ) (data : List δ) : List τ × ℕ :=
  data.foldl (fun acc d =>
    if (acc.1.map keyOf).contains (key d) then acc
    else (acc.1 ++ [make acc.1 d], acc.2 + 1)) (rows, 0)

def createMany (supply : IdSupply ι) (key : ρ → Name) (rows : List (Stored ι ρ)) (data : List ρ) :
    List (Stored ι ρ) × ℕ :=
  insertMany (fun s => key s.row) key (fun rows d => ⟨supply.mint (rows.map (·.id)), d⟩) rows data

def updateMany (matching : ρ → Bool) (data : ρ → ρ) (rows : List (Stored ι ρ)) :
    List (Stored ι ρ) × ℕ :=
  (rows.map fun s => if matching s.row then ⟨s.id, data s.row⟩ else s,
    rows.countP fun s => matching s.row)

def assertWrote (statement : String) (written planned : ℕ) : Except ReconcileError Unit :=
  if written = planned then .ok () else .error (.shortWrite statement planned written)

def requireDefined {α : Type} (value : Option α) (kind : String) (key : Name) :
    Except ReconcileError α :=
  match value with
  | some a => .ok a
  | none => .error (.undefinedName kind key)

/-- `new Map(rows.map((row) => [key, id])).get(name)`. -/
def idOf (key : ρ → Name) (rows : List (Stored ι ρ)) (name : Name) : Option ι :=
  mapGet (rows.map fun s => (key s.row, s.id)) name

def rowOfId [DecidableEq ι] (rows : List (Stored ι ρ)) (id : ι) : Option ρ :=
  (rows.find? fun s => s.id = id).map (·.row)

end Statements

section Apply

variable {ι ν : Type}

def namedEdge [DecidableEq ι] (tables : Tables ι ν) (edge : RolePermissionRow ι) :
    Option RolePermissionSnapshotRow :=
  (rowOfId tables.roles edge.roleId).bind fun role =>
    (rowOfId tables.permissions edge.permissionId).map fun permission =>
      ⟨role.name, permission.slug, edge.managedBy⟩

def loadCatalogSnapshot [DecidableEq ι] (tables : Tables ι ν) : CatalogSnapshot ν where
  permissions := tables.permissions.map (·.row)
  roles := tables.roles.map (·.row)
  rolePermissions := tables.rolePermissions.filterMap (namedEdge tables)

variable (supply : IdSupply ι) (column : JsonColumn ν) (now : Date)

/-- The row with the columns the manifest owns, as `permissionColumns` gives them. -/
def withColumns (wanted : PermissionSeedDefinition ν) (row : PermissionSnapshotRow ν) :
    PermissionSnapshotRow ν :=
  { row with
    action := wanted.action
    subject := wanted.subject
    fields := wantedFields wanted
    conditions := some (column.stored (wantedConditions wanted))
    inverted := false
    reason := some wanted.reason
    riskLevel := wanted.riskLevel }

def newPermission (wanted : PermissionSeedDefinition ν) : PermissionSnapshotRow ν where
  slug := wanted.slug
  action := wanted.action
  subject := wanted.subject
  fields := wantedFields wanted
  conditions := some (column.stored (wantedConditions wanted))
  inverted := false
  reason := some wanted.reason
  riskLevel := wanted.riskLevel
  managedBy := .system
  retiredAt := none

def newRole (wanted : RoleSeedDefinition) : RoleSnapshotRow where
  name := wanted.name
  description := some wanted.description
  managedBy := .system

def createPermissions (plan : PermissionPlan ν) (s : Session ι ν) :
    Except ReconcileError (Session ι ν) :=
  if plan.create = [] then .ok s
  else do
    let (rows, count) := createMany supply (·.slug) s.tables.permissions
      (plan.create.map (newPermission column))
    assertWrote "permission.createMany" count plan.create.length
    return { tables := { s.tables with permissions := rows }, written := s.written + count }

/-- `tx.permission.update` of one slug the reconciler owns. -/
def convergePermission (manifest : CatalogManifest ν) (s : Session ι ν) (slug : Name) :
    Except ReconcileError (Session ι ν) := do
  let wanted ← requireDefined
    (mapGet (manifest.permissions.map fun wanted => (wanted.slug, wanted)) slug) "permission" slug
  let (rows, count) := updateMany (fun row => row.slug = slug ∧ row.managedBy = .system)
    (fun row => { withColumns column wanted row with retiredAt := none }) s.tables.permissions
  if count = 0 then .error (.recordNotFound slug)
  else return { tables := { s.tables with permissions := rows }, written := s.written + count }

def retirePermissions (plan : PermissionPlan ν) (s : Session ι ν) :
    Except ReconcileError (Session ι ν) :=
  if plan.retire = [] then .ok s
  else do
    let (rows, count) := updateMany
      (fun row => plan.retire.contains row.slug ∧ row.managedBy = .system ∧ row.retiredAt = none)
      (fun row => { row with retiredAt := some now }) s.tables.permissions
    assertWrote "permission.updateMany" count plan.retire.length
    return { tables := { s.tables with permissions := rows }, written := s.written + count }

def createRoles (plan : RolePlan ν) (s : Session ι ν) : Except ReconcileError (Session ι ν) :=
  if plan.create = [] then .ok s
  else do
    let (rows, count) := createMany supply (·.name) s.tables.roles (plan.create.map newRole)
    assertWrote "role.createMany" count plan.create.length
    return { tables := { s.tables with roles := rows }, written := s.written + count }

def updateRole (manifest : CatalogManifest ν) (s : Session ι ν) (name : Name) :
    Except ReconcileError (Session ι ν) := do
  let wanted ← requireDefined
    (mapGet (manifest.roles.map fun wanted => (wanted.name, wanted)) name) "role" name
  let (rows, count) := updateMany (fun row => row.name = name ∧ row.managedBy = .system)
    (fun row => { row with description := some wanted.description }) s.tables.roles
  if count = 0 then .error (.recordNotFound name)
  else return { tables := { s.tables with roles := rows }, written := s.written + count }

def resolve (tables : Tables ι ν) (edge : RolePermissionEdge) :
    Except ReconcileError (ι × ι) := do
  let roleId ← requireDefined (idOf (·.name) tables.roles edge.roleName) "role" edge.roleName
  let permissionId ← requireDefined (idOf (·.slug) tables.permissions edge.permissionSlug)
    "permission" edge.permissionSlug
  return (roleId, permissionId)

def deleteEdges [DecidableEq ι] (plan : RolePermissionPlan) (s : Session ι ν) :
    Except ReconcileError (Session ι ν) :=
  if plan.delete = [] then .ok s
  else do
    let pairs ← plan.delete.mapM (resolve s.tables)
    let doomed := fun row : RolePermissionRow ι =>
      row.managedBy = .system ∧ pairs.contains (row.roleId, row.permissionId)
    let count := s.tables.rolePermissions.countP fun row => doomed row
    assertWrote "rolePermission.deleteMany" count plan.delete.length
    return { tables := { s.tables with
               rolePermissions := s.tables.rolePermissions.filter fun row => ¬ doomed row }
             written := s.written + count }

def addEdges [DecidableEq ι] (rows : List (RolePermissionRow ι)) (pairs : List (ι × ι)) :
    List (RolePermissionRow ι) × ℕ :=
  insertMany (fun row => (row.roleId, row.permissionId)) id
    (fun _ pair => ⟨pair.1, pair.2, .system⟩) rows pairs

def createEdges [DecidableEq ι] (plan : RolePermissionPlan) (s : Session ι ν) :
    Except ReconcileError (Session ι ν) :=
  if plan.create = [] then .ok s
  else do
    let pairs ← plan.create.mapM (resolve s.tables)
    let (rows, count) := addEdges s.tables.rolePermissions pairs
    assertWrote "rolePermission.createMany" count plan.create.length
    return { tables := { s.tables with rolePermissions := rows }, written := s.written + count }

def applyReconcilePlan [DecidableEq ι] (manifest : CatalogManifest ν) (plan : ReconcilePlan ν)
    (tables : Tables ι ν) : Except ReconcileError (Session ι ν) := do
  let s ← createPermissions supply column plan.permissions ⟨tables, 0⟩
  let s ← (converged plan.permissions).foldlM (convergePermission column manifest) s
  let s ← retirePermissions now plan.permissions s
  let s ← createRoles supply plan.roles s
  let s ← (plan.roles.update.map (·.name)).foldlM (updateRole manifest) s
  let s ← deleteEdges plan.rolePermissions s
  createEdges plan.rolePermissions s

end Apply

end BoardGamesEmpire.Catalog
