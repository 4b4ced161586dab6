import BoardGamesEmpire.CatalogConverge

set_option autoImplicit false

/-!
# The rows a reconcile leaves

What the apply makes of each permission and role row, and how many rows its
statements write.
-/
namespace BoardGamesEmpire.Catalog
open JsText JsonText

section Plans

variable {ν : Type} {F : NumberFormat ν} {manifest : CatalogManifest ν} {snapshot : CatalogSnapshot ν}

structure CatalogManifest.Wf (manifest : CatalogManifest ν) : Prop where
  slugs : (manifest.permissions.map (·.slug)).Nodup
  names : (manifest.roles.map (·.name)).Nodup
  edges : manifest.edges.Nodup
  edgeRoles : ∀ edge ∈ manifest.edges, edge.roleName ∈ manifest.roles.map (·.name)
  edgeSlugs : ∀ edge ∈ manifest.edges, edge.permissionSlug ∈ manifest.permissions.map (·.slug)

variable {wanted : PermissionSeedDefinition ν}

theorem wantedPermission_mem (h : manifest.Wf)
  (hw : wanted ∈ manifest.permissions) : wantedPermission manifest wanted.slug = some wanted :=
 mapGet_unique PermissionSeedDefinition.slug h.slugs (fun w => w) hw

theorem wantedRole_mem (h : manifest.Wf) {wanted : RoleSeedDefinition}
  (hw : wanted ∈ manifest.roles) :
  wantedRole manifest wanted.name = some wanted :=
 mapGet_unique RoleSeedDefinition.name h.names (fun w => w) hw

theorem permissionRow_some (hslugs : (snapshot.permissions.map (·.slug)).Nodup) {slug : Name}
  {row : PermissionSnapshotRow ν} :
  permissionRow snapshot slug = some row ↔ row ∈ snapshot.permissions ∧ row.slug = slug := by
 constructor
 · intro h
   obtain ⟨found, hfound, hslug, heq⟩ := mapGet_map_mem h
   rw [← heq]
   exact ⟨hfound, hslug⟩
 · intro h
   rw [← h.2]
   exact mapGet_unique (·.slug) hslugs (fun r => r) h.1

theorem roleRow_some (hnames : (snapshot.roles.map (·.name)).Nodup) {name : Name}
  {row : RoleSnapshotRow} :
  roleRow snapshot name = some row ↔ row ∈ snapshot.roles ∧ row.name = name := by
 constructor
 · intro h
   obtain ⟨found, hfound, hname, heq⟩ := mapGet_map_mem h
   rw [← heq]
   exact ⟨hfound, hname⟩
 · intro h
   rw [← h.2]
   exact mapGet_unique (·.name) hnames (fun r => r) h.1

theorem mem_create_permission (h : wanted ∈ (planPermissions F manifest snapshot).create) :
  wanted ∈ manifest.permissions ∧ ∀ row ∈ snapshot.permissions, row.slug ≠ wanted.slug := by
 obtain ⟨hmem, hnone⟩ := List.mem_filter.mp h
 exact ⟨hmem, mapGet_map_none (Option.isNone_iff_eq_none.mp hnone)⟩

theorem mem_converged {slug : Name} :
  slug ∈ converged (planPermissions F manifest snapshot) ↔
   ∃ wanted ∈ manifest.permissions, wanted.slug = slug ∧ ∃ row,
    permissionRow snapshot slug = some row ∧ row.managedBy = .system ∧
     (diffPermission F wanted row ≠ [] ∨ row.retiredAt ≠ none) := by
 simp only [converged, setOf, List.mem_eraseDups, List.mem_append, planPermissions, List.mem_map,
  List.mem_filterMap, systemRow, Option.bind_eq_some_iff, Option.filter_eq_some_iff, beq_iff_eq]
 constructor
 · intro h
   cases h with
   | inl h =>
    obtain ⟨update, ⟨wanted, hw, row, ⟨hrow, hsystem⟩, hif⟩, hslug⟩ := h
    split_ifs at hif with hdiff
    cases hif
    rw [← hslug]
    refine ⟨wanted, hw, rfl, row, hrow, hsystem, Or.inl ?_⟩
    simpa using hdiff
   | inr h =>
    obtain ⟨wanted, hw, row, ⟨hrow, hsystem⟩, hif⟩ := h
    split_ifs at hif with hretired
    cases hif
    refine ⟨wanted, hw, rfl, row, hrow, hsystem, Or.inr ?_⟩
    simpa using hretired
 · rintro ⟨wanted, hw, hslug, row, hrow, hsystem, hdrift⟩
   rw [← hslug] at hrow ⊢
   cases hdrift with
   | inl hdiff =>
    exact Or.inl ⟨⟨wanted.slug, diffPermission F wanted row⟩,
     ⟨wanted, hw, row, ⟨hrow, hsystem⟩, by simp [hdiff]⟩, rfl⟩
   | inr hretired =>
    exact Or.inr ⟨wanted, hw, row, ⟨hrow, hsystem⟩, by simp [hretired]⟩

theorem mem_retire {slug : Name} :
  slug ∈ (planPermissions F manifest snapshot).retire ↔
   ∃ row ∈ snapshot.permissions, row.slug = slug ∧
    slug ∉ manifest.permissions.map (·.slug) ∧ row.managedBy = .system ∧ row.retiredAt = none := by
 simp only [planPermissions, List.mem_filterMap]
 constructor
 · rintro ⟨row, hrow, hif⟩
   split_ifs at hif with hlisted howner
   cases hif
   rw [List.contains_eq_mem, decide_eq_true_eq] at hlisted
   exact ⟨row, hrow, rfl, hlisted, howner⟩
 · rintro ⟨row, hrow, rfl, hlisted, howner⟩
   refine ⟨row, hrow, ?_⟩
   rw [if_neg (by simpa using hlisted), if_pos howner]

/-- Comparing a row with the manifest finds nothing exactly where every column
    agrees under its own rule. -/
structure Agrees (wanted : PermissionSeedDefinition ν) (row : PermissionSnapshotRow ν) : Prop where
  action : row.action = wanted.action
  subject : row.subject = wanted.subject
  fields : row.fields.Perm (wantedFields wanted)
  conditions : sortKeys (orEmpty row.conditions) = sortKeys (wantedConditions wanted)
  inverted : row.inverted = false
  reason : row.reason = some wanted.reason
  riskLevel : row.riskLevel = wanted.riskLevel

theorem sameSet_perm {a b : List Text} (h : sameSet a b = true) : a.Perm b := by
 simp only [sameSet, Bool.and_eq_true, beq_iff_eq] at h
 exact (sortTexts_perm a).symm.trans (h.2 ▸ sortTexts_perm b)

theorem diffPermission_nil {row : PermissionSnapshotRow ν} :
  diffPermission F wanted row = [] ↔
   ∀ field ∈ permissionFields, (comparePermissionField F wanted row field).2.2 = true := by
 simp only [diffPermission, List.filterMap_eq_nil_iff]
 apply forall_congr'
 intro field
 apply imp_congr_right
 intro _
 simp

theorem agrees_of_diff {row : PermissionSnapshotRow ν}
  (h : diffPermission F wanted row = []) : Agrees wanted row := by
 simp only [diffPermission_nil, permissionFields, List.forall_mem_cons, comparePermissionField,
  beq_iff_eq] at h
 obtain ⟨haction, hsubject, hfields, hconditions, hinverted, hreason, hrisk, _⟩ := h
 exact ⟨haction, hsubject, sameSet_perm hfields, stringify_injective hconditions, hinverted,
  hreason, hrisk⟩

end Plans

section Permissions

variable {ι ν : Type} (F : NumberFormat ν) (supply : IdSupply ι)
  (column : JsonColumn ν) (now : Date) (manifest : CatalogManifest ν)

theorem stored_obj_orEmpty (v : Json ν) (h : proper v = true) (hnull : v ≠ .null) :
  sortKeys (orEmpty (some (column.stored v))) = sortKeys v := by
 have hstored : column.stored v ≠ .null := by
  intro heq
  cases v with
  | null => exact hnull rfl
  | bool b => simp [JsonColumn.stored, fold] at heq
  | num n => simp [JsonColumn.stored, fold] at heq
  | str s => simp [JsonColumn.stored, fold] at heq
  | arr items => simp [JsonColumn.stored, fold] at heq
  | obj members => simp [JsonColumn.stored, fold] at heq
 have hor : orEmpty (some (column.stored v)) = column.stored v := by
  cases hv : column.stored v with
  | null => exact absurd hv hstored
  | _ => rfl
 rw [hor]
 exact sortKeys_stored column h

theorem wantedConditions_proper (wanted : PermissionSeedDefinition ν) :
  proper (wantedConditions wanted) = true ∧ wantedConditions wanted ≠ .null := by
 unfold wantedConditions
 cases wanted.conditions with
 | none => exact ⟨rfl, by simp [orEmpty, emptyObject]⟩
 | some document =>
  obtain ⟨v, hv⟩ := document
  cases v with
  | null => exact ⟨rfl, by simp [orEmpty, emptyObject]⟩
  | _ => exact ⟨hv, by simp [orEmpty]⟩

theorem sameSet_refl (a : List Text) : sameSet a a = true := by
 simp [sameSet]

theorem diff_withColumns (wanted : PermissionSeedDefinition ν) (row : PermissionSnapshotRow ν)
  (retiredAt : Option Date) :
  diffPermission F wanted { withColumns column wanted row with retiredAt := retiredAt } = [] := by
 obtain ⟨hproper, hnull⟩ := wantedConditions_proper wanted
 have hconditions := stored_obj_orEmpty column (wantedConditions wanted) hproper hnull
 rw [diffPermission_nil]
 intro field _
 cases field <;>
  simp [comparePermissionField, withColumns, sameSet_refl, canonicalJson, hconditions]

theorem diff_newPermission (wanted : PermissionSeedDefinition ν) :
  diffPermission F wanted (newPermission column wanted) = [] :=
 diff_withColumns F column wanted (newPermission column wanted) none

/-- What the database promises of the catalog tables: unique ids, slugs, names
    and pairs, and edges that refer to rows. -/
structure Tables.Wf (t : Tables ι ν) : Prop where
  permissionIds : (t.permissions.map (·.id)).Nodup
  slugs : (t.permissions.map fun s => s.row.slug).Nodup
  roleIds : (t.roles.map (·.id)).Nodup
  names : (t.roles.map fun s => s.row.name).Nodup
  pairs : (t.rolePermissions.map fun e => (e.roleId, e.permissionId)).Nodup
  roleRefs : ∀ e ∈ t.rolePermissions, ∃ s ∈ t.roles, s.id = e.roleId
  permissionRefs : ∀ e ∈ t.rolePermissions, ∃ s ∈ t.permissions, s.id = e.permissionId

variable {F manifest}

variable {t : Tables ι ν}

theorem snapshot_slugs [DecidableEq ι] (h : t.Wf) :
  ((loadCatalogSnapshot t).permissions.map (·.slug)).Nodup := by
 simpa [loadCatalogSnapshot, Function.comp_def] using h.slugs

theorem snapshot_names [DecidableEq ι] (h : t.Wf) :
  ((loadCatalogSnapshot t).roles.map (·.name)).Nodup := by
 simpa [loadCatalogSnapshot, Function.comp_def] using h.names

theorem created_slugs [DecidableEq ι] (hm : manifest.Wf) (h : t.Wf) :
  (t.permissions.map (fun s => s.row.slug) ++
   (planPermissions F manifest (loadCatalogSnapshot t)).create.map (·.slug)).Nodup := by
 rw [List.nodup_append]
 refine ⟨h.slugs, hm.slugs.sublist (List.filter_sublist.map _), ?_⟩
 intro a ha b hb hab
 obtain ⟨s, hs, rfl⟩ := List.mem_map.mp ha
 obtain ⟨wanted, hwanted, rfl⟩ := List.mem_map.mp hb
 exact (mem_create_permission hwanted).2 s.row (List.mem_map.mpr ⟨s, hs, rfl⟩) hab

theorem createPermissions_ok [DecidableEq ι] (hm : manifest.Wf) (h : t.Wf) (n : ℕ) :
  let plan := planPermissions F manifest (loadCatalogSnapshot t)
  ∃ added, createPermissions supply column plan ⟨t, n⟩ =
    .ok ⟨{ t with permissions := t.permissions ++ added }, n + plan.create.length⟩ ∧
   added.map (·.row) = plan.create.map (newPermission column) ∧
   ((t.permissions ++ added).map (·.id)).Nodup := by
 intro plan
 have hkeys : (t.permissions.map (fun s => s.row.slug) ++
   (plan.create.map (newPermission column)).map (·.slug)).Nodup := by
  rw [List.map_map]
  exact created_slugs hm h
 obtain ⟨added, hcreate, hrows, hids⟩ := createMany_new supply (·.slug) hkeys h.permissionIds
 refine ⟨added, ?_, hrows, hids⟩
 unfold createPermissions
 split_ifs with hnil
 · have hadded : added = [] := by
    rw [hnil] at hrows
    simpa using hrows
   rw [hadded, hnil]
   simp
 · simp only [hcreate, List.length_map]
   simp [assertWrote, bind, Except.bind]
   rfl

def retiredRow (retire : List Name) (row : PermissionSnapshotRow ν) : PermissionSnapshotRow ν :=
  if retire.contains row.slug = true ∧ row.managedBy = .system ∧ row.retiredAt = none then
    { row with retiredAt := some now }
  else row

theorem retirePermissions_ok (plan : PermissionPlan ν) (s : Session ι ν)
  (hcount : s.tables.permissions.countP (fun x => decide (x.row.slug ∈ plan.retire ∧
   x.row.managedBy = .system ∧ x.row.retiredAt = none)) = plan.retire.length) :
  retirePermissions now plan s =
   .ok ⟨{ s.tables with permissions := mapRows (retiredRow now plan.retire) s.tables.permissions },
      s.written + plan.retire.length⟩ := by
 have hmatch : (fun row : PermissionSnapshotRow ν => decide (plan.retire.contains row.slug = true ∧
   row.managedBy = .system ∧ row.retiredAt = none)) =
    fun row => decide (row.slug ∈ plan.retire ∧ row.managedBy = .system ∧ row.retiredAt = none) := by
  funext row
  simp
 unfold retirePermissions
 split_ifs with hnil
 · simp [hnil, mapRows, retiredRow]
 · rw [hmatch]
   have hrows := updateMany_rows
    (fun row => decide (row.slug ∈ plan.retire ∧ row.managedBy = .system ∧ row.retiredAt = none))
    (fun row => { row with retiredAt := some now }) s.tables.permissions
   simp only [decide_eq_true_eq] at hrows
   simp only [updateMany, hcount, assertWrote, if_true, bind, Except.bind] at hrows ⊢
   have hretired : (fun row : PermissionSnapshotRow ν =>
     if row.slug ∈ plan.retire ∧ row.managedBy = .system ∧ row.retiredAt = none then
      { row with retiredAt := some now } else row) = retiredRow now plan.retire := by
    funext row
    simp [retiredRow]
   rw [hrows, hretired]
   rfl

variable (manifest)

def settledRow (plan : PermissionPlan ν) (row : PermissionSnapshotRow ν) : PermissionSnapshotRow ν :=
  retiredRow now plan.retire (convergedRow column manifest (converged plan) row)

theorem convergedRow_slug (slugs : List Name) (row : PermissionSnapshotRow ν) :
  (convergedRow column manifest slugs row).slug = row.slug :=
 updated_keys (permissionData_slug column manifest) slugs row

theorem convergedRow_owner (slugs : List Name) (row : PermissionSnapshotRow ν) :
  (convergedRow column manifest slugs row).managedBy = row.managedBy := by
 unfold convergedRow updated permissionData
 split_ifs with h
 · cases wantedPermission manifest row.slug <;> rfl
 · rfl

theorem retiredRow_slug (retire : List Name) (row : PermissionSnapshotRow ν) :
  (retiredRow now retire row).slug = row.slug := by
 unfold retiredRow
 split_ifs <;> rfl

theorem retiredRow_owner (retire : List Name) (row : PermissionSnapshotRow ν) :
  (retiredRow now retire row).managedBy = row.managedBy := by
 unfold retiredRow
 split_ifs <;> rfl

theorem settledRow_slug (plan : PermissionPlan ν) (row : PermissionSnapshotRow ν) :
  (settledRow column now manifest plan row).slug = row.slug := by
 rw [settledRow, retiredRow_slug, convergedRow_slug]

theorem settledRow_owner (plan : PermissionPlan ν) (row : PermissionSnapshotRow ν) :
  (settledRow column now manifest plan row).managedBy = row.managedBy := by
 rw [settledRow, retiredRow_owner, convergedRow_owner]

theorem convergedRow_absent {slugs : List Name} {row : PermissionSnapshotRow ν}
  (h : row.slug ∉ slugs) : convergedRow column manifest slugs row = row := by
 simp [convergedRow, updated, h]

theorem settledRow_foreign (plan : PermissionPlan ν) {row : PermissionSnapshotRow ν}
  (h : row.managedBy ≠ .system) : settledRow column now manifest plan row = row := by
 have hconverged : convergedRow column manifest (converged plan) row = row := by
  simp [convergedRow, updated, permissionOwned, h]
 rw [settledRow, hconverged]
 simp [retiredRow, h]

variable {column manifest}

theorem converged_listed {snapshot : CatalogSnapshot ν} {slug : Name}
  (h : slug ∈ converged (planPermissions F manifest snapshot)) :
  slug ∈ manifest.permissions.map (·.slug) := by
 obtain ⟨wanted, hw, hslug, _⟩ := mem_converged.mp h
 exact List.mem_map.mpr ⟨wanted, hw, hslug⟩

theorem settledRow_listed {snapshot : CatalogSnapshot ν} (hm : manifest.Wf)
  (hslugs : (snapshot.permissions.map (·.slug)).Nodup) {row : PermissionSnapshotRow ν}
  (hrow : row ∈ snapshot.permissions) (hsystem : row.managedBy = .system)
  {wanted : PermissionSeedDefinition ν} (hw : wanted ∈ manifest.permissions)
  (hslug : wanted.slug = row.slug) :
  let settled := settledRow column now manifest (planPermissions F manifest snapshot) row
  diffPermission F wanted settled = [] ∧ settled.retiredAt = none := by
 intro settled
 have hfound : permissionRow snapshot row.slug = some row :=
  (permissionRow_some hslugs).mpr ⟨hrow, rfl⟩
 have hnot : row.slug ∉ (planPermissions F manifest snapshot).retire := by
  intro hmem
  obtain ⟨_, _, _, hlisted, _⟩ := mem_retire.mp hmem
  exact hlisted (List.mem_map.mpr ⟨wanted, hw, hslug⟩)
 have hsettled : settled =
   convergedRow column manifest (converged (planPermissions F manifest snapshot)) row := by
  simp only [settled, settledRow]
  unfold retiredRow
  rw [if_neg]
  rw [convergedRow_slug]
  exact fun h => hnot (List.contains_iff_mem.1 h.1)
 rw [hsettled]
 by_cases hmem : row.slug ∈ converged (planPermissions F manifest snapshot)
 · have hdata : convergedRow column manifest (converged (planPermissions F manifest snapshot)) row =
     { withColumns column wanted row with retiredAt := none } := by
    have hwanted := wantedPermission_mem hm hw
    rw [hslug] at hwanted
    simp [convergedRow, updated, permissionOwned, hsystem, hmem, permissionData, hwanted]
   rw [hdata]
   exact ⟨diff_withColumns F column wanted row none, rfl⟩
 · rw [convergedRow_absent column manifest hmem]
   by_contra hdrift
   apply hmem
   refine mem_converged.mpr ⟨wanted, hw, hslug, row, hfound, hsystem, ?_⟩
   rw [not_and_or] at hdrift
   exact hdrift

theorem settledRow_unlisted {snapshot : CatalogSnapshot ν} {row : PermissionSnapshotRow ν}
  (hrow : row ∈ snapshot.permissions) (hsystem : row.managedBy = .system)
  (hlisted : row.slug ∉ manifest.permissions.map (·.slug)) :
  (settledRow column now manifest (planPermissions F manifest snapshot) row).retiredAt ≠ none := by
 have hnot : row.slug ∉ converged (planPermissions F manifest snapshot) :=
  fun h => hlisted (converged_listed h)
 rw [settledRow, convergedRow_absent column manifest hnot, retiredRow]
 split_ifs with h
 · simp
 · intro hlive
   have hretire : row.slug ∈ (planPermissions F manifest snapshot).retire :=
    mem_retire.mpr ⟨row, hrow, rfl, hlisted, hsystem, hlive⟩
   exact h ⟨List.contains_iff_mem.2 hretire, hsystem, hlive⟩

theorem settledRow_new {snapshot : CatalogSnapshot ν} {wanted : PermissionSeedDefinition ν}
  (h : wanted ∈ (planPermissions F manifest snapshot).create) :
  settledRow column now manifest (planPermissions F manifest snapshot)
   (newPermission column wanted) = newPermission column wanted := by
 have habsent := (mem_create_permission h).2
 have hconverged : (newPermission column wanted).slug ∉
   converged (planPermissions F manifest snapshot) := by
  intro hmem
  obtain ⟨_, _, _, row, hrow, _⟩ := mem_converged.mp hmem
  obtain ⟨found, hfound, hslug, _⟩ := mapGet_map_mem hrow
  exact habsent found hfound hslug
 have hretire : (newPermission column wanted).slug ∉
   (planPermissions F manifest snapshot).retire := by
  intro hmem
  obtain ⟨row, hrow, hslug, _⟩ := mem_retire.mp hmem
  exact habsent row hrow hslug
 rw [settledRow, convergedRow_absent column manifest hconverged, retiredRow]
 exact if_neg fun hcond => hretire (List.contains_iff_mem.1 hcond.1)

theorem length_retire (snapshot : CatalogSnapshot ν) :
  (planPermissions F manifest snapshot).retire.length = snapshot.permissions.countP fun row =>
   decide (row.slug ∉ manifest.permissions.map (·.slug) ∧ row.managedBy = .system ∧
    row.retiredAt = none) := by
 simp only [planPermissions, List.length_filterMap_eq_countP]
 apply List.countP_congr
 intro row _
 by_cases hlisted : row.slug ∈ manifest.permissions.map (·.slug)
 · simp [hlisted]
 · by_cases hcond : row.managedBy = .system ∧ row.retiredAt = none
   · simp [hlisted, hcond]
   · simp [hlisted, hcond]

theorem retire_count {snapshot : CatalogSnapshot ν}
  (rows added : List (Stored ι (PermissionSnapshotRow ν)))
  (hrows : snapshot.permissions = rows.map (·.row))
  (hslugs : (snapshot.permissions.map (·.slug)).Nodup)
  (hadded : added.map (·.row) =
   (planPermissions F manifest snapshot).create.map (newPermission column)) :
  let plan := planPermissions F manifest snapshot
  (mapRows (convergedRow column manifest (converged plan)) (rows ++ added)).countP (fun x =>
   decide (x.row.slug ∈ plan.retire ∧ x.row.managedBy = .system ∧ x.row.retiredAt = none)) =
    plan.retire.length := by
 intro plan
 have hnew : ∀ x ∈ added, x.row.slug ∉ plan.retire := by
  intro x hx hmem
  obtain ⟨wanted, hwanted, hrow⟩ := List.mem_map.mp
   (hadded ▸ List.mem_map.mpr ⟨x, hx, rfl⟩)
  obtain ⟨row, hin, hslug, _⟩ := mem_retire.mp hmem
  rw [← hrow] at hslug
  exact (mem_create_permission hwanted).2 row hin hslug
 have hzero : (mapRows (convergedRow column manifest (converged plan)) added).countP (fun x =>
   decide (x.row.slug ∈ plan.retire ∧ x.row.managedBy = .system ∧ x.row.retiredAt = none)) = 0 := by
  rw [List.countP_eq_zero]
  intro x hx
  obtain ⟨y, hy, rfl⟩ := List.mem_map.mp hx
  simp only [decide_eq_true_eq, convergedRow_slug]
  exact fun h => hnew y hy h.1
 rw [mapRows_append, List.countP_append, hzero, Nat.add_zero, length_retire, hrows,
  List.countP_map, mapRows, List.countP_map]
 apply List.countP_congr
 intro x hx
 have hin : x.row ∈ snapshot.permissions := hrows ▸ List.mem_map.mpr ⟨x, hx, rfl⟩
 simp only [Function.comp_apply, decide_eq_true_eq, convergedRow_slug, convergedRow_owner]
 constructor
 · rintro ⟨hmem, hsystem, hlive⟩
   obtain ⟨row, hrow, hslug, hlisted, _, hlive'⟩ := mem_retire.mp hmem
   have heq : row = x.row := List.inj_on_of_nodup_map hslugs hrow hin hslug
   exact ⟨hlisted, hsystem, heq ▸ hlive'⟩
 · rintro ⟨hlisted, hsystem, hlive⟩
   have hnot : x.row.slug ∉ converged plan := fun h => hlisted (converged_listed h)
   rw [convergedRow_absent column manifest hnot]
   exact ⟨mem_retire.mpr ⟨x.row, hin, rfl, hlisted, hsystem, hlive⟩, hsystem, hlive⟩

theorem permissions_ok [DecidableEq ι] (hm : manifest.Wf) (h : t.Wf) (n : ℕ) :
  let plan := planPermissions F manifest (loadCatalogSnapshot t)
  ∃ added s₁ s₂, createPermissions supply column plan ⟨t, n⟩ = .ok s₁ ∧
   (converged plan).foldlM (convergePermission column manifest) s₁ = .ok s₂ ∧
   retirePermissions now plan s₂ =
    .ok ⟨{ t with permissions := mapRows (settledRow column now manifest plan) t.permissions ++ added },
     n + plan.create.length + (converged plan).length + plan.retire.length⟩ ∧
   added.map (·.row) = plan.create.map (newPermission column) ∧
   ((t.permissions ++ added).map (·.id)).Nodup := by
 intro plan
 obtain ⟨added, hcreate, hrows, hids⟩ := createPermissions_ok (F := F) supply column hm h n
 have hslugs := snapshot_slugs h
 have hin : ∀ row, row ∈ (loadCatalogSnapshot t).permissions ↔ ∃ x ∈ t.permissions, x.row = row := by
  intro row
  exact List.mem_map
 have hslugsAdded : added.map (fun x => x.row.slug) = plan.create.map (·.slug) := by
  have hmap := congrArg (List.map PermissionSnapshotRow.slug) hrows
  rw [List.map_map, List.map_map] at hmap
  exact hmap
 have hkeys : ((t.permissions ++ added).map fun x => x.row.slug).Nodup := by
  rw [List.map_append, hslugsAdded]
  exact created_slugs hm h
 have hconverge := convergePermissions_ok column manifest
  (nodup_eraseDups (plan.update.map (·.slug) ++ plan.revive))
   ⟨{ t with permissions := t.permissions ++ added }, n + plan.create.length⟩ hkeys
  (by
   intro slug hslug
   obtain ⟨wanted, hw, rfl, _⟩ := mem_converged.mp hslug
   rw [wantedPermission_mem hm hw]
   rfl)
  (by
   intro slug hslug
   obtain ⟨_, _, _, row, hrow, hsystem, _⟩ := mem_converged.mp hslug
   obtain ⟨hmem, rfl⟩ := (permissionRow_some hslugs).mp hrow
   obtain ⟨x, hx, hrow⟩ := (hin row).mp hmem
   refine ⟨x, List.mem_append_left _ hx, by rw [hrow], ?_⟩
   rw [hrow]
   simp [permissionOwned, hsystem])
 have hretire := retirePermissions_ok now plan
  ⟨{ t with permissions := mapRows (convergedRow column manifest (converged plan)) (t.permissions ++ added) },
   n + plan.create.length + (converged plan).length⟩
  (retire_count t.permissions added rfl hslugs hrows)
 refine ⟨added, _, _, hcreate, hconverge, hretire.trans ?_, hrows, hids⟩
 have hsettle : mapRows (settledRow column now manifest plan) added = added := by
  conv_rhs => rw [← List.map_id added]
  apply List.map_congr_left
  intro x hx
  obtain ⟨wanted, hwanted, hrow⟩ := List.mem_map.mp (hrows ▸ List.mem_map.mpr ⟨x, hx, rfl⟩)
  have hx' : x = ⟨x.id, newPermission column wanted⟩ := by rw [hrow]
  rw [hx', settledRow_new now hwanted]
  rfl
 have hall : mapRows (settledRow column now manifest plan) (t.permissions ++ added) =
   mapRows (settledRow column now manifest plan) t.permissions ++ added := by
  rw [mapRows_append, hsettle]
 rw [← hall]
 simp only [mapRows_mapRows]
 rfl

end Permissions

section Roles

variable {ι ν : Type} (supply : IdSupply ι) {manifest : CatalogManifest ν}

theorem mem_create_role {snapshot : CatalogSnapshot ν} {wanted : RoleSeedDefinition}
  (h : wanted ∈ (planRoles manifest snapshot).create) :
  wanted ∈ manifest.roles ∧ ∀ row ∈ snapshot.roles, row.name ≠ wanted.name := by
 obtain ⟨hmem, hnone⟩ := List.mem_filter.mp h
 exact ⟨hmem, mapGet_map_none (Option.isNone_iff_eq_none.mp hnone)⟩

def updatedNames (plan : RolePlan ν) : List Name := plan.update.map (·.name)

theorem mem_updatedNames {snapshot : CatalogSnapshot ν} {name : Name} :
  name ∈ updatedNames (planRoles manifest snapshot) ↔
   ∃ wanted ∈ manifest.roles, wanted.name = name ∧ ∃ row, roleRow snapshot name = some row ∧
    row.managedBy = .system ∧ row.description ≠ some wanted.description := by
 simp only [updatedNames, planRoles, List.mem_map, List.mem_filterMap, Option.bind_eq_some_iff]
 constructor
 · rintro ⟨update, ⟨wanted, hw, row, hrow, hif⟩, rfl⟩
   split_ifs at hif with hcond
   cases hif
   exact ⟨wanted, hw, rfl, row, hrow, hcond⟩
 · rintro ⟨wanted, hw, rfl, row, hrow, hcond⟩
   exact ⟨_, ⟨wanted, hw, row, hrow, if_pos hcond⟩, rfl⟩

theorem updatedNames_nodup (hm : manifest.Wf) (snapshot : CatalogSnapshot ν) :
  (updatedNames (planRoles manifest snapshot)).Nodup := by
 have hnames := hm.names
 rw [List.Nodup, List.pairwise_map] at hnames
 simp only [updatedNames, planRoles]
 rw [List.Nodup, List.pairwise_map, List.pairwise_filterMap]
 apply hnames.imp
 intro a b hab x hx y hy
 obtain ⟨_, _, hx⟩ := Option.bind_eq_some_iff.mp hx
 obtain ⟨_, _, hy⟩ := Option.bind_eq_some_iff.mp hy
 split_ifs at hx hy
 cases hx
 cases hy
 exact hab

theorem created_names [DecidableEq ι] {t : Tables ι ν} (hm : manifest.Wf) (h : t.Wf) :
  (t.roles.map (fun s => s.row.name) ++
   (planRoles manifest (loadCatalogSnapshot t)).create.map (·.name)).Nodup := by
 rw [List.nodup_append]
 refine ⟨h.names, hm.names.sublist (List.filter_sublist.map _), ?_⟩
 intro a ha b hb hab
 obtain ⟨s, hs, rfl⟩ := List.mem_map.mp ha
 obtain ⟨wanted, hwanted, rfl⟩ := List.mem_map.mp hb
 exact (mem_create_role hwanted).2 s.row (List.mem_map.mpr ⟨s, hs, rfl⟩) hab

theorem createRoles_ok [DecidableEq ι] {t : Tables ι ν} (hm : manifest.Wf) (h : t.Wf)
  (s : Session ι ν) (hs : s.tables.roles = t.roles) :
  let plan := planRoles manifest (loadCatalogSnapshot t)
  ∃ added, createRoles supply plan s =
    .ok ⟨{ s.tables with roles := t.roles ++ added }, s.written + plan.create.length⟩ ∧
   added.map (·.row) = plan.create.map newRole ∧ ((t.roles ++ added).map (·.id)).Nodup := by
 intro plan
 have hkeys : (t.roles.map (fun s => s.row.name) ++ (plan.create.map newRole).map (·.name)).Nodup := by
  rw [List.map_map]
  exact created_names hm h
 obtain ⟨added, hcreate, hrows, hids⟩ := createMany_new supply (·.name) hkeys h.roleIds
 refine ⟨added, ?_, hrows, hids⟩
 unfold createRoles
 rw [hs]
 split_ifs with hnil
 · have hadded : added = [] := by
    rw [hnil] at hrows
    simpa using hrows
   rw [hadded, hnil, List.append_nil, ← hs]
   rfl
 · simp only [hcreate, List.length_map]
   simp [assertWrote, bind, Except.bind]
   rfl

theorem updatedRole_name (names : List Name) (row : RoleSnapshotRow) :
  (updatedRole manifest names row).name = row.name :=
 updated_keys (roleData_name manifest) names row

theorem updatedRole_owner (names : List Name) (row : RoleSnapshotRow) :
  (updatedRole manifest names row).managedBy = row.managedBy := by
 unfold updatedRole updated roleData
 split_ifs with h
 · cases wantedRole manifest row.name <;> rfl
 · rfl

theorem updatedRole_foreign (names : List Name) {row : RoleSnapshotRow}
  (h : row.managedBy ≠ .system) : updatedRole manifest names row = row := by
 simp [updatedRole, updated, roleOwned, h]

theorem updatedRole_listed {snapshot : CatalogSnapshot ν} (hm : manifest.Wf)
  (hnames : (snapshot.roles.map (·.name)).Nodup) {row : RoleSnapshotRow}
  (hrow : row ∈ snapshot.roles) (hsystem : row.managedBy = .system) {wanted : RoleSeedDefinition}
  (hw : wanted ∈ manifest.roles) (hname : wanted.name = row.name) :
  (updatedRole manifest (updatedNames (planRoles manifest snapshot)) row).description =
   some wanted.description := by
 by_cases hmem : row.name ∈ updatedNames (planRoles manifest snapshot)
 · have hwanted := wantedRole_mem hm hw
   rw [hname] at hwanted
   simp [updatedRole, updated, roleOwned, hsystem, hmem, roleData, hwanted]
 · have hkept : updatedRole manifest (updatedNames (planRoles manifest snapshot)) row = row := by
    simp [updatedRole, updated, hmem]
   rw [hkept]
   by_contra hdrift
   apply hmem
   exact mem_updatedNames.mpr
    ⟨wanted, hw, hname, row, (roleRow_some hnames).mpr ⟨hrow, rfl⟩, hsystem, hdrift⟩

theorem roles_ok [DecidableEq ι] {t : Tables ι ν} (hm : manifest.Wf) (h : t.Wf) (s : Session ι ν)
  (hs : s.tables.roles = t.roles) :
  let plan := planRoles manifest (loadCatalogSnapshot t)
  ∃ added s₁, createRoles supply plan s = .ok s₁ ∧
   (plan.update.map (·.name)).foldlM (updateRole manifest) s₁ =
    .ok ⟨{ s.tables with roles := mapRows (updatedRole manifest (updatedNames plan)) t.roles ++ added },
     s.written + plan.create.length + plan.update.length⟩ ∧
   added.map (·.row) = plan.create.map newRole ∧ ((t.roles ++ added).map (·.id)).Nodup := by
 intro plan
 obtain ⟨added, hcreate, hrows, hids⟩ := createRoles_ok supply hm h s hs
 have hnames := snapshot_names h
 have hnamesAdded : added.map (fun x => x.row.name) = plan.create.map (·.name) := by
  have hmap := congrArg (List.map RoleSnapshotRow.name) hrows
  rw [List.map_map, List.map_map] at hmap
  exact hmap
 have hkeys : ((t.roles ++ added).map fun x => x.row.name).Nodup := by
  rw [List.map_append, hnamesAdded]
  exact created_names hm h
 have hupdate := updateRoles_ok manifest (updatedNames_nodup hm (loadCatalogSnapshot t))
  ⟨{ s.tables with roles := t.roles ++ added }, s.written + plan.create.length⟩ hkeys
  (by
   intro name hname
   obtain ⟨wanted, hw, rfl, _⟩ := mem_updatedNames.mp hname
   rw [wantedRole_mem hm hw]
   rfl)
  (by
   intro name hname
   obtain ⟨_, _, _, row, hrow, hsystem, _⟩ := mem_updatedNames.mp hname
   obtain ⟨hmem, rfl⟩ := (roleRow_some hnames).mp hrow
   obtain ⟨x, hx, hrow⟩ := List.mem_map.mp hmem
   refine ⟨x, List.mem_append_left _ hx, by rw [hrow], ?_⟩
   rw [hrow]
   simp [roleOwned, hsystem])
 refine ⟨added, _, hcreate, hupdate.trans ?_, hrows, hids⟩
 have hkept : mapRows (updatedRole manifest (updatedNames plan)) added = added := by
  conv_rhs => rw [← List.map_id added]
  apply List.map_congr_left
  intro x hx
  have hnot : x.row.name ∉ updatedNames plan := by
   intro hmem
   obtain ⟨_, _, _, row, hrow, _⟩ := mem_updatedNames.mp hmem
   obtain ⟨found, hfound, hname, _⟩ := mapGet_map_mem hrow
   obtain ⟨wanted, hwanted, hxrow⟩ := List.mem_map.mp (hrows ▸ List.mem_map.mpr ⟨x, hx, rfl⟩)
   rw [← hxrow] at hname
   exact (mem_create_role hwanted).2 found hfound hname
  simp [updatedRole, updated, hnot]
 rw [mapRows_append]
 simp only [plan] at hkept
 rw [hkept]
 simp [updatedNames, plan]

end Roles

end BoardGamesEmpire.Catalog
