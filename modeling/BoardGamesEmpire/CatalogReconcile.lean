import BoardGamesEmpire.CatalogRows

set_option autoImplicit false

/-!
# The reconciled catalog

A plan without conflicts, once applied, leaves tables that match the manifest:
planning again finds nothing to write, and no row of an operator or a plugin
was touched.
-/
namespace BoardGamesEmpire.Catalog
open JsText JsonText

section Edges

variable {ι ρ ν : Type}

theorem edgeKey_injective {a b c d : Name} (h : edgeKey a b = edgeKey c d) : a = c ∧ b = d := by
 have hsplit : ∀ (x y : Text) (u v : Text), nul ∉ x → nul ∉ u →
   x ++ nul :: y = u ++ nul :: v → x = u ∧ y = v := by
  intro x
  induction x with
  | nil =>
   intro y u v _ hu heq
   cases u with
   | nil => exact ⟨rfl, (List.cons.inj heq).2⟩
   | cons e u =>
    have := (List.cons.inj heq).1
    exact absurd (by rw [this]; exact List.mem_cons_self) hu
  | cons e x ih =>
   intro y u v hx hu heq
   cases u with
   | nil =>
    have := (List.cons.inj heq).1
    exact absurd (by rw [← this]; exact List.mem_cons_self) hx
   | cons f u =>
    obtain ⟨hef, htail⟩ := List.cons.inj heq
    obtain ⟨hxu, hyv⟩ := ih y u v (fun h => hx (List.mem_cons_of_mem _ h))
     (fun h => hu (List.mem_cons_of_mem _ h)) htail
    exact ⟨by rw [hef, hxu], hyv⟩
 obtain ⟨hac, hbd⟩ := hsplit a.val b.val c.val d.val a.2 c.2 h
 exact ⟨Subtype.ext hac, Subtype.ext hbd⟩

variable {row : RolePermissionSnapshotRow}

theorem listsEdge_iff {manifest : CatalogManifest ν} :
  listsEdge manifest row = true ↔ ⟨row.roleName, row.permissionSlug⟩ ∈ manifest.edges := by
 simp only [listsEdge, List.contains_eq_mem, decide_eq_true_eq, List.mem_map]
 constructor
 · rintro ⟨edge, hedge, hkey⟩
   obtain ⟨hrole, hslug⟩ := edgeKey_injective hkey
   rw [← hrole, ← hslug]
   exact hedge
 · intro h
   exact ⟨_, h, rfl⟩

theorem edgeRow_none {snapshot : CatalogSnapshot ν} {edge : RolePermissionEdge} :
  edgeRow snapshot edge = none ↔ ∀ row ∈ snapshot.rolePermissions,
   ¬ (row.roleName = edge.roleName ∧ row.permissionSlug = edge.permissionSlug) := by
 constructor
 · intro h row hrow heq
   apply mapGet_map_none h row hrow
   rw [heq.1, heq.2]
 · intro h
   cases hfound : edgeRow snapshot edge with
   | none => rfl
   | some row =>
    obtain ⟨found, hmem, hkey, _⟩ := mapGet_map_mem hfound
    exact absurd (edgeKey_injective hkey) (h found hmem)

variable [DecidableEq ι]

theorem rowOfId_some {rows : List (Stored ι ρ)} (hids : (rows.map (·.id)).Nodup) {id : ι} {row : ρ} :
  rowOfId rows id = some row ↔ ⟨id, row⟩ ∈ rows := by
 constructor
 · intro h
   obtain ⟨s, hs, rfl⟩ := Option.map_eq_some_iff.mp h
   have hid := List.find?_some hs
   rw [decide_eq_true_eq] at hid
   rw [← hid]
   exact List.mem_of_find?_eq_some hs
 · intro h
   cases hfind : rows.find? fun s => decide (s.id = id) with
   | none =>
    have hnone := List.find?_eq_none.mp hfind _ h
    simp at hnone
   | some s =>
    have hid := List.find?_some hfind
    rw [decide_eq_true_eq] at hid
    have heq : s = ⟨id, row⟩ :=
     List.inj_on_of_nodup_map hids (List.mem_of_find?_eq_some hfind) h hid
    rw [rowOfId, hfind, heq]
    rfl

omit [DecidableEq ι] in
theorem idOf_some {key : ρ → Name} {rows : List (Stored ι ρ)}
  (hkeys : (rows.map fun s => key s.row).Nodup) {name : Name} {id : ι} :
  idOf key rows name = some id ↔ ∃ s ∈ rows, key s.row = name ∧ s.id = id := by
 constructor
 · exact mapGet_map_mem
 · rintro ⟨s, hs, rfl, rfl⟩
   exact mapGet_unique (fun s : Stored ι ρ => key s.row) hkeys (fun s => s.id) hs

variable {t u : Tables ι ν} {e : RolePermissionRow ι}

theorem namedEdge_some (hroles : (t.roles.map (·.id)).Nodup)
  (hpermissions : (t.permissions.map (·.id)).Nodup) :
  namedEdge t e = some row ↔ ∃ role permission, ⟨e.roleId, role⟩ ∈ t.roles ∧
   ⟨e.permissionId, permission⟩ ∈ t.permissions ∧
    row = ⟨role.name, permission.slug, e.managedBy⟩ := by
 simp only [namedEdge, Option.bind_eq_some_iff, Option.map_eq_some_iff, rowOfId_some hroles,
  rowOfId_some hpermissions]
 constructor
 · rintro ⟨role, hrole, permission, hpermission, rfl⟩
   exact ⟨role, permission, hrole, hpermission, rfl⟩
 · rintro ⟨role, permission, hrole, hpermission, rfl⟩
   exact ⟨role, hrole, permission, hpermission, rfl⟩

omit [DecidableEq ι] in
theorem resolve_ok (hnames : (t.roles.map fun s => s.row.name).Nodup)
  (hslugs : (t.permissions.map fun s => s.row.slug).Nodup) {edge : RolePermissionEdge}
  {pair : ι × ι} :
  resolve t edge = .ok pair ↔ (∃ s ∈ t.roles, s.row.name = edge.roleName ∧ s.id = pair.1) ∧
   ∃ s ∈ t.permissions, s.row.slug = edge.permissionSlug ∧ s.id = pair.2 := by
 rw [← idOf_some hnames, ← idOf_some hslugs]
 unfold resolve requireDefined
 cases hrole : idOf (·.name) t.roles edge.roleName with
 | none => simp [bind, Except.bind]
 | some roleId =>
  cases hslug : idOf (·.slug) t.permissions edge.permissionSlug with
  | none => simp [bind, Except.bind]
  | some permissionId =>
   obtain ⟨first, second⟩ := pair
   simp [bind, Except.bind, pure, Except.pure]

omit [DecidableEq ι] in
theorem mapM_ok {α β ε : Type} {f : α → Except ε β} {l : List α} (h : ∀ x ∈ l, ∃ y, f x = .ok y) :
  ∃ ys, l.mapM f = .ok ys ∧ List.Forall₂ (fun x y => f x = .ok y) l ys := by
 induction l with
 | nil => exact ⟨[], rfl, .nil⟩
 | cons x l ih =>
  obtain ⟨y, hy⟩ := h x List.mem_cons_self
  obtain ⟨ys, hys, hall⟩ := ih fun z hz => h z (List.mem_cons_of_mem _ hz)
  refine ⟨y :: ys, ?_, .cons hy hall⟩
  rw [List.mapM_cons, hy]
  simp only [bind, Except.bind, hys]
  rfl

omit [DecidableEq ι] in
theorem forall₂_mem {α β : Type} {R : α → β → Prop} {l : List α} {ys : List β}
  (h : List.Forall₂ R l ys) :
  (∀ y ∈ ys, ∃ x ∈ l, R x y) ∧ ∀ x ∈ l, ∃ y ∈ ys, R x y := by
 induction h with
 | nil => simp
 | cons hxy _ ih =>
  refine ⟨?_, ?_⟩
  · intro y hy
    cases List.mem_cons.mp hy with
    | inl heq => exact ⟨_, List.mem_cons_self, heq ▸ hxy⟩
    | inr hmem =>
     obtain ⟨x, hx, hR⟩ := ih.1 y hmem
     exact ⟨x, List.mem_cons_of_mem _ hx, hR⟩
  · intro x hx
    cases List.mem_cons.mp hx with
    | inl heq => exact ⟨_, List.mem_cons_self, heq ▸ hxy⟩
    | inr hmem =>
     obtain ⟨y, hy, hR⟩ := ih.2 x hmem
     exact ⟨y, List.mem_cons_of_mem _ hy, hR⟩

omit [DecidableEq ι] in
theorem forall₂_nodup {α β : Type} {R : α → β → Prop} {l : List α} {ys : List β}
  (h : List.Forall₂ R l ys) (hinj : ∀ x x' y, R x y → R x' y → x = x') (hl : l.Nodup) :
  ys.Nodup := by
 induction h with
 | nil => exact List.nodup_nil
 | @cons x y _ _ hxy hrest ih =>
  rw [List.nodup_cons] at hl ⊢
  refine ⟨?_, ih hl.2⟩
  intro hy
  obtain ⟨x', hx', hR⟩ := (forall₂_mem hrest).1 y hy
  exact hl.1 (hinj x x' y hxy hR ▸ hx')

structure Kept (t u : Tables ι ν) : Prop where
  edges : u.rolePermissions = t.rolePermissions
  roleIds : (u.roles.map (·.id)).Nodup
  permissionIds : (u.permissions.map (·.id)).Nodup
  names : (u.roles.map fun s => s.row.name).Nodup
  slugs : (u.permissions.map fun s => s.row.slug).Nodup
  roles : ∀ s ∈ t.roles, ∃ row, ⟨s.id, row⟩ ∈ u.roles ∧ row.name = s.row.name
  permissions : ∀ s ∈ t.permissions, ∃ row, ⟨s.id, row⟩ ∈ u.permissions ∧ row.slug = s.row.slug

theorem Kept.named (h : t.Wf) (hk : Kept t u)
  (he : e ∈ t.rolePermissions) : ∃ row, namedEdge t e = some row ∧ namedEdge u e = some row := by
 obtain ⟨role, hrole, hroleId⟩ := h.roleRefs e he
 obtain ⟨permission, hpermission, hpermissionId⟩ := h.permissionRefs e he
 obtain ⟨role', hrole', hname⟩ := hk.roles role hrole
 obtain ⟨permission', hpermission', hslug⟩ := hk.permissions permission hpermission
 refine ⟨⟨role.row.name, permission.row.slug, e.managedBy⟩, ?_, ?_⟩
 · refine (namedEdge_some h.roleIds h.permissionIds).mpr ⟨role.row, permission.row, ?_, ?_, rfl⟩
   · rw [← hroleId]
     exact hrole
   · rw [← hpermissionId]
     exact hpermission
 · refine (namedEdge_some hk.roleIds hk.permissionIds).mpr ⟨role', permission', ?_, ?_, ?_⟩
   · rw [← hroleId]
     exact hrole'
   · rw [← hpermissionId]
     exact hpermission'
   · rw [hname, hslug]

theorem Kept.resolve_named (hk : Kept t u) (hnamed : namedEdge u e = some row) :
  resolve u ⟨row.roleName, row.permissionSlug⟩ = .ok (e.roleId, e.permissionId) := by
 obtain ⟨role, permission, hrole, hpermission, rfl⟩ :=
  (namedEdge_some hk.roleIds hk.permissionIds).mp hnamed
 exact (resolve_ok hk.names hk.slugs).mpr ⟨⟨_, hrole, rfl, rfl⟩, ⟨_, hpermission, rfl, rfl⟩⟩

theorem Kept.named_resolve (hk : Kept t u) (hnamed : namedEdge u e = some row)
  {edge : RolePermissionEdge} (hresolve : resolve u edge = .ok (e.roleId, e.permissionId)) :
  edge = ⟨row.roleName, row.permissionSlug⟩ := by
 obtain ⟨role, permission, hrole, hpermission, rfl⟩ :=
  (namedEdge_some hk.roleIds hk.permissionIds).mp hnamed
 obtain ⟨⟨r, hr, hname, hrid⟩, ⟨p, hp, hslug, hpid⟩⟩ := (resolve_ok hk.names hk.slugs).mp hresolve
 have hreq : r = ⟨e.roleId, role⟩ := List.inj_on_of_nodup_map hk.roleIds hr hrole hrid
 have hpeq : p = ⟨e.permissionId, permission⟩ :=
  List.inj_on_of_nodup_map hk.permissionIds hp hpermission hpid
 obtain ⟨name, slug⟩ := edge
 simp only at hname hslug
 rw [← hname, ← hslug, hreq, hpeq]

def obsolete (manifest : CatalogManifest ν) (row : RolePermissionSnapshotRow) : Bool :=
  !listsEdge manifest row && row.managedBy == .system

theorem obsolete_iff {manifest : CatalogManifest ν} :
  obsolete manifest row = true ↔
   ⟨row.roleName, row.permissionSlug⟩ ∉ manifest.edges ∧ row.managedBy = .system := by
 rw [← listsEdge_iff]
 simp [obsolete]

theorem deleteEdges_ok {manifest : CatalogManifest ν} (h : t.Wf) (s : Session ι ν)
  (hk : Kept t s.tables) :
  let plan := planRolePermissions manifest (loadCatalogSnapshot t)
  ∃ rest, deleteEdges plan s =
    .ok ⟨{ s.tables with rolePermissions := rest }, s.written + plan.delete.length⟩ ∧
   rest = t.rolePermissions.filter fun e => !(namedEdge t e).any (obsolete manifest) := by
 intro plan
 have hmem : ∀ edge, edge ∈ plan.delete ↔ ∃ e ∈ t.rolePermissions, ∃ row, namedEdge t e = some row ∧
   obsolete manifest row = true ∧ edge = ⟨row.roleName, row.permissionSlug⟩ := by
  intro edge
  simp only [plan, planRolePermissions, loadCatalogSnapshot, List.mem_map, List.mem_filter,
   List.mem_filterMap]
  constructor
  · rintro ⟨row, ⟨⟨e, he, hnamed⟩, hcond⟩, rfl⟩
    exact ⟨e, he, row, hnamed, hcond, rfl⟩
  · rintro ⟨e, he, row, hnamed, hcond, rfl⟩
    exact ⟨row, ⟨⟨e, he, hnamed⟩, hcond⟩, rfl⟩
 have hall : ∀ edge ∈ plan.delete, ∃ pair, resolve s.tables edge = .ok pair := by
  intro edge hedge
  obtain ⟨e, he, row, hnamed, _, rfl⟩ := (hmem edge).mp hedge
  obtain ⟨row', hrow, hrow'⟩ := hk.named h he
  rw [hnamed] at hrow
  cases hrow
  exact ⟨_, hk.resolve_named hrow'⟩
 obtain ⟨pairs, hpairs, hforall⟩ := mapM_ok hall
 have hdoomed : ∀ e ∈ t.rolePermissions,
   (e.managedBy = .system ∧ pairs.contains (e.roleId, e.permissionId) = true) ↔
    (namedEdge t e).any (obsolete manifest) = true := by
  intro e he
  obtain ⟨row, hrow, hrow'⟩ := hk.named h he
  have howner : row.managedBy = e.managedBy := by
   obtain ⟨_, _, _, _, rfl⟩ := (namedEdge_some h.roleIds h.permissionIds).mp hrow
   rfl
  rw [hrow, Option.any_some, obsolete_iff, howner, List.contains_eq_mem, decide_eq_true_eq]
  constructor
  · rintro ⟨hsystem, hpair⟩
    obtain ⟨edge, hedge, hresolve⟩ := (forall₂_mem hforall).1 _ hpair
    obtain ⟨_, _, row₂, _, hobsolete, rfl⟩ := (hmem edge).mp hedge
    have hnames := hk.named_resolve hrow' hresolve
    rw [← hnames]
    exact ⟨(obsolete_iff.mp hobsolete).1, hsystem⟩
  · rintro ⟨hlisted, hsystem⟩
    have hobsolete : obsolete manifest row = true :=
     obsolete_iff.mpr ⟨hlisted, howner.trans hsystem⟩
    obtain ⟨pair, hpair, hresolve⟩ := (forall₂_mem hforall).2 _
     ((hmem _).mpr ⟨e, he, row, hrow, hobsolete, rfl⟩)
    rw [hk.resolve_named hrow'] at hresolve
    cases hresolve
    exact ⟨hsystem, hpair⟩
 have hlength : plan.delete.length =
   t.rolePermissions.countP fun e => (namedEdge t e).any (obsolete manifest) := by
  simp only [plan, planRolePermissions, loadCatalogSnapshot, List.length_map]
  rw [← List.countP_eq_length_filter, List.countP_filterMap]
  apply List.countP_congr
  intro e _
  cases namedEdge t e <;> rfl
 refine ⟨_, ?_, rfl⟩
 unfold deleteEdges
 split_ifs with hnil
 · have hnone : ∀ e ∈ t.rolePermissions, (!(namedEdge t e).any (obsolete manifest)) = true := by
    rw [hnil, List.length_nil, eq_comm, List.countP_eq_zero] at hlength
    intro e he
    simpa using hlength e he
   rw [List.filter_eq_self.mpr hnone, hnil, ← hk.edges]
   rfl
 · have hcount : (s.tables.rolePermissions.countP fun row => decide (row.managedBy = .system ∧
     pairs.contains (row.roleId, row.permissionId) = true)) = plan.delete.length := by
    rw [hk.edges, hlength]
    apply List.countP_congr
    intro e he
    rw [decide_eq_true_eq]
    exact hdoomed e he
   have hrest : (s.tables.rolePermissions.filter fun row => decide ¬ (row.managedBy = .system ∧
     pairs.contains (row.roleId, row.permissionId) = true)) =
      t.rolePermissions.filter fun e => !(namedEdge t e).any (obsolete manifest) := by
    rw [hk.edges]
    apply List.filter_congr
    intro e he
    rw [decide_not, Bool.eq_iff_iff]
    simp only [Bool.not_eq_true', decide_eq_false_iff_not]
    rw [hdoomed e he, Bool.not_eq_true]
   simp only [hpairs, bind, Except.bind, hcount, hrest, assertWrote, if_true]
   rfl

omit [DecidableEq ι] in
theorem Kept.resolve_injective (hk : Kept t u) {a b : RolePermissionEdge}
  {pair : ι × ι} (ha : resolve u a = .ok pair) (hb : resolve u b = .ok pair) : a = b := by
 obtain ⟨⟨r, hr, hname, hrid⟩, ⟨p, hp, hslug, hpid⟩⟩ := (resolve_ok hk.names hk.slugs).mp ha
 obtain ⟨⟨r', hr', hname', hrid'⟩, ⟨p', hp', hslug', hpid'⟩⟩ := (resolve_ok hk.names hk.slugs).mp hb
 have hreq : r = r' := List.inj_on_of_nodup_map hk.roleIds hr hr' (hrid.trans hrid'.symm)
 have hpeq : p = p' := List.inj_on_of_nodup_map hk.permissionIds hp hp' (hpid.trans hpid'.symm)
 obtain ⟨name, slug⟩ := a
 obtain ⟨name', slug'⟩ := b
 simp only at hname hslug hname' hslug'
 rw [← hname, ← hslug, ← hname', ← hslug', hreq, hpeq]

def systemEdge (pair : ι × ι) : RolePermissionRow ι := ⟨pair.1, pair.2, .system⟩

omit [DecidableEq ι] in
theorem inserted_edges (rows : List (RolePermissionRow ι)) (pairs : List (ι × ι)) :
  inserted (fun _ pair => systemEdge pair) rows pairs = pairs.map systemEdge := by
 induction pairs generalizing rows with
 | nil => rfl
 | cons pair pairs ih => rw [inserted, ih, List.map_cons]

theorem createEdges_ok {manifest : CatalogManifest ν} (hm : manifest.Wf) (h : t.Wf) (hk : Kept t u)
  (hroles : ∀ wanted ∈ manifest.roles, ∃ s ∈ u.roles, s.row.name = wanted.name)
  (hpermissions : ∀ wanted ∈ manifest.permissions, ∃ s ∈ u.permissions, s.row.slug = wanted.slug)
  {rest : List (RolePermissionRow ι)} (hrest : rest.Sublist t.rolePermissions) (n : ℕ) :
  let plan := planRolePermissions manifest (loadCatalogSnapshot t)
  ∃ pairs, createEdges plan ⟨{ u with rolePermissions := rest }, n⟩ =
    .ok ⟨{ u with rolePermissions := rest ++ pairs.map systemEdge }, n + plan.create.length⟩ ∧
   List.Forall₂ (fun edge pair => resolve u edge = .ok pair) plan.create pairs ∧
   ((rest ++ pairs.map systemEdge).map fun e => (e.roleId, e.permissionId)).Nodup := by
 intro plan
 have hall : ∀ edge ∈ plan.create, ∃ pair, resolve u edge = .ok pair := by
  intro edge hedge
  have hlisted := (List.mem_filter.mp hedge).1
  obtain ⟨role, hrole, hname⟩ := List.mem_map.mp (hm.edgeRoles edge hlisted)
  obtain ⟨permission, hpermission, hslug⟩ := List.mem_map.mp (hm.edgeSlugs edge hlisted)
  obtain ⟨r, hr, hrname⟩ := hroles role hrole
  obtain ⟨p, hp, hpslug⟩ := hpermissions permission hpermission
  exact ⟨(r.id, p.id), (resolve_ok hk.names hk.slugs).mpr
   ⟨⟨r, hr, hrname.trans hname, rfl⟩, ⟨p, hp, hpslug.trans hslug, rfl⟩⟩⟩
 obtain ⟨pairs, hpairs, hforall⟩ := mapM_ok hall
 have hnodup : pairs.Nodup := by
  apply forall₂_nodup hforall
  · exact fun a b pair ha hb => hk.resolve_injective ha hb
  · exact hm.edges.filter _
 have hkeys : (rest.map (fun e => (e.roleId, e.permissionId)) ++ pairs.map id).Nodup := by
  rw [List.map_id, List.nodup_append]
  refine ⟨h.pairs.sublist (hrest.map _), hnodup, ?_⟩
  intro a ha b hb hab
  obtain ⟨e, he, rfl⟩ := List.mem_map.mp ha
  obtain ⟨edge, hedge, hresolve⟩ := (forall₂_mem hforall).1 b hb
  obtain ⟨row, hrow, hrow'⟩ := hk.named h (hrest.subset he)
  rw [← hab] at hresolve
  have hnames := hk.named_resolve hrow' hresolve
  have habsent := edgeRow_none.mp (Option.isNone_iff_eq_none.mp (List.mem_filter.mp hedge).2)
  apply habsent row (List.mem_filterMap.mpr ⟨e, hrest.subset he, hrow⟩)
  rw [hnames]
  exact ⟨rfl, rfl⟩
 have hadd : addEdges rest pairs = (rest ++ pairs.map systemEdge, pairs.length) := by
  rw [← inserted_edges rest pairs]
  exact @insertMany_new (RolePermissionRow ι) (ι × ι) (ι × ι) _
   (fun e => (e.roleId, e.permissionId)) id (fun _ pair => systemEdge pair) (fun _ _ => rfl)
   pairs rest hkeys
 have hlength : pairs.length = plan.create.length := hforall.length_eq.symm
 refine ⟨pairs, ?_, hforall, ?_⟩
 · unfold createEdges
   split_ifs with hnil
   · have hnone : pairs = [] := by
      rw [hnil] at hlength
      exact List.length_eq_zero_iff.mp hlength
     rw [hnone, hnil]
     simp
   · have hresolve : (resolve { u with rolePermissions := rest } :
       RolePermissionEdge → Except ReconcileError (ι × ι)) = resolve u := rfl
     simp only [hresolve, hpairs, bind, Except.bind, hadd, hlength, assertWrote, if_true]
     rfl
 · rw [List.map_append, List.map_map]
   rw [List.map_id] at hkeys
   have hmap : pairs.map ((fun e : RolePermissionRow ι => (e.roleId, e.permissionId)) ∘ systemEdge) =
     pairs := List.map_id pairs
   rw [hmap]
   exact hkeys

end Edges

section Converged

variable {ν : Type} {F : NumberFormat ν} {manifest : CatalogManifest ν} {snapshot : CatalogSnapshot ν}

/-- A snapshot in which every entry of the manifest is present and every System
    row agrees with it. -/
structure Settled (F : NumberFormat ν) (manifest : CatalogManifest ν) (snapshot : CatalogSnapshot ν) :
    Prop where
  slugs : (snapshot.permissions.map (·.slug)).Nodup
  names : (snapshot.roles.map (·.name)).Nodup
  permissions : ∀ wanted ∈ manifest.permissions, ∃ row ∈ snapshot.permissions, row.slug = wanted.slug
  listed : ∀ wanted ∈ manifest.permissions, ∀ row ∈ snapshot.permissions, row.slug = wanted.slug →
    row.managedBy = .system → diffPermission F wanted row = [] ∧ row.retiredAt = none
  unlisted : ∀ row ∈ snapshot.permissions, row.managedBy = .system →
    row.slug ∉ manifest.permissions.map (·.slug) → row.retiredAt ≠ none
  roles : ∀ wanted ∈ manifest.roles, ∃ row ∈ snapshot.roles, row.name = wanted.name
  described : ∀ wanted ∈ manifest.roles, ∀ row ∈ snapshot.roles, row.name = wanted.name →
    row.managedBy = .system → row.description = some wanted.description
  edges : ∀ edge ∈ manifest.edges, ∃ row ∈ snapshot.rolePermissions,
    row.roleName = edge.roleName ∧ row.permissionSlug = edge.permissionSlug
  systemEdges : ∀ row ∈ snapshot.rolePermissions, row.managedBy = .system →
    ⟨row.roleName, row.permissionSlug⟩ ∈ manifest.edges

theorem Settled.permissions_plan (h : Settled F manifest snapshot) :
  let plan := planPermissions F manifest snapshot
  plan.create = [] ∧ converged plan = [] ∧ plan.retire = [] := by
 refine ⟨?_, ?_, ?_⟩
 · apply List.eq_nil_iff_forall_not_mem.mpr
   intro wanted hmem
   obtain ⟨hw, habsent⟩ := mem_create_permission hmem
   obtain ⟨row, hrow, hslug⟩ := h.permissions wanted hw
   exact habsent row hrow hslug
 · apply List.eq_nil_iff_forall_not_mem.mpr
   intro slug hmem
   obtain ⟨wanted, hw, hslug, row, hfound, hsystem, hdrift⟩ := mem_converged.mp hmem
   obtain ⟨hrow, hrowSlug⟩ := (permissionRow_some h.slugs).mp hfound
   obtain ⟨hdiff, hlive⟩ := h.listed wanted hw row hrow (hrowSlug.trans hslug.symm) hsystem
   cases hdrift with
   | inl hd => exact hd hdiff
   | inr hr => exact hr hlive
 · apply List.eq_nil_iff_forall_not_mem.mpr
   intro slug hmem
   obtain ⟨row, hrow, hslug, hlisted, hsystem, hlive⟩ := mem_retire.mp hmem
   rw [← hslug] at hlisted
   exact h.unlisted row hrow hsystem hlisted hlive

theorem Settled.roles_plan (h : Settled F manifest snapshot) :
  let plan := planRoles manifest snapshot
  plan.create = [] ∧ plan.update = [] := by
 refine ⟨?_, ?_⟩
 · apply List.eq_nil_iff_forall_not_mem.mpr
   intro wanted hmem
   obtain ⟨hw, habsent⟩ := mem_create_role hmem
   obtain ⟨row, hrow, hname⟩ := h.roles wanted hw
   exact habsent row hrow hname
 · have hnames : updatedNames (planRoles manifest snapshot) = [] := by
    apply List.eq_nil_iff_forall_not_mem.mpr
    intro name hmem
    obtain ⟨wanted, hw, hname, row, hfound, hsystem, hdrift⟩ := mem_updatedNames.mp hmem
    obtain ⟨hrow, hrowName⟩ := (roleRow_some h.names).mp hfound
    exact hdrift (h.described wanted hw row hrow (hrowName.trans hname.symm) hsystem)
   exact List.map_eq_nil_iff.mp hnames

theorem Settled.rolePermissions_plan (h : Settled F manifest snapshot) :
  let plan := planRolePermissions manifest snapshot
  plan.create = [] ∧ plan.delete = [] := by
 refine ⟨?_, ?_⟩
 · apply List.filter_eq_nil_iff.mpr
   intro edge hedge hnone
   obtain ⟨row, hrow, hnames⟩ := h.edges edge hedge
   exact edgeRow_none.mp (Option.isNone_iff_eq_none.mp hnone) row hrow hnames
 · apply List.map_eq_nil_iff.mpr
   apply List.filter_eq_nil_iff.mpr
   intro row hrow hcond
   obtain ⟨hlisted, hsystem⟩ := obsolete_iff.mp hcond
   exact hlisted (h.systemEdges row hrow hsystem)

theorem Settled.countMutations (h : Settled F manifest snapshot) :
  countMutations (planReconcile F manifest snapshot) = 0 := by
 obtain ⟨hcreate, hconverged, hretire⟩ := h.permissions_plan
 obtain ⟨hroles, hupdate⟩ := h.roles_plan
 obtain ⟨hedges, hdelete⟩ := h.rolePermissions_plan
 simp [Catalog.countMutations, planReconcile, hcreate, hconverged, hretire, hroles, hupdate, hedges,
  hdelete]

end Converged

section Reconcile

variable {ι ν : Type} [DecidableEq ι] (F : NumberFormat ν) (supply : IdSupply ι)
  (column : JsonColumn ν) (now : Date) (manifest : CatalogManifest ν)

/-- The catalog after a reconcile of the tables `t`. -/
structure Reconciled (t : Tables ι ν) (done : Session ι ν) : Prop where
  wf : done.tables.Wf
  converges : countMutations (planReconcile F manifest (loadCatalogSnapshot done.tables)) = 0
  foreignPermissions : done.tables.permissions.filter (·.row.managedBy != .system) =
    t.permissions.filter (·.row.managedBy != .system)
  foreignRoles : done.tables.roles.filter (·.row.managedBy != .system) =
    t.roles.filter (·.row.managedBy != .system)
  foreignEdges : done.tables.rolePermissions.filter (·.managedBy != .system) =
    t.rolePermissions.filter (·.managedBy != .system)
  permissions : ∀ wanted ∈ manifest.permissions, ∃ s ∈ done.tables.permissions,
    s.row.slug = wanted.slug ∧
      (s.row.managedBy = .system → s.row.retiredAt = none ∧ Agrees wanted s.row)
  roles : ∀ wanted ∈ manifest.roles, ∃ s ∈ done.tables.roles, s.row.name = wanted.name ∧
    (s.row.managedBy = .system → s.row.description = some wanted.description)
  edges : ∀ edge ∈ manifest.edges, ∃ row ∈ (loadCatalogSnapshot done.tables).rolePermissions,
    row.roleName = edge.roleName ∧ row.permissionSlug = edge.permissionSlug
  systemEdges : ∀ row ∈ (loadCatalogSnapshot done.tables).rolePermissions,
    row.managedBy = .system → ⟨row.roleName, row.permissionSlug⟩ ∈ manifest.edges
  written : done.written = countMutations (planReconcile F manifest (loadCatalogSnapshot t))

omit [DecidableEq ι] in
theorem foreign_rows {ρ : Type} (owner : ρ → PermissionOwner) {f : ρ → ρ}
  (hforeign : ∀ row, owner row ≠ .system → f row = row) (howner : ∀ row, owner (f row) = owner row)
  (rows added : List (Stored ι ρ)) (hadded : ∀ s ∈ added, owner s.row = .system) :
  (mapRows f rows ++ added).filter (fun s => owner s.row != .system) =
   rows.filter fun s => owner s.row != .system := by
 have hnone : added.filter (fun s => owner s.row != .system) = [] := by
  apply List.filter_eq_nil_iff.mpr
  intro s hs
  simp [hadded s hs]
 rw [List.filter_append, hnone, List.append_nil]
 induction rows with
 | nil => rfl
 | cons s rows ih =>
  change List.filter _ (⟨s.id, f s.row⟩ :: mapRows f rows) = _
  by_cases hs : owner s.row = .system
  · rw [List.filter_cons_of_neg (by simp [howner, hs]), List.filter_cons_of_neg (by simp [hs]), ih]
  · rw [List.filter_cons_of_pos (by simp [howner, hs]), List.filter_cons_of_pos (by simp [hs]), ih,
     hforeign s.row hs]

variable {F manifest}

variable {t : Tables ι ν}

theorem settled_permissions (hm : manifest.Wf) (h : t.Wf)
  {added : List (Stored ι (PermissionSnapshotRow ν))}
  (hadded : added.map (·.row) =
   (planPermissions F manifest (loadCatalogSnapshot t)).create.map (newPermission column)) :
  let plan := planPermissions F manifest (loadCatalogSnapshot t)
  let rows := mapRows (settledRow column now manifest plan) t.permissions ++ added
  (rows.map fun s => s.row.slug).Nodup ∧
  (∀ wanted ∈ manifest.permissions, ∃ s ∈ rows, s.row.slug = wanted.slug) ∧
  (∀ wanted ∈ manifest.permissions, ∀ s ∈ rows, s.row.slug = wanted.slug →
   s.row.managedBy = .system → diffPermission F wanted s.row = [] ∧ s.row.retiredAt = none) ∧
  ∀ s ∈ rows, s.row.managedBy = .system → s.row.slug ∉ manifest.permissions.map (·.slug) →
   s.row.retiredAt ≠ none := by
 intro plan rows
 have hslugs := snapshot_slugs h
 have hold : ∀ s ∈ t.permissions, s.row ∈ (loadCatalogSnapshot t).permissions :=
  fun s hs => List.mem_map.mpr ⟨s, hs, rfl⟩
 have hnew : ∀ s ∈ added, ∃ wanted ∈ plan.create, s.row = newPermission column wanted := by
  intro s hs
  obtain ⟨wanted, hwanted, hrow⟩ := List.mem_map.mp (hadded ▸ List.mem_map.mpr ⟨s, hs, rfl⟩)
  exact ⟨wanted, hwanted, hrow.symm⟩
 have hslugsAdded : added.map (fun x => x.row.slug) = plan.create.map (·.slug) := by
  have hmap := congrArg (List.map PermissionSnapshotRow.slug) hadded
  rw [List.map_map, List.map_map] at hmap
  exact hmap
 refine ⟨?_, ?_, ?_, ?_⟩
 · rw [List.map_append, mapRows_keys (settledRow_slug column now manifest plan), hslugsAdded]
   exact created_slugs hm h
 · intro wanted hw
   cases hrow : permissionRow (loadCatalogSnapshot t) wanted.slug with
   | none =>
    have hcreate : wanted ∈ plan.create := List.mem_filter.mpr ⟨hw, by rw [hrow]; rfl⟩
    have hmem : newPermission column wanted ∈ added.map (·.row) :=
     hadded ▸ List.mem_map.mpr ⟨wanted, hcreate, rfl⟩
    obtain ⟨s, hs, hsrow⟩ := List.mem_map.mp hmem
    exact ⟨s, List.mem_append_right _ hs, by rw [hsrow]; rfl⟩
   | some row =>
    obtain ⟨hin, hslug⟩ := (permissionRow_some hslugs).mp hrow
    obtain ⟨s, hs, rfl⟩ := List.mem_map.mp hin
    refine ⟨_, List.mem_append_left _ (List.mem_map.mpr ⟨s, hs, rfl⟩), ?_⟩
    rw [settledRow_slug, hslug]
 · intro wanted hw s hs hslug hsystem
   cases List.mem_append.mp hs with
   | inl hs =>
    obtain ⟨x, hx, rfl⟩ := List.mem_map.mp hs
    simp only [settledRow_slug, settledRow_owner] at hslug hsystem
    exact settledRow_listed now hm hslugs (hold x hx) hsystem hw hslug.symm
   | inr hs =>
    obtain ⟨created, hcreated, hrow⟩ := hnew s hs
    have heq : created = wanted := by
     apply List.inj_on_of_nodup_map hm.slugs (mem_create_permission hcreated).1 hw
     rw [← hslug, hrow]
     rfl
    rw [hrow, heq]
    exact ⟨diff_newPermission F column wanted, rfl⟩
 · intro s hs hsystem hlisted
   cases List.mem_append.mp hs with
   | inl hs =>
    obtain ⟨x, hx, rfl⟩ := List.mem_map.mp hs
    simp only [settledRow_slug, settledRow_owner] at hlisted hsystem
    exact settledRow_unlisted now (hold x hx) hsystem hlisted
   | inr hs =>
    obtain ⟨created, hcreated, hrow⟩ := hnew s hs
    rw [hrow] at hlisted
    exact absurd (List.mem_map.mpr ⟨created, (mem_create_permission hcreated).1, rfl⟩) hlisted

theorem settled_roles (hm : manifest.Wf) (h : t.Wf)
  {added : List (Stored ι RoleSnapshotRow)}
  (hadded : added.map (·.row) =
   (planRoles manifest (loadCatalogSnapshot t)).create.map newRole) :
  let plan := planRoles manifest (loadCatalogSnapshot t)
  let rows := mapRows (updatedRole manifest (updatedNames plan)) t.roles ++ added
  (rows.map fun s => s.row.name).Nodup ∧
  (∀ wanted ∈ manifest.roles, ∃ s ∈ rows, s.row.name = wanted.name) ∧
  ∀ wanted ∈ manifest.roles, ∀ s ∈ rows, s.row.name = wanted.name →
   s.row.managedBy = .system → s.row.description = some wanted.description := by
 intro plan rows
 have hnames := snapshot_names h
 have hnamesAdded : added.map (fun x => x.row.name) = plan.create.map (·.name) := by
  have hmap := congrArg (List.map RoleSnapshotRow.name) hadded
  rw [List.map_map, List.map_map] at hmap
  exact hmap
 refine ⟨?_, ?_, ?_⟩
 · rw [List.map_append, mapRows_keys (updatedRole_name _), hnamesAdded]
   exact created_names hm h
 · intro wanted hw
   cases hrow : roleRow (loadCatalogSnapshot t) wanted.name with
   | none =>
    have hcreate : wanted ∈ plan.create := List.mem_filter.mpr ⟨hw, by rw [hrow]; rfl⟩
    have hmem : newRole wanted ∈ added.map (·.row) :=
     hadded ▸ List.mem_map.mpr ⟨wanted, hcreate, rfl⟩
    obtain ⟨s, hs, hsrow⟩ := List.mem_map.mp hmem
    exact ⟨s, List.mem_append_right _ hs, by rw [hsrow]; rfl⟩
   | some row =>
    obtain ⟨hin, hname⟩ := (roleRow_some hnames).mp hrow
    obtain ⟨s, hs, rfl⟩ := List.mem_map.mp hin
    refine ⟨_, List.mem_append_left _ (List.mem_map.mpr ⟨s, hs, rfl⟩), ?_⟩
    rw [updatedRole_name, hname]
 · intro wanted hw s hs hname hsystem
   cases List.mem_append.mp hs with
   | inl hs =>
    obtain ⟨x, hx, rfl⟩ := List.mem_map.mp hs
    simp only [updatedRole_name, updatedRole_owner] at hname hsystem
    exact updatedRole_listed hm hnames (List.mem_map.mpr ⟨x, hx, rfl⟩) hsystem hw hname.symm
   | inr hs =>
    obtain ⟨created, hcreated, hrow⟩ := List.mem_map.mp (hadded ▸ List.mem_map.mpr ⟨s, hs, rfl⟩)
    have heq : created = wanted := by
     apply List.inj_on_of_nodup_map hm.names (mem_create_role hcreated).1 hw
     rw [← hname, ← hrow]
     rfl
    rw [← hrow, heq]
    rfl

theorem settled_edges {t u : Tables ι ν} (h : t.Wf) (hk : Kept t u) {pairs : List (ι × ι)}
  (hpairs : List.Forall₂ (fun edge pair => resolve u edge = .ok pair)
   (planRolePermissions manifest (loadCatalogSnapshot t)).create pairs) :
  let edges := t.rolePermissions.filter (fun e => !(namedEdge t e).any (obsolete manifest)) ++
   pairs.map systemEdge
  let rows := edges.filterMap (namedEdge u)
  (∀ edge ∈ manifest.edges, ∃ row ∈ rows,
   row.roleName = edge.roleName ∧ row.permissionSlug = edge.permissionSlug) ∧
  ∀ row ∈ rows, row.managedBy = .system → ⟨row.roleName, row.permissionSlug⟩ ∈ manifest.edges := by
 intro edges rows
 refine ⟨?_, ?_⟩
 · intro edge hedge
   cases hrow : edgeRow (loadCatalogSnapshot t) edge with
   | none =>
    have hcreate : edge ∈ (planRolePermissions manifest (loadCatalogSnapshot t)).create :=
     List.mem_filter.mpr ⟨hedge, by rw [hrow]; rfl⟩
    obtain ⟨pair, hpair, hresolve⟩ := (forall₂_mem hpairs).2 edge hcreate
    obtain ⟨⟨r, hr, hname, hrid⟩, ⟨p, hp, hslug, hpid⟩⟩ :=
     (resolve_ok hk.names hk.slugs).mp hresolve
    refine ⟨⟨edge.roleName, edge.permissionSlug, .system⟩, ?_, rfl, rfl⟩
    refine List.mem_filterMap.mpr ⟨systemEdge pair,
     List.mem_append_right _ (List.mem_map.mpr ⟨pair, hpair, rfl⟩), ?_⟩
    refine (namedEdge_some hk.roleIds hk.permissionIds).mpr ⟨r.row, p.row, ?_, ?_, ?_⟩
    · rw [show (systemEdge pair).roleId = r.id from hrid.symm]
      exact hr
    · rw [show (systemEdge pair).permissionId = p.id from hpid.symm]
      exact hp
    · rw [hname, hslug]
      rfl
   | some row =>
    obtain ⟨found, hfound, hkey, _⟩ := mapGet_map_mem hrow
    obtain ⟨hrole, hslug⟩ := edgeKey_injective hkey
    obtain ⟨e, he, hnamed⟩ := List.mem_filterMap.mp hfound
    obtain ⟨row', hrow', hkept⟩ := hk.named h he
    rw [hnamed] at hrow'
    cases hrow'
    have hlisted : obsolete manifest found = false := by
     rw [Bool.eq_false_iff]
     intro hobsolete
     apply (obsolete_iff.mp hobsolete).1
     rw [hrole, hslug]
     exact hedge
    refine ⟨found, List.mem_filterMap.mpr ⟨e, List.mem_append_left _ ?_, hkept⟩, hrole, hslug⟩
    exact List.mem_filter.mpr ⟨he, by rw [hnamed, Option.any_some, hlisted]; rfl⟩
 · intro row hrow hsystem
   obtain ⟨e, he, hnamed⟩ := List.mem_filterMap.mp hrow
   cases List.mem_append.mp he with
   | inl hin =>
    obtain ⟨hmem, hkeep⟩ := List.mem_filter.mp hin
    obtain ⟨row', hrow', hkept⟩ := hk.named h hmem
    rw [hnamed] at hkept
    cases hkept
    by_contra hlisted
    rw [hrow', Option.any_some, obsolete_iff.mpr ⟨hlisted, hsystem⟩] at hkeep
    cases hkeep
   | inr hin =>
    obtain ⟨pair, hpair, rfl⟩ := List.mem_map.mp hin
    obtain ⟨edge, hedge, hresolve⟩ := (forall₂_mem hpairs).1 pair hpair
    rw [← hk.named_resolve hnamed hresolve]
    exact (List.mem_filter.mp hedge).1

theorem foreign_edges {manifest : CatalogManifest ν} (h : t.Wf) (pairs : List (ι × ι)) :
  (t.rolePermissions.filter (fun e => !(namedEdge t e).any (obsolete manifest)) ++
   pairs.map systemEdge).filter (·.managedBy != .system) =
    t.rolePermissions.filter (·.managedBy != .system) := by
 have hnone : (pairs.map systemEdge).filter (·.managedBy != .system) = [] := by
  apply List.filter_eq_nil_iff.mpr
  intro e he
  obtain ⟨pair, _, rfl⟩ := List.mem_map.mp he
  simp [systemEdge]
 rw [List.filter_append, hnone, List.append_nil, List.filter_filter]
 apply List.filter_congr
 intro e he
 by_cases hsystem : e.managedBy = .system
 · simp [hsystem]
 · have hkeep : (namedEdge t e).any (obsolete manifest) = false := by
    cases hnamed : namedEdge t e with
    | none => rfl
    | some row =>
     obtain ⟨_, _, _, _, rfl⟩ := (namedEdge_some h.roleIds h.permissionIds).mp hnamed
     rw [Option.any_some, Bool.eq_false_iff]
     exact fun hobsolete => hsystem (obsolete_iff.mp hobsolete).2
   simp [hkeep]

omit [DecidableEq ι] in
theorem kept_rows {f : PermissionSnapshotRow ν → PermissionSnapshotRow ν}
  (hf : ∀ row, (f row).slug = row.slug) {g : RoleSnapshotRow → RoleSnapshotRow}
  (hg : ∀ row, (g row).name = row.name) {addedP : List (Stored ι (PermissionSnapshotRow ν))}
  {addedR : List (Stored ι RoleSnapshotRow)} (hidsP : ((t.permissions ++ addedP).map (·.id)).Nodup)
  (hidsR : ((t.roles ++ addedR).map (·.id)).Nodup)
  (hslugs : ((mapRows f t.permissions ++ addedP).map fun s => s.row.slug).Nodup)
  (hnames : ((mapRows g t.roles ++ addedR).map fun s => s.row.name).Nodup) :
  Kept t ⟨mapRows f t.permissions ++ addedP, mapRows g t.roles ++ addedR, t.rolePermissions⟩ where
 edges := rfl
 roleIds := by simpa only [List.map_append, mapRows_ids] using hidsR
 permissionIds := by simpa only [List.map_append, mapRows_ids] using hidsP
 names := hnames
 slugs := hslugs
 roles s hs := ⟨g s.row, List.mem_append_left _ (List.mem_map.mpr ⟨s, hs, rfl⟩), hg s.row⟩
 permissions s hs := ⟨f s.row, List.mem_append_left _ (List.mem_map.mpr ⟨s, hs, rfl⟩), hf s.row⟩

omit [DecidableEq ι] in
theorem wf_edges {t u : Tables ι ν} (h : t.Wf) (hk : Kept t u) {rest : List (RolePermissionRow ι)}
  (hrest : rest.Sublist t.rolePermissions) {create : List RolePermissionEdge} {pairs : List (ι × ι)}
  (hpairs : List.Forall₂ (fun edge pair => resolve u edge = .ok pair) create pairs)
  (hnodup : ((rest ++ pairs.map systemEdge).map fun e => (e.roleId, e.permissionId)).Nodup) :
  Tables.Wf { u with rolePermissions := rest ++ pairs.map systemEdge } where
 permissionIds := hk.permissionIds
 slugs := hk.slugs
 roleIds := hk.roleIds
 names := hk.names
 pairs := hnodup
 roleRefs := by
  intro e he
  cases List.mem_append.mp he with
  | inl hin =>
   obtain ⟨s, hs, hid⟩ := h.roleRefs e (hrest.subset hin)
   obtain ⟨row, hrow, _⟩ := hk.roles s hs
   exact ⟨_, hrow, hid⟩
  | inr hin =>
   obtain ⟨pair, hpair, rfl⟩ := List.mem_map.mp hin
   obtain ⟨edge, _, hresolve⟩ := (forall₂_mem hpairs).1 pair hpair
   obtain ⟨⟨s, hs, _, hid⟩, _⟩ := (resolve_ok hk.names hk.slugs).mp hresolve
   exact ⟨s, hs, hid⟩
 permissionRefs := by
  intro e he
  cases List.mem_append.mp he with
  | inl hin =>
   obtain ⟨s, hs, hid⟩ := h.permissionRefs e (hrest.subset hin)
   obtain ⟨row, hrow, _⟩ := hk.permissions s hs
   exact ⟨_, hrow, hid⟩
  | inr hin =>
   obtain ⟨pair, hpair, rfl⟩ := List.mem_map.mp hin
   obtain ⟨edge, _, hresolve⟩ := (forall₂_mem hpairs).1 pair hpair
   obtain ⟨_, ⟨s, hs, _, hid⟩⟩ := (resolve_ok hk.names hk.slugs).mp hresolve
   exact ⟨s, hs, hid⟩

def reconciledPermissions (F : NumberFormat ν) (manifest : CatalogManifest ν) (t : Tables ι ν)
    (added : List (Stored ι (PermissionSnapshotRow ν))) : List (Stored ι (PermissionSnapshotRow ν)) :=
  mapRows (settledRow column now manifest (planPermissions F manifest (loadCatalogSnapshot t)))
    t.permissions ++ added

def reconciledRoles (manifest : CatalogManifest ν) (t : Tables ι ν)
    (added : List (Stored ι RoleSnapshotRow)) : List (Stored ι RoleSnapshotRow) :=
  mapRows (updatedRole manifest (updatedNames (planRoles manifest (loadCatalogSnapshot t)))) t.roles ++
    added

def keptEdges (manifest : CatalogManifest ν) (t : Tables ι ν) : List (RolePermissionRow ι) :=
  t.rolePermissions.filter fun e => !(namedEdge t e).any (obsolete manifest)

omit [DecidableEq ι] in
theorem bind_ok {ε α β : Type} {x : Except ε α} {f : α → Except ε β} {a : α} {b : β}
  (hx : x = .ok a) (hf : f a = .ok b) : (x >>= f) = .ok b := by
 rw [hx]
 exact hf

theorem applyReconcilePlan_ok (hm : manifest.Wf) (h : t.Wf) :
  let plan := planReconcile F manifest (loadCatalogSnapshot t)
  ∃ addedP addedR pairs,
   let u : Tables ι ν := ⟨reconciledPermissions column now F manifest t addedP,
    reconciledRoles manifest t addedR, t.rolePermissions⟩
   applyReconcilePlan supply column now manifest plan t =
    .ok ⟨{ u with rolePermissions := keptEdges manifest t ++ pairs.map systemEdge },
     countMutations plan⟩ ∧
   addedP.map (·.row) = plan.permissions.create.map (newPermission column) ∧
   addedR.map (·.row) = plan.roles.create.map newRole ∧ Kept t u ∧
   List.Forall₂ (fun edge pair => resolve u edge = .ok pair) plan.rolePermissions.create pairs ∧
   ((keptEdges manifest t ++ pairs.map systemEdge).map
    fun e => (e.roleId, e.permissionId)).Nodup := by
 intro plan
 obtain ⟨addedP, s₁, s₂, hcreateP, hconverge, hretire, haddedP, hidsP⟩ :=
  @permissions_ok ι ν F supply column now manifest t _ hm h 0
 obtain ⟨hslugs, hpresent, _⟩ := settled_permissions column now hm h haddedP
 obtain ⟨addedR, s₃, hcreateR, hupdate, haddedR, hidsR⟩ := roles_ok supply hm h
  ⟨{ t with permissions := reconciledPermissions column now F manifest t addedP },
   0 + plan.permissions.create.length + (converged plan.permissions).length +
    plan.permissions.retire.length⟩ rfl
 obtain ⟨hnames, hroles, _⟩ := settled_roles hm h haddedR
 have hk : Kept t ⟨reconciledPermissions column now F manifest t addedP,
   reconciledRoles manifest t addedR, t.rolePermissions⟩ :=
  kept_rows (settledRow_slug column now manifest _) (updatedRole_name _) hidsP hidsR hslugs hnames
 obtain ⟨_, hdelete, rfl⟩ := @deleteEdges_ok ι ν _ t manifest h
  ⟨⟨reconciledPermissions column now F manifest t addedP, reconciledRoles manifest t addedR,
   t.rolePermissions⟩, 0 + plan.permissions.create.length + (converged plan.permissions).length +
    plan.permissions.retire.length + plan.roles.create.length + plan.roles.update.length⟩ hk
 obtain ⟨pairs, hcreateE, hpairs, hnodup⟩ :=
  createEdges_ok hm h hk hroles hpresent List.filter_sublist
   (0 + plan.permissions.create.length + (converged plan.permissions).length +
    plan.permissions.retire.length + plan.roles.create.length + plan.roles.update.length +
    plan.rolePermissions.delete.length)
 refine ⟨addedP, addedR, pairs, ?_, haddedP, haddedR, hk, hpairs, hnodup⟩
 have hcount : countMutations plan = 0 + plan.permissions.create.length +
   (converged plan.permissions).length + plan.permissions.retire.length +
   plan.roles.create.length + plan.roles.update.length + plan.rolePermissions.delete.length +
   plan.rolePermissions.create.length := by
  simp only [countMutations]
  omega
 rw [hcount]
 exact bind_ok hcreateP (bind_ok hconverge (bind_ok hretire (bind_ok hcreateR
  (bind_ok hupdate (bind_ok hdelete hcreateE)))))

/-- Applying a plan without conflicts brings the tables to the manifest. -/
theorem applyReconcilePlan_reconciles {t : Tables ι ν} (hm : manifest.Wf) (h : t.Wf) :
    (planReconcile F manifest (loadCatalogSnapshot t)).conflictFree →
    ∃ done, applyReconcilePlan supply column now manifest
        (planReconcile F manifest (loadCatalogSnapshot t)) t = .ok done ∧
      Reconciled F manifest t done := by
 intro _
 obtain ⟨addedP, addedR, pairs, happly, haddedP, haddedR, hk, hpairs, hnodup⟩ :=
  @applyReconcilePlan_ok ι ν _ F supply column now manifest t hm h
 obtain ⟨hslugs, hpresent, hlisted, hunlisted⟩ := settled_permissions column now hm h haddedP
 obtain ⟨hnames, hroles, hdescribed⟩ := settled_roles hm h haddedR
 obtain ⟨hedges, hsystemEdges⟩ := settled_edges h hk hpairs
 refine ⟨_, happly, ?_⟩
 have hwf := wf_edges h hk List.filter_sublist hpairs hnodup
 have hsettled : Settled F manifest (loadCatalogSnapshot
   { permissions := reconciledPermissions column now F manifest t addedP,
     roles := reconciledRoles manifest t addedR,
     rolePermissions := keptEdges manifest t ++ pairs.map systemEdge }) := by
  refine ⟨snapshot_slugs hwf, snapshot_names hwf, ?_, ?_, ?_, ?_, ?_, hedges, hsystemEdges⟩
  · intro wanted hw
    obtain ⟨s, hs, hslug⟩ := hpresent wanted hw
    exact ⟨s.row, List.mem_map.mpr ⟨s, hs, rfl⟩, hslug⟩
  · intro wanted hw row hrow
    obtain ⟨s, hs, rfl⟩ := List.mem_map.mp hrow
    exact hlisted wanted hw s hs
  · intro row hrow
    obtain ⟨s, hs, rfl⟩ := List.mem_map.mp hrow
    exact hunlisted s hs
  · intro wanted hw
    obtain ⟨s, hs, hname⟩ := hroles wanted hw
    exact ⟨s.row, List.mem_map.mpr ⟨s, hs, rfl⟩, hname⟩
  · intro wanted hw row hrow
    obtain ⟨s, hs, rfl⟩ := List.mem_map.mp hrow
    exact hdescribed wanted hw s hs
 refine ⟨hwf, hsettled.countMutations, ?_, ?_, foreign_edges h pairs, ?_, ?_, hedges, hsystemEdges,
  rfl⟩
 · have hnew : ∀ s ∈ addedP, s.row.managedBy = .system := by
    intro s hs
    obtain ⟨wanted, _, hrow⟩ := List.mem_map.mp (haddedP ▸ List.mem_map.mpr ⟨s, hs, rfl⟩)
    rw [← hrow]
    rfl
   exact foreign_rows PermissionSnapshotRow.managedBy
    (fun row => settledRow_foreign column now manifest (planPermissions F manifest _))
    (settledRow_owner column now manifest _) t.permissions addedP hnew
 · have hnew : ∀ s ∈ addedR, s.row.managedBy = .system := by
    intro s hs
    obtain ⟨wanted, _, hrow⟩ := List.mem_map.mp (haddedR ▸ List.mem_map.mpr ⟨s, hs, rfl⟩)
    rw [← hrow]
    rfl
   exact foreign_rows RoleSnapshotRow.managedBy
    (fun row => updatedRole_foreign (updatedNames (planRoles manifest _)))
    (updatedRole_owner _) t.roles addedR hnew
 · intro wanted hw
   obtain ⟨s, hs, hslug⟩ := hpresent wanted hw
   refine ⟨s, hs, hslug, fun hsystem => ?_⟩
   obtain ⟨hdiff, hlive⟩ := hlisted wanted hw s hs hslug hsystem
   exact ⟨hlive, agrees_of_diff hdiff⟩
 · intro wanted hw
   obtain ⟨s, hs, hname⟩ := hroles wanted hw
   exact ⟨s, hs, hname, hdescribed wanted hw s hs hname⟩

end Reconcile

section Sample

def readGames : Name := ⟨"read:game".toList, by decide⟩

def readJobs : Name := ⟨"read:job".toList, by decide⟩

def userRole : Name := ⟨"User".toList, by decide⟩

def sampleManifest : CatalogManifest { s : Text // s ≠ [] ∧ s.all isNumberChar = true } where
  permissions := [⟨.read, "Game".toList, readGames, .low, "Read games".toList,
    some ⟨.obj [("ownerId".toList, .str "\x7b\x7b user.id \x7d\x7d".toList),
     ("id".toList, .null)], by decide⟩,
    some ["title".toList]⟩]
  roles := [⟨userRole, "Everyone".toList⟩]
  rolePermissions := [(userRole, [readGames])]

/-- A retired row the manifest wants back, a row it dropped with its grant, and a
    role an operator owns. -/
def sampleTables : Tables ℕ { s : Text // s ≠ [] ∧ s.all isNumberChar = true } where
  permissions := [⟨1, ⟨readGames, .read, "Game".toList, [], none, false, none, .low, .system, some 7⟩⟩,
    ⟨2, ⟨readJobs, .read, "Job".toList, [], none, false, none, .low, .system, none⟩⟩]
  roles := [⟨3, ⟨userRole, none, .admin⟩⟩]
  rolePermissions := [⟨3, 2, .system⟩]

theorem sampleManifest_wf : sampleManifest.Wf :=
 ⟨by decide, by decide, by decide, by decide, by decide⟩

theorem sampleTables_wf : sampleTables.Wf :=
 ⟨by decide, by decide, by decide, by decide, by decide, by decide, by decide⟩

theorem sample_reconciles :
    (planReconcile literalFormat sampleManifest (loadCatalogSnapshot sampleTables)).conflictFree ∧
    ∃ done, applyReconcilePlan countingIds jsonbColumn 9 sampleManifest
        (planReconcile literalFormat sampleManifest (loadCatalogSnapshot sampleTables)) sampleTables =
          .ok done ∧
      Reconciled literalFormat sampleManifest sampleTables done := by
 have hfree : (planReconcile literalFormat sampleManifest
   (loadCatalogSnapshot sampleTables)).conflictFree := ⟨by decide, by decide, by decide⟩
 exact ⟨hfree, applyReconcilePlan_reconciles countingIds jsonbColumn 9 sampleManifest_wf
  sampleTables_wf hfree⟩

end Sample

end BoardGamesEmpire.Catalog
