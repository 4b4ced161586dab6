import BoardGamesEmpire.CatalogApply

set_option autoImplicit false

/-!
# Catalog reconcile converges

What each statement of the apply leaves in its table, and that a second plan
over the result has nothing to write.
-/
namespace BoardGamesEmpire.Catalog
open JsText JsonText

section Statements

variable {ι ρ : Type}

theorem mapGet_unique {κ α : Type} [DecidableEq κ] (key : α → κ) {rows : List α}
  (hkeys : (rows.map key).Nodup) {β : Type} (f : α → β) {row : α} (h : row ∈ rows) :
  mapGet (rows.map fun r => (key r, f r)) (key row) = some (f row) := by
 rw [mapGet_iff]
 · exact List.mem_map.mpr ⟨row, h, rfl⟩
 · intro k v v' hv hv'
   obtain ⟨a, ha, heq⟩ := List.mem_map.mp hv
   obtain ⟨b, hb, heq'⟩ := List.mem_map.mp hv'
   have hab : a = b := List.inj_on_of_nodup_map hkeys ha hb
    ((congrArg Prod.fst heq).trans (congrArg Prod.fst heq').symm)
   rw [hab] at heq
   exact (congrArg Prod.snd heq).symm.trans (congrArg Prod.snd heq')

theorem mapGet_map_mem {κ α β : Type} [DecidableEq κ] {key : α → κ} {f : α → β} {rows : List α}
  {k : κ} {b : β} (h : mapGet (rows.map fun r => (key r, f r)) k = some b) :
  ∃ row ∈ rows, key row = k ∧ f row = b := by
 obtain ⟨row, hrow, heq⟩ := List.mem_map.mp (mapGet_mem h)
 exact ⟨row, hrow, congrArg Prod.fst heq, congrArg Prod.snd heq⟩

theorem mapGet_map_none {κ α β : Type} [DecidableEq κ] {key : α → κ} {f : α → β} {rows : List α}
  {k : κ} (h : mapGet (rows.map fun r => (key r, f r)) k = none) : ∀ row ∈ rows, key row ≠ k := by
 intro row hrow hk
 exact mapGet_none h (f row) (List.mem_map.mpr ⟨row, hrow, by rw [hk]⟩)

def inserted {τ δ : Type} (make : List τ → δ → τ) : List τ → List δ → List τ
  | _, [] => []
  | rows, d :: data => make rows d :: inserted make (rows ++ [make rows d]) data

theorem insertMany_foldl {τ δ κ : Type} [DecidableEq κ] {keyOf : τ → κ} {key : δ → κ}
  {make : List τ → δ → τ} (hmake : ∀ rows d, keyOf (make rows d) = key d) (data : List δ)
  (rows : List τ) (n : ℕ) (hkeys : (rows.map keyOf ++ data.map key).Nodup) :
  data.foldl (fun acc d => if (acc.1.map keyOf).contains (key d) then acc
    else (acc.1 ++ [make acc.1 d], acc.2 + 1)) (rows, n) =
   (rows ++ inserted make rows data, n + data.length) := by
 induction data generalizing rows n with
 | nil => simp [inserted]
 | cons d data ih =>
  have hnew : (rows.map keyOf).contains (key d) = false := by
   rw [List.contains_eq_mem, decide_eq_false_iff_not]
   intro hmem
   exact (List.nodup_append.mp hkeys).2.2 _ hmem _ List.mem_cons_self rfl
  rw [List.foldl_cons]
  simp only [hnew, Bool.false_eq_true, if_false]
  rw [ih (rows ++ [make rows d]) (n + 1) (by simpa [hmake] using hkeys), inserted]
  simp only [List.append_assoc, List.cons_append, List.nil_append, List.length_cons]
  rw [Nat.add_assoc, Nat.add_comm 1]

theorem insertMany_new {τ δ κ : Type} [DecidableEq κ] {keyOf : τ → κ} {key : δ → κ}
  {make : List τ → δ → τ} (hmake : ∀ rows d, keyOf (make rows d) = key d) {data : List δ}
  {rows : List τ} (hkeys : (rows.map keyOf ++ data.map key).Nodup) :
  insertMany keyOf key make rows data = (rows ++ inserted make rows data, data.length) := by
 rw [insertMany, insertMany_foldl hmake data rows 0 hkeys, Nat.zero_add]

theorem inserted_ids (supply : IdSupply ι) (data : List ρ) (rows : List (Stored ι ρ))
  (hids : (rows.map (·.id)).Nodup) :
  let added := inserted (fun rows d => (⟨supply.mint (rows.map (·.id)), d⟩ : Stored ι ρ)) rows data
  added.map (·.row) = data ∧ ((rows ++ added).map (·.id)).Nodup := by
 induction data generalizing rows with
 | nil => simpa [inserted] using hids
 | cons d data ih =>
  have hfresh := supply.mint_fresh (rows.map (·.id))
  have hids' : ((rows ++ [(⟨supply.mint (rows.map (·.id)), d⟩ : Stored ι ρ)]).map (·.id)).Nodup := by
   rw [List.map_append, List.nodup_append]
   refine ⟨hids, by simp, ?_⟩
   intro a ha b hb hab
   simp only [List.map_cons, List.map_nil, List.mem_singleton] at hb
   rw [hab, hb] at ha
   exact hfresh ha
  obtain ⟨hrows, hadded⟩ := ih _ hids'
  refine ⟨?_, ?_⟩
  · rw [inserted, List.map_cons, hrows]
  · rw [inserted]
    simpa using hadded

theorem createMany_new (supply : IdSupply ι) (key : ρ → Name) {data : List ρ}
  {rows : List (Stored ι ρ)} (hkeys : (rows.map (fun s => key s.row) ++ data.map key).Nodup)
  (hids : (rows.map (·.id)).Nodup) :
  ∃ added : List (Stored ι ρ), createMany supply key rows data = (rows ++ added, data.length) ∧
   added.map (·.row) = data ∧ ((rows ++ added).map (·.id)).Nodup := by
 have hmake : ∀ (rows : List (Stored ι ρ)) (d : ρ),
   key (Stored.row (ι := ι) ⟨supply.mint (rows.map (·.id)), d⟩) = key d := fun _ _ => rfl
 exact ⟨_, insertMany_new hmake hkeys, inserted_ids supply data rows hids⟩

def updated (key : ρ → Name) (owned : ρ → Bool) (data : Name → ρ → ρ) (names : List Name)
    (row : ρ) : ρ :=
  if owned row ∧ key row ∈ names then data (key row) row else row

variable {owned : ρ → Bool}

theorem updateMany_one {key : ρ → Name} {rows : List (Stored ι ρ)}
  (hkeys : (rows.map fun s => key s.row).Nodup) {name : Name} (data : ρ → ρ)
  (hex : ∃ s ∈ rows, key s.row = name ∧ owned s.row = true) :
  updateMany (fun row => key row = name ∧ owned row = true) data rows =
   (rows.map fun s => ⟨s.id, updated key owned (fun _ => data) [name] s.row⟩, 1) := by
 apply Prod.ext
 · apply List.map_congr_left
   intro s _
   simp only [updated, List.mem_singleton, decide_eq_true_eq]
   split_ifs with h1 h2 h2
   · rfl
   · exact absurd ⟨h1.2, h1.1⟩ h2
   · exact absurd ⟨h2.2, h2.1⟩ h1
   · rfl
 · obtain ⟨s, hs, hname, howned⟩ := hex
   have hone : (rows.map fun s => key s.row).count name = 1 :=
    List.count_eq_one_of_mem hkeys (List.mem_map.mpr ⟨s, hs, hname⟩)
   rw [List.count_eq_countP, List.countP_map] at hone
   rw [← hone]
   apply List.countP_congr
   intro t ht
   simp only [Function.comp_apply, decide_eq_true_eq, beq_iff_eq]
   constructor
   · exact fun h => h.1
   · intro h
     have hst : t = s := List.inj_on_of_nodup_map hkeys ht hs (h.trans hname.symm)
     exact ⟨h, by rw [hst]; exact howned⟩

theorem updated_cons {key : ρ → Name} {data : Name → ρ → ρ}
  (hkey : ∀ name row, key (data name row) = key row)
  (howned : ∀ name row, owned (data name row) = owned row) {name : Name} {names : List Name}
  (hnew : name ∉ names) (row : ρ) :
  updated key owned data names (updated key owned (fun _ => data name) [name] row) =
   updated key owned data (name :: names) row := by
 unfold updated
 by_cases ho : owned row = true
 · by_cases hn : key row = name
   · have hnot : key row ∉ names := by rw [hn]; exact hnew
     simp [ho, hn, howned, hkey, hnew]
   · simp [ho, hn]
 · simp [ho]

theorem updated_keys {key : ρ → Name} {data : Name → ρ → ρ}
  (hkey : ∀ name row, key (data name row) = key row) (names : List Name) (row : ρ) :
  key (updated key owned data names row) = key row := by
 unfold updated
 split_ifs
 · exact hkey _ _
 · rfl

theorem updated_owned {key : ρ → Name} {data : Name → ρ → ρ}
  (howned : ∀ name row, owned (data name row) = owned row) (names : List Name) (row : ρ) :
  owned (updated key owned data names row) = owned row := by
 unfold updated
 split_ifs
 · exact howned _ _
 · rfl

def mapRows (f : ρ → ρ) (rows : List (Stored ι ρ)) : List (Stored ι ρ) :=
  rows.map fun s => ⟨s.id, f s.row⟩

theorem updateMany_rows (matching : ρ → Bool) (data : ρ → ρ) (rows : List (Stored ι ρ)) :
  (updateMany matching data rows).1 =
   mapRows (fun row => if matching row then data row else row) rows := by
 apply List.map_congr_left
 intro s _
 cases h : matching s.row <;> simp [h]

theorem mapRows_ids (f : ρ → ρ) (rows : List (Stored ι ρ)) :
  (mapRows f rows).map (·.id) = rows.map (·.id) := by
 simp [mapRows]

theorem mapRows_keys {key : ρ → Name} {f : ρ → ρ} (hkey : ∀ row, key (f row) = key row)
  (rows : List (Stored ι ρ)) :
  (mapRows f rows).map (fun s => key s.row) = rows.map fun s => key s.row := by
 simp [mapRows, hkey]

theorem mapRows_mapRows (f g : ρ → ρ) (rows : List (Stored ι ρ)) :
  mapRows g (mapRows f rows) = mapRows (fun row => g (f row)) rows := by
 simp [mapRows]

theorem mapRows_append (f : ρ → ρ) (rows added : List (Stored ι ρ)) :
  mapRows f (rows ++ added) = mapRows f rows ++ mapRows f added := by
 simp [mapRows]

theorem foldlM_updates {σ ε : Type} {key : ρ → Name} {data : Name → ρ → ρ}
  (hkey : ∀ name row, key (data name row) = key row)
  (howned : ∀ name row, owned (data name row) = owned row)
  (write : List (Stored ι ρ) → ℕ → σ) (step : σ → Name → Except ε σ) (names : List Name)
  (hnames : names.Nodup) (rows : List (Stored ι ρ)) (n : ℕ)
  (hkeys : (rows.map fun s => key s.row).Nodup)
  (hex : ∀ name ∈ names, ∃ s ∈ rows, key s.row = name ∧ owned s.row = true)
  (hstep : ∀ name ∈ names, ∀ rows n, (rows.map fun s => key s.row).Nodup →
   (∃ s ∈ rows, key s.row = name ∧ owned s.row = true) → step (write rows n) name =
    .ok (write (mapRows (updated key owned (fun _ => data name) [name]) rows) (n + 1))) :
  names.foldlM step (write rows n) =
   .ok (write (mapRows (updated key owned data names) rows) (n + names.length)) := by
 induction names generalizing rows n with
 | nil =>
  have hid : mapRows (updated key owned data []) rows = rows := by
   simp [mapRows, updated]
  rw [hid]
  rfl
 | cons name names ih =>
  have hnew := (List.nodup_cons.mp hnames).1
  rw [List.foldlM_cons, hstep name List.mem_cons_self rows n hkeys (hex name List.mem_cons_self)]
  simp only [bind, Except.bind]
  rw [ih (List.nodup_cons.mp hnames).2]
  · simp only [mapRows_mapRows, updated_cons hkey howned hnew, List.length_cons]
    rw [Nat.add_assoc, Nat.add_comm 1]
  · rw [mapRows_keys (updated_keys (fun _ => hkey name) _)]
    exact hkeys
  · intro other h
    obtain ⟨s, hs, hkeyed, hsystem⟩ := hex other (List.mem_cons_of_mem _ h)
    refine ⟨_, List.mem_map.mpr ⟨s, hs, rfl⟩, ?_, ?_⟩
    · rw [updated_keys (fun _ => hkey name)]
      exact hkeyed
    · rw [updated_owned (fun _ => howned name)]
      exact hsystem
  · exact fun other h => hstep other (List.mem_cons_of_mem _ h)

end Statements

section Updates

variable {ι ν : Type} (column : JsonColumn ν) (manifest : CatalogManifest ν)

def wantedPermission (slug : Name) : Option (PermissionSeedDefinition ν) :=
  mapGet (manifest.permissions.map fun wanted => (wanted.slug, wanted)) slug

def wantedRole (name : Name) : Option RoleSeedDefinition :=
  mapGet (manifest.roles.map fun wanted => (wanted.name, wanted)) name

def permissionData (slug : Name) (row : PermissionSnapshotRow ν) : PermissionSnapshotRow ν :=
  (wantedPermission manifest slug).elim row fun wanted =>
    { withColumns column wanted row with retiredAt := none }

def roleData (name : Name) (row : RoleSnapshotRow) : RoleSnapshotRow :=
  (wantedRole manifest name).elim row fun wanted => { row with description := some wanted.description }

def permissionOwned (row : PermissionSnapshotRow ν) : Bool := decide (row.managedBy = .system)

def roleOwned (row : RoleSnapshotRow) : Bool := decide (row.managedBy = .system)

theorem permissionData_slug (slug : Name) (row : PermissionSnapshotRow ν) :
  (permissionData column manifest slug row).slug = row.slug := by
 unfold permissionData
 cases wantedPermission manifest slug <;> rfl

theorem permissionData_owned (slug : Name) (row : PermissionSnapshotRow ν) :
  permissionOwned (permissionData column manifest slug row) = permissionOwned row := by
 unfold permissionData
 cases wantedPermission manifest slug <;> rfl

theorem roleData_name (name : Name) (row : RoleSnapshotRow) :
  (roleData manifest name row).name = row.name := by
 unfold roleData
 cases wantedRole manifest name <;> rfl

theorem roleData_owned (name : Name) (row : RoleSnapshotRow) :
  roleOwned (roleData manifest name row) = roleOwned row := by
 unfold roleData
 cases wantedRole manifest name <;> rfl

def convergedRow (slugs : List Name) : PermissionSnapshotRow ν → PermissionSnapshotRow ν :=
  updated (·.slug) permissionOwned (permissionData column manifest) slugs

def updatedRole (names : List Name) : RoleSnapshotRow → RoleSnapshotRow :=
  updated (·.name) roleOwned (roleData manifest) names

theorem convergePermission_ok {s : Session ι ν} {slug : Name}
  (hkeys : (s.tables.permissions.map fun x => x.row.slug).Nodup)
  (hwanted : (wantedPermission manifest slug).isSome)
  (hex : ∃ x ∈ s.tables.permissions, x.row.slug = slug ∧ permissionOwned x.row = true) :
  convergePermission column manifest s slug =
   .ok ⟨{ s.tables with
       permissions := mapRows
        (updated (·.slug) permissionOwned (fun _ => permissionData column manifest slug) [slug])
        s.tables.permissions }, s.written + 1⟩ := by
 obtain ⟨wanted, hw⟩ := Option.isSome_iff_exists.mp hwanted
 have hdata : (fun row => { withColumns column wanted row with retiredAt := none }) =
   permissionData column manifest slug := by
  funext row
  rw [permissionData, hw]
  rfl
 have hmatch : (fun row : PermissionSnapshotRow ν =>
   decide (row.slug = slug ∧ row.managedBy = .system)) =
    fun row => decide (row.slug = slug ∧ permissionOwned row = true) := by
  funext row
  simp [permissionOwned]
 unfold convergePermission
 rw [hmatch]
 simp only [wantedPermission] at hw
 simp only [hw, requireDefined]
 have hone := updateMany_one hkeys (permissionData column manifest slug) hex
 rw [← hdata] at hone ⊢
 simp only [bind, Except.bind, hone]
 rfl

theorem convergePermissions_ok {slugs : List Name} (hslugs : slugs.Nodup) (s : Session ι ν)
  (hkeys : (s.tables.permissions.map fun x => x.row.slug).Nodup)
  (hwanted : ∀ slug ∈ slugs, (wantedPermission manifest slug).isSome)
  (hex : ∀ slug ∈ slugs, ∃ x ∈ s.tables.permissions,
   x.row.slug = slug ∧ permissionOwned x.row = true) :
  slugs.foldlM (convergePermission column manifest) s =
   .ok ⟨{ s.tables with
       permissions := mapRows (convergedRow column manifest slugs) s.tables.permissions },
      s.written + slugs.length⟩ := by
 let write (rows : List (Stored ι (PermissionSnapshotRow ν))) (n : ℕ) : Session ι ν :=
  ⟨{ s.tables with permissions := rows }, n⟩
 have hfold := foldlM_updates (permissionData_slug column manifest)
  (permissionData_owned column manifest) write (convergePermission column manifest) slugs hslugs
  s.tables.permissions s.written hkeys hex
 apply hfold
 intro slug hslug rows n hrows hrow
 exact convergePermission_ok column manifest hrows (hwanted slug hslug) hrow

theorem updateRole_ok {s : Session ι ν} {name : Name}
  (hkeys : (s.tables.roles.map fun x => x.row.name).Nodup)
  (hwanted : (wantedRole manifest name).isSome)
  (hex : ∃ x ∈ s.tables.roles, x.row.name = name ∧ roleOwned x.row = true) :
  updateRole manifest s name =
   .ok ⟨{ s.tables with
       roles := mapRows (updated (·.name) roleOwned (fun _ => roleData manifest name) [name])
        s.tables.roles }, s.written + 1⟩ := by
 obtain ⟨wanted, hw⟩ := Option.isSome_iff_exists.mp hwanted
 have hdata : (fun row : RoleSnapshotRow => { row with description := some wanted.description }) =
   roleData manifest name := by
  funext row
  rw [roleData, hw]
  rfl
 have hmatch : (fun row : RoleSnapshotRow => decide (row.name = name ∧ row.managedBy = .system)) =
    fun row => decide (row.name = name ∧ roleOwned row = true) := by
  funext row
  simp [roleOwned]
 unfold updateRole
 rw [hmatch]
 simp only [wantedRole] at hw
 simp only [hw, requireDefined]
 have hone := updateMany_one hkeys (roleData manifest name) hex
 rw [← hdata] at hone ⊢
 simp only [bind, Except.bind, hone]
 rfl

theorem updateRoles_ok {names : List Name} (hnames : names.Nodup) (s : Session ι ν)
  (hkeys : (s.tables.roles.map fun x => x.row.name).Nodup)
  (hwanted : ∀ name ∈ names, (wantedRole manifest name).isSome)
  (hex : ∀ name ∈ names, ∃ x ∈ s.tables.roles, x.row.name = name ∧ roleOwned x.row = true) :
  names.foldlM (updateRole manifest) s =
   .ok ⟨{ s.tables with roles := mapRows (updatedRole manifest names) s.tables.roles },
      s.written + names.length⟩ := by
 let write (rows : List (Stored ι RoleSnapshotRow)) (n : ℕ) : Session ι ν :=
  ⟨{ s.tables with roles := rows }, n⟩
 have hfold := foldlM_updates (roleData_name manifest) (roleData_owned manifest) write
  (updateRole manifest) names hnames s.tables.roles s.written hkeys hex
 apply hfold
 intro name hname rows n hrows hrow
 exact updateRole_ok manifest hrows (hwanted name hname) hrow

end Updates

end BoardGamesEmpire.Catalog
