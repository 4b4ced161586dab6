import BoardGamesEmpire.PluginProtocol
import BoardGamesEmpire.PluginUninstallSafe

set_option autoImplicit false

/-!
# Uninstall is a clean cut

Each request keeps the account: the writers of one unit under the shared lock of a
living plugin, uninstall and reinstall in sole possession of it.
-/
namespace BoardGamesEmpire.PluginUninstall
open JsText Manifest ReadCommitted ReadCommittedProtocol PluginStore PluginEscalation PluginActivation
  PluginUpdateProgram PluginGrantProgram PluginSystem PluginProtocol

def UnderPlugin (held : List PluginLock) (before after : Db) : Prop :=
  ∀ k, outside k = false → k ≠ .plugin → after.lookup k ≠ before.lookup k → HoldsPlugin held

abbrev protocol : Protocol Row UnitRef Outcome :=
  ⟨Recorded, fun σ event db => Effect σ.db db event, UnderPlugin, outside⟩

section Surroundings

variable {held : List PluginLock} {log : List PluginWrite} {σ σ' : LifecycleState}

theorem rely_same (hlock : pluginLock true ∈ held) (h : Rely protocol held σ σ') :
  Same σ.db σ'.db := by
 cases h with
 | tick => exact .refl σ.db
 | outside w hkey hfree => exact fun k hk => lookup_outside σ.db hkey hk
 | commit other event db hfree hrows hguar heffect =>
  intro k hk
  by_contra hne
  by_cases hplugin : k = .plugin
  · subst hplugin
    exact hfree _ hlock _ (hrows .plugin hne) ⟨rfl, .inl rfl⟩
  · obtain ⟨exclusive, hother⟩ := hguar k hk hplugin hne
    exact hfree _ hlock _ hother ⟨rfl, .inl rfl⟩

theorem rely_same_view (hlock : pluginLock true ∈ held) (hlog : LogLocked held log)
  (h : Rely protocol held σ σ') : Same (view σ log) (view σ' log) := by
 intro k hk
 rcases h.view hlog k with ⟨-, hview⟩ | ⟨hview, hview'⟩
 · exact hview
 · rw [hview, hview']
   exact rely_same hlock h k hk

theorem rely_plugin (hlock : HoldsPlugin held) (h : Rely protocol held σ σ') :
  plugin? σ'.db = plugin? σ.db := by
 obtain ⟨exclusive, hmem⟩ := hlock
 exact h.row hmem

end Surroundings

section Exclusive

variable {Rel : Db → Db → Prop}

abbrev Robust (Rel : Db → Db → Prop) : Prop := KeptBy (fun db v db' v' => Same db db' ∧ Same v v') Rel

/-- Safe for a holder of the exclusive lock that knows `Rel`. -/
def SafeUnder (Rel : Db → Db → Prop) (code : LifecycleProgram) : Prop :=
  ∀ held log σ, pluginLock true ∈ held → Rel σ.db (view σ log) → Safe protocol code held log σ

theorem stable_robust (hrel : Robust Rel) {held : List PluginLock} {log : List PluginWrite}
  (hlock : pluginLock true ∈ held) (hlog : LogLocked held log) :
  Stable protocol held fun σ => Rel σ.db (view σ log) :=
 fun _ _ h _ _ hrely => hrel _ _ _ _ h ⟨rely_same hlock hrely, rely_same_view hlock hlog hrely⟩

theorem safeUnder_stmt (hrel : Robust Rel) (Rel' : ℕ → Db → Db → Db → Prop)
  {locks : Db → List PluginLock} {writes : ℕ → Db → List PluginWrite}
  {next : ℕ → Db → LifecycleProgram}
  (hwrite : ∀ clock db v, Rel db v → Rel' clock v db (applyLog v (writes clock v)))
  (hnext : ∀ clock v, SafeUnder (Rel' clock v) (next clock v)) :
  SafeUnder Rel (.stmt locks writes next) := by
 intro held log σ hlock h
 refine safe_stmt (fun hlog => stable_robust hrel hlock hlog) h fun σ' _ _ _ h' => ?_
 apply hnext _ _ _ _ _ (List.mem_append_left _ hlock)
 have hview : view σ'.tick (log ++ writes σ'.clock (view σ' log)) =
   applyLog (view σ' log) (writes σ'.clock (view σ' log)) := applyLog_append _ _ _
 rw [hview]
 exact hwrite _ _ _ h'

theorem safeUnder_commit (hrel : Robust Rel) {event : Outcome}
  (heffect : ∀ db v, Rel db v → Effect db v event) : SafeUnder Rel (.commit event .halt) := by
 intro held log σ hlock h
 refine safe_commit (fun hlog => stable_robust hrel hlock hlog) h fun σ' _ _ h' => ?_
 exact ⟨fun _ _ _ _ => ⟨true, hlock⟩, heffect _ _ h', trivial⟩

theorem safe_abort {held : List PluginLock} {log : List PluginWrite} {σ : LifecycleState} :
  Safe protocol (.rollback .halt) held log σ := fun _ _ _ => trivial

theorem safe_read {next : ℕ → Db → LifecycleProgram}
  (h : ∀ clock v σ, Safe protocol (next clock v) [] [] σ) (σ : LifecycleState) :
  Safe protocol (.query next) [] [] σ :=
 fun _ _ _ _ _ => h _ _ _

end Exclusive

section Uninstall

/-- The claimed plugin, with the rows in `gone` already deleted. -/
structure Sweeping (gone : Key → Bool) (db v : Db) : Prop where
  alive : Alive db
  tombstone : ∃ row, plugin? v = some row ∧ row.uninstalledAt ≠ none ∧ row.pending = none
  rows : ∀ k, outside k = false → k ≠ .plugin → v.lookup k = if gone k then none else db.lookup k

def Announces (axis : UnitRef → Prop) (db : Db) (units : List UnitRef) : Prop :=
  units.Nodup ∧ ∀ unit, unit ∈ units ↔ axis unit ∧ ∃ row, unit? db unit = some row ∧ row.enabled = true

variable {gone more : Key → Bool} {db v : Db}

theorem sweeping_robust (gone : Key → Bool) : Robust (Sweeping gone) := by
 rintro db v db' v' h ⟨hdb, hv⟩
 refine ⟨(alive_congr hdb.plugin).2 h.alive, ?_, fun k hk hne => ?_⟩
 · rw [hv.plugin]
   exact h.tombstone
 · rw [hv k hk, hdb k hk]
   exact h.rows k hk hne

theorem announces_robust (axis : UnitRef → Prop) (units : List UnitRef) :
  Robust fun db _ => Announces axis db units := by
 rintro db v db' v' h ⟨hdb, -⟩
 refine ⟨h.1, fun unit => ?_⟩
 rw [hdb.unit unit]
 exact h.2 unit

theorem Sweeping.delete (h : Sweeping gone db v) {ws : List PluginWrite}
  (hws : ∀ w ∈ ws, w.value = none ∧ more w.key = true)
  (hall : ∀ k row, v.lookup k = some row → more k = true → ∃ w ∈ ws, w.key = k)
  (hplugin : more .plugin = false) :
  Sweeping (fun k => gone k || more k) db (applyLog v ws) where
 alive := h.alive
 tombstone := by
  have hkept : plugin? (applyLog v ws) = plugin? v := by
   refine lookup_applyLog_of_notMem v fun w hw heq => ?_
   have hmore := (hws w hw).2
   rw [heq, hplugin] at hmore
   cases hmore
  rw [hkept]
  exact h.tombstone
 rows k hk hne := by
  by_cases hmem : ∃ w ∈ ws, w.key = k
  · rw [lookup_applyLog_erased v (fun w hw => (hws w hw).1) hmem]
    obtain ⟨w, hw, rfl⟩ := hmem
    simp [(hws w hw).2]
  · rw [lookup_applyLog_of_notMem v fun w hw heq => hmem ⟨w, hw, heq⟩]
    cases hmore : more k with
    | false => simpa using h.rows k hk hne
    | true =>
     cases hrow : v.lookup k with
     | none => simp
     | some row => exact absurd (hall k row hrow hmore) hmem

theorem unitRows_nodup (db : Db) : ((unitRows db).map Prod.fst).Nodup := by
 refine filterMap_nodup asUnit Sigma.fst Prod.fst ?_ db.entries db.nodupKeys
 rintro ⟨a, ra⟩ ⟨b, rb⟩ x y hx hy hxy
 cases a with
 | unit unit =>
  cases b with
  | unit unit' =>
   cases hx
   cases hy
   exact congrArg Key.unit hxy
  | plugin | declared _ | grant _ | permission _ | home _ => cases hy
 | plugin | declared _ | grant _ | permission _ | home _ => cases hx

theorem enabledUnits_announces (axis : PluginConsentScope) (v : Db) :
  Announces (fun unit => unit.consentScope = axis) v (enabledUnits axis v) := by
 refine ⟨(unitRows_nodup v).sublist (List.filter_sublist.map _), fun unit => ?_⟩
 constructor
 · intro hmem
   obtain ⟨⟨unit', row⟩, hfound, rfl⟩ := List.mem_map.1 hmem
   obtain ⟨hrow, hpred⟩ := List.mem_filter.1 hfound
   rw [Bool.and_eq_true, beq_iff_eq] at hpred
   exact ⟨hpred.1, row, mem_unitRows.1 hrow, hpred.2⟩
 · rintro ⟨haxis, row, hrow, henabled⟩
   refine List.mem_map.2 ⟨(unit, row), List.mem_filter.2 ⟨mem_unitRows.2 hrow, ?_⟩, rfl⟩
   rw [Bool.and_eq_true, beq_iff_eq]
   exact ⟨haxis, henabled⟩

theorem Announces.append {units units' : List UnitRef}
  (h : Announces (fun unit => unit.consentScope = .household) db units)
  (h' : Announces (fun unit => unit.consentScope = .user) db units') :
  Announces (fun _ => True) db (units ++ units') := by
 refine ⟨h.1.append h'.1 fun unit hmem hmem' => ?_, fun unit => ?_⟩
 · have hhousehold : unit.consentScope = .household := ((h.2 unit).1 hmem).1
   have huser : unit.consentScope = .user := ((h'.2 unit).1 hmem').1
   rw [hhousehold] at huser
   cases huser
 · rw [List.mem_append, h.2, h'.2]
   cases unit <;> simp [UnitRef.consentScope]

def isGrant : Key → Bool
  | .grant _ => true
  | .plugin | .declared _ | .unit _ | .permission _ | .home _ => false

def isDeclared : Key → Bool
  | .declared _ => true
  | .plugin | .grant _ | .unit _ | .permission _ | .home _ => false

def isUnitOf (axis : PluginConsentScope) : Key → Bool
  | .unit unit => unit.consentScope == axis
  | .plugin | .grant _ | .declared _ | .permission _ | .home _ => false

theorem Sweeping.deleteGrants (h : Sweeping gone db v) :
  Sweeping (fun k => gone k || isGrant k) db (applyLog v (deleteGrants (fun _ _ => true) v)) := by
 refine h.delete (fun w hw => ?_) (fun k row hrow hk => ?_) rfl
 · obtain ⟨entry, -, rfl⟩ := List.mem_map.1 hw
   exact ⟨rfl, rfl⟩
 · cases k with
   | grant key =>
    exact ⟨_, List.mem_map.2 ⟨(key, row), List.mem_filter.2 ⟨mem_grantRows.2 hrow, rfl⟩, rfl⟩, rfl⟩
   | plugin | declared _ | unit _ | permission _ | home _ => cases hk

theorem Sweeping.deletePermissions (h : Sweeping gone db v) :
  Sweeping (fun k => gone k || isDeclared k) db (applyLog v (deletePermissions (fun _ => true) v)) := by
 refine h.delete (fun w hw => ?_) (fun k row hrow hk => ?_) rfl
 · obtain ⟨entry, -, rfl⟩ := List.mem_map.1 hw
   exact ⟨rfl, rfl⟩
 · cases k with
   | declared slug =>
    exact ⟨_, List.mem_map.2 ⟨(slug, row), List.mem_filter.2 ⟨mem_declaredRows.2 hrow, rfl⟩, rfl⟩, rfl⟩
   | plugin | grant _ | unit _ | permission _ | home _ => cases hk

theorem Sweeping.deleteUnits (h : Sweeping gone db v) (axis : PluginConsentScope) :
  Sweeping (fun k => gone k || isUnitOf axis k) db (applyLog v (deleteUnits axis v)) := by
 refine h.delete (fun w hw => ?_) (fun k row hrow hk => ?_) rfl
 · obtain ⟨entry, hentry, rfl⟩ := List.mem_map.1 hw
   exact ⟨rfl, (List.mem_filter.1 hentry).2⟩
 · cases k with
   | unit unit =>
    exact ⟨_, List.mem_map.2 ⟨(unit, row), List.mem_filter.2 ⟨mem_unitRows.2 hrow, hk⟩, rfl⟩, rfl⟩
   | plugin | grant _ | declared _ | permission _ | home _ => cases hk

def cutOff (purgeData : Bool) : Key → Bool
  | .grant _ | .declared _ => true
  | .unit _ => purgeData
  | .plugin | .permission _ | .home _ => false

theorem Sweeping.uninstalled {purgeData : Bool} {affectedUnits : List UnitRef}
  (h : Sweeping gone db v) (hgone : ∀ k, gone k = cutOff purgeData k)
  (haffected : Announces (fun _ => True) db affectedUnits) :
  UninstalledEffect db v purgeData affectedUnits where
 alive := h.alive
 tombstone := by
  obtain ⟨row, hrow, hdead, -⟩ := h.tombstone
  exact ⟨row, hrow, hdead⟩
 bare := by
  obtain ⟨row, hrow, -, hpending⟩ := h.tombstone
  refine ⟨fun row' hrow' => ?_, fun key => ?_, fun slug => ?_⟩
  · rw [hrow] at hrow'
    cases hrow'
    exact hpending
  · have hkey := h.rows (.grant key) rfl (by simp)
    rw [hgone] at hkey
    exact hkey
  · have hslug := h.rows (.declared slug) rfl (by simp)
    rw [hgone] at hslug
    exact hslug
 rows unit := by
  have hunit := h.rows (.unit unit) rfl (by simp)
  rw [hgone] at hunit
  exact hunit
 nodup := haffected.1
 affected unit := (haffected.2 unit).trans (Iff.of_eq (true_and _))

theorem safe_uninstallClaimed (purgeData : Bool) :
  SafeUnder (Sweeping fun _ => false) (uninstallClaimed purgeData) := by
 have hkept : ∀ {axis : PluginConsentScope} {db v : Db}, Sweeping (fun _ => false) db v →
   Announces (fun unit => unit.consentScope = axis) db (enabledUnits axis v) := by
  intro axis db v h
  have hannounced := enabledUnits_announces axis v
  refine ⟨hannounced.1, fun unit => (hannounced.2 unit).trans ?_⟩
  have hrow : unit? v unit = unit? db unit := h.rows (.unit unit) rfl (by simp)
  rw [hrow]
 refine safeUnder_stmt (sweeping_robust _) (fun _ v₁ db v => Sweeping (fun _ => false) db v ∧
  Announces (fun unit => unit.consentScope = .household) db (enabledUnits .household v₁))
  (fun _ db v h => ⟨h, hkept h⟩) fun _ v₁ => ?_
 refine safeUnder_stmt ((sweeping_robust _).and (announces_robust _ _))
  (fun _ v₂ db v => Sweeping (fun _ => false) db v ∧
  Announces (fun _ => True) db (enabledUnits .household v₁ ++ enabledUnits .user v₂))
  (fun _ db v h => ⟨h.1, h.2.append (hkept h.1)⟩) fun _ v₂ => ?_
 refine safeUnder_stmt ((sweeping_robust _).and (announces_robust _ _))
  (fun _ _ db v => Sweeping _ db v ∧ _)
  (fun _ db v h => ⟨h.1.deleteGrants, h.2⟩) fun _ _ => ?_
 refine safeUnder_stmt ((sweeping_robust _).and (announces_robust _ _))
  (fun _ _ db v => Sweeping _ db v ∧ _)
  (fun _ db v h => ⟨h.1.deletePermissions, h.2⟩) fun _ _ => ?_
 cases purgeData with
 | false =>
  refine safeUnder_commit ((sweeping_robust _).and (announces_robust _ _)) fun db v h => ?_
  refine h.1.uninstalled (fun k => ?_) h.2
  cases k <;> rfl
 | true =>
  refine safeUnder_stmt ((sweeping_robust _).and (announces_robust _ _))
   (fun _ _ db v => Sweeping _ db v ∧ _)
   (fun _ db v h => ⟨h.1.deleteUnits .household, h.2⟩) fun _ _ => ?_
  refine safeUnder_stmt ((sweeping_robust _).and (announces_robust _ _))
   (fun _ _ db v => Sweeping _ db v ∧ _)
   (fun _ db v h => ⟨h.1.deleteUnits .user, h.2⟩) fun _ _ => ?_
  refine safeUnder_commit ((sweeping_robust _).and (announces_robust _ _)) fun db v h => ?_
  refine h.1.uninstalled (fun k => ?_) h.2
  cases k with
  | unit unit => cases unit <;> rfl
  | plugin | grant _ | declared _ | permission _ | home _ => rfl

theorem livingPlugin_some {row : Plugin} (h : livingPlugin v = some row) :
  plugin? v = some row ∧ row.uninstalledAt = none := by
 obtain ⟨hrow, halive⟩ := Option.filter_eq_some_iff.1 h
 exact ⟨hrow, by simpa using halive⟩

theorem sweeping_claimed {row : Plugin} (h : livingPlugin v = some row) (initiatedAt : ℕ) :
  Sweeping (fun _ => false) v (applyLog v [⟨.plugin, some (tombstoned initiatedAt row)⟩]) where
 alive := ⟨row, livingPlugin_some h⟩
 tombstone := by
  refine ⟨tombstoned initiatedAt row,
   lookup_applyWrite_self v .plugin (some (tombstoned initiatedAt row)), ?_, rfl⟩
  simp [tombstoned]
 rows k _ hne := lookup_applyLog_of_notMem v (by simpa using Ne.symm hne)

theorem pluginLock_written {row : Option Plugin} (locks : List PluginLock) :
  pluginLock true ∈ ([] : List PluginLock) ++ (locks ++ writeLocks [(⟨.plugin, row⟩ : PluginWrite)]) :=
 List.mem_append_right _ (List.mem_append_right _ List.mem_cons_self)

theorem safe_uninstall (authorized purgeData : Bool) (σ : LifecycleState) :
  Safe protocol (uninstall authorized purgeData) [] [] σ := by
 unfold uninstall
 split_ifs
 · trivial
 · refine safe_read (fun initiatedAt v τ => ?_) σ
   cases livingPlugin v with
   | none => trivial
   | some _ =>
    refine safe_stmt (fun _ => stable_const protocol [] True) trivial fun σ' _ _ _ _ => ?_
    cases hrow : livingPlugin (view σ' []) with
    | none => exact safe_abort
    | some row =>
     refine safe_uninstallClaimed purgeData _ _ _ (pluginLock_written _) ?_
     exact sweeping_claimed hrow initiatedAt

end Uninstall

section Units

/-- Only unit rows are written, and only while the plugin is known to live: `live`
    says that its row is locked and was found alive. -/
def UnitOnly : Prop → Program → Prop
  | _, .halt => True
  | live, .start recover body => UnitOnly live body ∧ UnitOnly False recover
  | live, .stmt locks writes next => ∀ clock v,
      (∀ w ∈ writes clock v, live ∧ ∃ unit, w.key = .unit unit) ∧
        UnitOnly (live ∨ (HoldsPlugin (locks v) ∧ Alive v)) (next clock v)
  | _, .commit event next => (∀ validated, event ≠ .installed validated) ∧ UnitOnly False next
  | _, .rollback next => UnitOnly False next

variable {live live' : Prop}

theorem UnitOnly.mono {code : Program} (h : UnitOnly live code) (himp : live → live') :
  UnitOnly live' code := by
 induction code generalizing live live' with
 | halt => trivial
 | start recover body _ ih => exact ⟨ih h.1 himp, h.2⟩
 | stmt locks writes next ih =>
  intro clock v
  refine ⟨fun w hw => ?_, ih clock v (h clock v).2 (Or.imp_left himp)⟩
  exact ((h clock v).1 w hw).imp_left himp
 | commit event next _ => exact h
 | rollback next _ => exact h

theorem effect_service {db db' : Db} {event : Event}
  (hevent : ∀ validated, event ≠ .installed validated) (h : UnitEffect db db') :
  Effect db db' (.service event) := by
 cases event with
 | installed validated => exact absurd rfl (hevent validated)
 | staged _ | rejected _ | activated _ | uninstalled | pluginUpdated | decided _ | revoked | unitUpdated _
 | unchanged => exact h

theorem later_alive {held : List PluginLock} {σ σ' : LifecycleState} (hlock : HoldsPlugin held)
  (hlater : Later protocol held σ σ') (h : Alive σ.db) : Alive σ'.db := by
 have hstable : Stable protocol held fun σ => Alive σ.db := fun _ _ halive _ _ hrely =>
  (alive_congr (rely_plugin hlock hrely)).2 halive
 exact hstable.later hlater h

theorem safe_of_unitOnly {code : Program} {held : List PluginLock} {log : List PluginWrite}
  {σ : LifecycleState} (h : UnitOnly live code) (hlive : live → HoldsPlugin held ∧ Alive σ.db)
  (hlog : ∀ w ∈ log, live ∧ ∃ unit, w.key = .unit unit) :
  Safe protocol (relabel .service code) held log σ := by
 induction code generalizing live held log σ with
 | halt => trivial
 | start recover body ihr ihb =>
  intro σ' hlater _
  refine ⟨ihb h.1 (fun hl => ?_) hlog, ihr h.2 False.elim fun w hw => absurd hw List.not_mem_nil⟩
  have halive : Alive σ'.db := later_alive (hlive hl).1 hlater (hlive hl).2
  exact ⟨(hlive hl).1, halive⟩
 | stmt locks writes next ih =>
  intro σ' hlater _ _ _
  have hlive' : live → HoldsPlugin held ∧ Alive σ'.db := fun hl =>
   (hlive hl).imp_right (later_alive (hlive hl).1 hlater)
  have hplugin : plugin? (view σ' log) = plugin? σ'.db := by
   refine lookup_applyLog_of_notMem _ fun w hw heq => ?_
   obtain ⟨unit, hunit⟩ := (hlog w hw).2
   rw [hunit] at heq
   cases heq
  obtain ⟨hwrites, hnext⟩ := h σ'.clock (view σ' log)
  refine ih _ _ hnext (fun hl => ?_) fun w hw => ?_
  · rcases hl with hl | ⟨⟨exclusive, hmem⟩, halive⟩
    · obtain ⟨⟨exclusive, hmem⟩, halive⟩ := hlive' hl
      exact ⟨⟨exclusive, List.mem_append_left _ hmem⟩, halive⟩
    · refine ⟨⟨exclusive, List.mem_append_right _ (List.mem_append_left _ hmem)⟩, ?_⟩
      exact (alive_congr hplugin).1 halive
  · rcases List.mem_append.1 hw with hw | hw
    · exact (hlog w hw).imp_left .inl
    · exact (hwrites w hw).imp_left .inl
 | commit event next ih =>
  intro σ' hlater _ _
  have hframe : ∀ k, (∀ unit, k ≠ .unit unit) → (applyLog σ'.db log).lookup k = σ'.db.lookup k := by
   intro k hk
   refine lookup_applyLog_of_notMem _ fun w hw heq => ?_
   obtain ⟨unit, hunit⟩ := (hlog w hw).2
   exact hk unit (heq.symm.trans hunit)
  have hnext : Safe protocol (relabel .service next) [] []
    (σ'.commit (.service event) (applyLog σ'.db log)) :=
   ih h.2 False.elim fun w hw => absurd hw List.not_mem_nil
  by_cases hl : live
  · have halive := later_alive (hlive hl).1 hlater (hlive hl).2
    exact ⟨fun _ _ _ _ => (hlive hl).1, effect_service h.1 ⟨hframe, .inl halive⟩, hnext⟩
  · have hempty : log = [] := List.eq_nil_iff_forall_not_mem.2 fun w hw => hl (hlog w hw).1
    subst hempty
    exact ⟨fun _ _ _ hne => absurd rfl hne, effect_service h.1 ⟨hframe, .inr fun _ => rfl⟩, hnext⟩
 | rollback next ih =>
  intro σ' _ _
  exact ih h False.elim fun w hw => absurd hw List.not_mem_nil

theorem unitOnly_query {next : ℕ → Db → Program} (h : ∀ clock v, UnitOnly live (next clock v)) :
  UnitOnly live (.query next) :=
 fun clock v => ⟨fun _ hw => absurd hw List.not_mem_nil, (h clock v).mono .inl⟩

theorem unitOnly_lock {locks : Db → List PluginLock} {next : ℕ → Db → Program}
  (h : ∀ clock v, UnitOnly live (next clock v)) : UnitOnly live (.lock locks next) :=
 fun clock v => ⟨fun _ hw => absurd hw List.not_mem_nil, (h clock v).mono .inl⟩

theorem unitOnly_execute {writes : ℕ → Db → List PluginWrite} {next : ℕ → Db → Program}
  (hwrites : ∀ clock v, ∀ w ∈ writes clock v, ∃ unit, w.key = .unit unit)
  (h : ∀ clock v, UnitOnly True (next clock v)) : UnitOnly True (.execute writes next) :=
 fun clock v => ⟨fun w hw => ⟨trivial, hwrites clock v w hw⟩, (h clock v).mono .inl⟩

theorem unitOnly_done {event : Event} (h : ∀ validated, event ≠ .installed validated) :
  UnitOnly live (.commit event .halt) := ⟨h, trivial⟩

theorem unitOnly_refused : UnitOnly live (.rollback .halt) := trivial

theorem unitOnly_assertStillLiving {expected : Option Plugin} {next : Plugin → Program}
  (h : ∀ row, UnitOnly True (next row)) : UnitOnly live (assertStillLiving expected next) := by
 intro clock v
 refine ⟨fun _ hw => absurd hw List.not_mem_nil, ?_⟩
 dsimp only
 cases hrow : plugin? v with
 | none => exact unitOnly_refused
 | some row =>
  dsimp only
  split_ifs with hdead
  · exact unitOnly_refused
  · exact unitOnly_refused
  · refine (h row).mono fun _ => .inr ⟨⟨false, ?_⟩, row, hrow, not_not.1 hdead⟩
    rw [lockPlugin, hrow]
    exact List.mem_cons_self

theorem unitOnly_openUnit {unit : UnitRef} {expected : Option Plugin} {requireSurface : Bool}
  {next : Option UnitRow → Program} (h : ∀ found, UnitOnly True (next found)) :
  UnitOnly False (openUnit unit expected requireSurface next) := by
 have hopened : UnitOnly False (assertStillLiving expected fun row =>
   if requireSurface && row.scope != .household then .rollback .halt
   else lockUnitScope unit <| .query fun _ v => next (unit? v unit)) := by
  apply unitOnly_assertStillLiving
  intro row
  split_ifs
  · exact unitOnly_refused
  · exact unitOnly_lock fun _ _ => unitOnly_query fun _ v => h _
 cases unit with
 | user id => exact hopened
 | household id =>
  refine unitOnly_lock fun _ v => ?_
  split_ifs
  · exact hopened
  · exact unitOnly_refused

theorem unitOnly_updateUnit {unit : UnitRef} {found : UnitRow} {guard : UnitRow → Bool}
  {f : UnitRow → UnitRow} {next : Program} (h : UnitOnly True next) :
  UnitOnly True (updateUnit unit found guard f next) := by
 refine unitOnly_execute (fun _ v w hw => ?_) fun _ _ => h
 split at hw
 · split at hw
   · exact ⟨unit, by rw [List.mem_singleton.1 hw]⟩
   · cases hw
 · cases hw

theorem unitOnly_enableOpened {host : Host} {validated : PluginManifestValidationResult}
  {unit : UnitRef} {config : Option Text} {initiatedAt : ℕ} {existing : Option UnitRow} :
  UnitOnly True (enableOpened host validated unit config initiatedAt existing) := by
 unfold enableOpened
 dsimp only
 split_ifs
 · exact unitOnly_refused
 · cases existing with
   | some row => exact unitOnly_updateUnit (unitOnly_done fun _ heq => by cases heq)
   | none =>
    refine unitOnly_query fun _ v => unitOnly_execute (fun _ v w hw => ?_) fun _ v => ?_
    · split at hw
      · cases hw
      · exact ⟨unit, by rw [List.mem_singleton.1 hw]⟩
    · split_ifs
      · exact unitOnly_refused
      · exact unitOnly_done fun _ heq => by cases heq

theorem unitOnly_setUnitEnabled (unit : UnitRef) (enabled authorized : Bool) :
  UnitOnly False (setUnitEnabled unit enabled authorized) := by
 refine unitOnly_query fun _ v => ?_
 cases livingPlugin v with
 | none => trivial
 | some _ =>
  dsimp only
  split_ifs
  · trivial
  · apply unitOnly_openUnit
    intro existing
    cases existing with
    | none => exact unitOnly_refused
    | some row =>
     dsimp only
     split_ifs
     · exact unitOnly_done fun _ heq => by cases heq
     · exact unitOnly_updateUnit (unitOnly_done fun _ heq => by cases heq)

theorem unitOnly_enableHousehold (host : Host) (input : EnableInput) :
  UnitOnly False (enableHousehold host input) := by
 refine unitOnly_query fun _ v => ?_
 cases livingPlugin v with
 | none => trivial
 | some plugin =>
  dsimp only
  split_ifs
  · trivial
  · cases revalidateStoredManifest host plugin with
    | error _ => trivial
    | ok validated =>
     dsimp only
     split_ifs
     · trivial
     · apply unitOnly_openUnit
       intro existing
       cases existing with
       | none => exact unitOnly_enableOpened
       | some row =>
        dsimp only
        split_ifs
        · exact unitOnly_done fun _ heq => by cases heq
        · exact unitOnly_enableOpened

theorem unitOnly_updateHouseholdConfig (host : Host) (householdId config : Text) (authorized : Bool) :
  UnitOnly False (updateHouseholdConfig host householdId config authorized) := by
 refine unitOnly_query fun _ v => ?_
 cases livingPlugin v with
 | none => trivial
 | some plugin =>
  dsimp only
  split_ifs
  · trivial
  · cases revalidateStoredManifest host plugin with
    | error _ => trivial
    | ok validated =>
     dsimp only
     split_ifs
     · trivial
     · apply unitOnly_openUnit
       intro existing
       cases existing with
       | none => exact unitOnly_refused
       | some row => exact unitOnly_updateUnit (unitOnly_done fun _ heq => by cases heq)

theorem safe_unitRequest {code : Program} (h : UnitOnly False code) (σ : LifecycleState) :
  Safe protocol (relabel .service code) [] [] σ :=
 safe_of_unitOnly h False.elim fun _ hw => absurd hw List.not_mem_nil

end Units

section Reinstall

def KeepsRetained (v : Db) (w : PluginWrite) : Prop :=
  w.key ≠ .plugin ∧ ∀ unit value, w = ⟨.unit unit, value⟩ → value.map retained = retainedAt v unit

/-- What `persist` does once the plugin row is its own. -/
def Revives : Program → Prop
  | .halt => True
  | .start _ _ => False
  | .stmt _ writes next => ∀ clock v, (∀ w ∈ writes clock v, KeepsRetained v w) ∧ Revives (next clock v)
  | .commit event next => (∃ validated, event = .installed validated) ∧ next = .halt
  | .rollback next => next = .halt

structure Reviving (db v : Db) : Prop where
  dead : ¬ Alive db
  alive : Alive v
  rows : ∀ unit, retainedAt v unit = retainedAt db unit

theorem reviving_robust : Robust Reviving := by
 rintro db v db' v' h ⟨hdb, hv⟩
 refine ⟨fun halive => h.dead ((alive_congr hdb.plugin).1 halive),
  (alive_congr hv.plugin).2 h.alive, fun unit => ?_⟩
 rw [retainedAt, retainedAt, hdb.unit unit, hv.unit unit]
 exact h.rows unit

theorem Reviving.write {db v : Db} (h : Reviving db v) {ws : List PluginWrite}
  (hws : ∀ w ∈ ws, KeepsRetained v w) : Reviving db (applyLog v ws) where
 dead := h.dead
 alive := (alive_congr (lookup_applyLog_of_notMem v fun w hw heq => (hws w hw).1 heq)).2 h.alive
 rows unit := by
  by_cases hmem : ∃ w ∈ ws, w.key = .unit unit
  · rw [← h.rows unit]
    exact (hws _ (lookup_applyLog_last v hmem)).2 unit _ rfl
  · rw [← h.rows unit, retainedAt, retainedAt, unit?, lookup_applyLog_of_notMem v fun w hw heq =>
     hmem ⟨w, hw, heq⟩]
    rfl

theorem safe_of_revives {code : Program} (h : Revives code) :
  SafeUnder Reviving (relabel .service code) := by
 induction code with
 | halt => exact fun _ _ _ _ _ => trivial
 | start recover body _ _ => exact h.elim
 | stmt locks writes next ih =>
  refine safeUnder_stmt reviving_robust (fun _ _ => Reviving) (fun clock db v hrel => ?_) fun clock v => ?_
  · exact hrel.write (h clock v).1
  · exact ih clock v (h clock v).2
 | commit event next _ =>
  obtain ⟨⟨validated, rfl⟩, rfl⟩ := h
  exact safeUnder_commit reviving_robust fun db v hrel => ⟨hrel.dead, hrel.alive, hrel.rows⟩
 | rollback next _ =>
  obtain rfl := h
  exact fun _ _ _ _ _ => safe_abort

theorem revives_updateFound {found : List (UnitRef × UnitRow)} {f : UnitRow → UnitRow}
  {next : Program} (hf : ∀ row, retained (f row) = retained row) (h : Revives next) :
  Revives (updateFound found f next) := by
 unfold updateFound
 split_ifs
 · exact h
 · intro _ v
   refine ⟨fun w hw => ?_, h⟩
   obtain ⟨⟨unit, row⟩, hentry, rfl⟩ := List.mem_map.1 hw
   have hrow := mem_unitRows.1 (List.mem_filter.1 hentry).1
   refine ⟨by simp, fun unit' value heq => ?_⟩
   cases heq
   rw [retainedAt, hrow, Option.map_some, Option.map_some, hf]

theorem revives_reconcileHouseholdDormancy {host : Host} {manifest : PluginManifest}
  {initiatedAt : ℕ} {next : Program} (h : Revives next) :
  Revives (reconcileHouseholdDormancy host manifest initiatedAt next) := by
 unfold reconcileHouseholdDormancy
 intro _ v
 refine ⟨fun _ hw => absurd hw List.not_mem_nil, ?_⟩
 cases manifest.scope with
 | server => exact revives_updateFound (fun _ => rfl) h
 | household => exact revives_updateFound (fun _ => rfl) (revives_updateFound (fun _ => rfl) h)

theorem revives_createRow {k : Key} {row : ℕ → Row k} {rest : Program} (hplugin : k ≠ .plugin)
  (hunit : ∀ unit, k ≠ .unit unit) (h : Revives rest) : Revives (createRow k row rest) := by
 intro clock v
 dsimp only
 refine ⟨fun w hw => ?_, ?_⟩
 · split at hw
   · cases hw
   · rw [List.mem_singleton.1 hw]
     exact ⟨hplugin, fun unit value heq => absurd (congrArg Write.key heq) (hunit unit)⟩
 · split_ifs
   · rfl
   · exact h

theorem revives_persistRows (input : InstallInput) (validated : PluginManifestValidationResult)
  (corePermissions : List (Text × Permission)) (initiatedAt : ℕ) :
  Revives (persistRows input validated corePermissions initiatedAt) := by
 unfold persistRows
 induction validated.declaredPermissions.map (·.canonicalSlug) with
 | cons slug rest ih => exact revives_createRow (by simp) (by simp) ih
 | nil =>
  rw [List.foldr_nil]
  induction serverChecks validated with
  | cons check rest ih => exact revives_createRow (by simp) (by simp) ih
  | nil => exact ⟨⟨validated, rfl⟩, rfl⟩

theorem reviving_written {v : Db} {row : Plugin} (hdead : ¬ Alive v)
  (halive : row.uninstalledAt = none) :
  Reviving v (applyLog v [⟨.plugin, some row⟩]) where
 dead := hdead
 alive := ⟨row, lookup_applyWrite_self v .plugin (some row), halive⟩
 rows unit := by
  rw [retainedAt, retainedAt, unit?, lookup_applyLog_of_notMem v (by simp)]
  rfl

theorem safe_claimed {code : Program} (h : Revives code) {v : Db} {row : Plugin}
  {σ : LifecycleState} (hview : v = σ.db) (hdead : ¬ Alive v) (halive : row.uninstalledAt = none) :
  Safe protocol (relabel .service code) ([] ++ ([] ++ writeLocks [(⟨.plugin, some row⟩ : PluginWrite)]))
   ([] ++ [⟨.plugin, some row⟩]) σ := by
 refine safe_of_revives h _ _ _ (pluginLock_written []) ?_
 rw [hview] at hdead
 exact reviving_written hdead halive

theorem safe_createPlugin {rest : Program} (h : Revives rest) {row : ℕ → Plugin}
  (halive : ∀ clock, (row clock).uninstalledAt = none) (σ : LifecycleState) :
  Safe protocol (relabel .service (createRow .plugin row rest)) [] [] σ := by
 refine safe_stmt (fun _ => stable_const protocol [] True) trivial fun σ' _ _ _ _ => ?_
 have hview : view σ' [] = σ'.db := rfl
 dsimp only
 rw [hview]
 cases hrow : σ'.db.lookup .plugin with
 | some old => exact safe_abort
 | none =>
  refine safe_claimed h rfl (fun hold => ?_) (halive σ'.clock)
  obtain ⟨old, hold, -⟩ := hold
  cases hrow.symm.trans hold

theorem safe_persist (host : Host) (input : InstallInput)
  (validated : PluginManifestValidationResult) (corePermissions : List (Text × Permission))
  (initiatedAt : ℕ) (σ : LifecycleState) :
  Safe protocol (relabel .service (persist host input validated corePermissions initiatedAt)) [] [] σ := by
 refine safe_read (fun _ v σ₁ => safe_read (fun _ v' σ₂ => ?_) σ₁) σ
 have hrows := revives_persistRows input validated corePermissions initiatedAt
 dsimp only
 split
 · exact safe_abort
 · cases plugin? v with
   | none => exact safe_createPlugin hrows (fun _ => rfl) σ₂
   | some existing =>
    dsimp only
    split
    · exact safe_abort
    · refine safe_stmt (fun _ => stable_const protocol [] True) trivial fun σ₃ _ _ _ _ => ?_
      have hview : view σ₃ [] = σ₃.db := rfl
      dsimp only
      rw [hview]
      cases hrow : plugin? σ₃.db with
      | none => exact safe_abort
      | some row =>
       by_cases halive : row.uninstalledAt = none
       · simp only [halive, if_true]
         exact safe_abort
       · simp only [halive, if_false]
         refine safe_claimed (revives_reconcileHouseholdDormancy hrows) rfl (fun hold => ?_) rfl
         obtain ⟨old, hold, hnone⟩ := hold
         cases hrow.symm.trans hold
         exact halive hnone

theorem safe_install (host : Host) (input : InstallInput) (σ : LifecycleState) :
  Safe protocol (relabel .service (install host input)) [] [] σ := by
 unfold install
 cases validatePluginManifest host.rules input.manifest true with
 | error _ => trivial
 | ok validated =>
  dsimp only
  split
  · trivial
  · refine safe_read (fun initiatedAt _ σ₁ => safe_read (fun _ v σ₂ => ?_) σ₁) σ
    dsimp only
    split
    · split
      · exact safe_persist host input validated _ initiatedAt σ₂
      · trivial
    · trivial

end Reinstall

section Runs

theorem sound (host : Host) : Sound protocol (program host) where
 safe := fun request σ _ => by
  cases request with
  | uninstall authorized purgeData => exact safe_uninstall authorized purgeData σ
  | install input => exact safe_install host input σ
  | enableHousehold input => exact safe_unitRequest (unitOnly_enableHousehold host input) σ
  | disableHousehold householdId authorized => exact safe_unitRequest (unitOnly_setUnitEnabled _ _ _) σ
  | updateHouseholdConfig householdId config authorized =>
   exact safe_unitRequest (unitOnly_updateHouseholdConfig host householdId config authorized) σ
  | enableUser userId => exact safe_unitRequest (unitOnly_setUnitEnabled _ _ _) σ
  | disableUser userId => exact safe_unitRequest (unitOnly_setUnitEnabled _ _ _) σ
 tick := fun _ => .tick
 commit := fun _ _ _ hinv heffect => hinv.commit heffect
 outside := fun _ _ hinv hw => hinv.outside hw

/-- From any store whose tombstone, if there is one, was left bare. -/
theorem uninstall_is_a_clean_cut (host : Host) (db : Db) (hbare : Tombstoned db → Bare db)
    (s : Sys Row UnitRef Outcome) (h : Reachable (program host) outside db s) :
    CleanCut s.shared.ledger s.shared.db :=
 (reachable_wellRun (sound host) (recorded_initial hbare) h).inv.cleanCut

def plainHost : Host := ⟨⟨fun _ _ => []⟩, fun _ _ _ => true, fun _ _ => .conforms⟩

def servingStore : Db := ofRows [
  ⟨.plugin, ⟨"acme".toList, "1.0.0".toList, .household, true, .malformed [], emptyConfig, [],
   [], 0, false, none, none⟩⟩,
  ⟨.unit (.household "h".toList), ⟨0, true, false, none, emptyConfig, none, none⟩⟩,
  ⟨.unit (.user "u".toList), ⟨0, true, false, none, emptyConfig, none, none⟩⟩]

theorem servingStore_bare : Tombstoned servingStore → Bare servingStore := by
 rintro ⟨row, hrow, hdead⟩
 cases hrow
 exact absurd rfl hdead

def racedUninstall : List (Action Row Request) :=
  [.spawn (.uninstall true true), .spawn (.disableUser "u".toList), .advance 1, .advance 0, .advance 0,
    .advance 0, .advance 0, .advance 0, .advance 0, .advance 0, .advance 0, .advance 0, .advance 1,
     .advance 1]

def announced (e : Entry Row Outcome) : Option (List UnitRef) :=
  match e.event with
  | .uninstalled _ affectedUnits => some affectedUnits
  | .service _ => none

theorem uninstall_is_a_clean_cut_raced : ∃ s, Reachable (program plainHost) outside servingStore s ∧
    s.shared.ledger.map announced = [some [.household "h".toList, .user "u".toList]] ∧
    CleanCut s.shared.ledger s.shared.db := by
 have hrun : (run (program plainHost) outside (initial servingStore) racedUninstall).map
   (fun s => s.shared.ledger.map announced) = some [some [.household "h".toList, .user "u".toList]] := by
  decide +kernel
 obtain ⟨s, hs, hledger⟩ := Option.map_eq_some_iff.1 hrun
 have hreach := reachable_of_run hs
 exact ⟨s, hreach, hledger, uninstall_is_a_clean_cut plainHost servingStore servingStore_bare s hreach⟩

end Runs

end BoardGamesEmpire.PluginUninstall
