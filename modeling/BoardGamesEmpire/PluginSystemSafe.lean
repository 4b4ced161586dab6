import BoardGamesEmpire.PluginGrantSafe

set_option autoImplicit false

/-!
# The plugin services together keep the protocol

Install, uninstall and the server-wide switches, and with them every request:
whatever interleaving of the services runs, each commit has its effect.
-/
namespace BoardGamesEmpire.PluginSystemSafe
open JsText Manifest ReadCommitted ReadCommittedProtocol PluginStore PluginActivation PluginUpdateProgram
  PluginGrantProgram PluginSystem PluginProtocol PluginExclusive PluginShared PluginUpdateSafe
  PluginGrantSafe

section Install

variable {validated : PluginManifestValidationResult} {done : List Text} {db v : Db}

structure Installing (validated : PluginManifestValidationResult) (done : List Text) (db v : Db) :
    Prop where
  dead : ∀ row, plugin? db = some row → row.uninstalledAt ≠ none
  plugin : ∃ row, Living v row ∧ row.pending = none ∧ row.manifestJson = .manifest validated.manifest
  grants : ∀ key, grant? v key = grant? db key ∨ ∃ check ∈ validated.permissionChecks,
    check.consentScope = .server ∧ key = serverGrant check.canonicalSlug ∧
    ∃ g, grant? v key = some g ∧ g.status = .granted
  catalog : ∀ slug, (declared? v slug).isSome = true ↔ (declared? db slug).isSome = true ∨ slug ∈ done
  serving : ∀ unit, Serving v unit → Serving db unit

theorem living_congr {v v' : Db} {row : Plugin} (heq : plugin? v' = plugin? v) (h : Living v row) :
  Living v' row := ⟨heq.trans h.1, h.2⟩

theorem installing_robust (validated : PluginManifestValidationResult) (done : List Text) :
  Robust (Installing validated done) := by
 intro db v db' v' h hdrift
 refine ⟨fun row hrow => h.dead row (hdrift.plugin.1 ▸ hrow), ?_, fun key => ?_, fun slug => ?_,
  fun unit hserving => ?_⟩
 · obtain ⟨row, hliving, hrest⟩ := h.plugin
   exact ⟨row, living_congr hdrift.plugin.2 hliving, hrest⟩
 · rcases hdrift (.grant key) with ⟨hdb, hv⟩ | ⟨-, heq, -⟩
   · have hgrant := h.grants key
     rw [grant?, ← hv, grant?, ← hdb] at hgrant
     exact hgrant
   · exact .inl heq
 · rw [(hdrift.declared slug).1, (hdrift.declared slug).2]
   exact h.catalog slug
 · have hunit := hdrift.unit unit
   exact serving_congr hunit.1.symm (h.serving unit (serving_congr hunit.2 hserving))

theorem installing_tolerant (validated : PluginManifestValidationResult) (done : List Text) :
  Tolerant (Installing validated done) := by
 intro db v v' h hquiet
 refine ⟨h.dead, ?_, fun key => ?_, fun slug => ?_,
  fun unit hserving => h.serving unit (hquiet.serving unit hserving)⟩
 · obtain ⟨row, hliving, hrest⟩ := h.plugin
   exact ⟨row, living_congr (hquiet.frame .plugin (by simp)) hliving, hrest⟩
 · have hgrant := h.grants key
   have hsame : grant? v' key = grant? v key := hquiet.frame (.grant key) (by simp)
   rw [← hsame] at hgrant
   exact hgrant
 · have hsame : declared? v' slug = declared? v slug := hquiet.frame (.declared slug) (by simp)
   rw [hsame]
   exact h.catalog slug

variable {Ψ : State → Prop}

theorem safeIn_createRow (hΨ : Stable protocol [] Ψ) {Rel Rel' : Db → Db → Prop} (hrel : Robust Rel)
  {k : Key} {row : ℕ → Row k} {rest : Program}
  (hwrite : ∀ clock db v, Rel db v → Rel' db (applyLog v [⟨k, some (row clock)⟩]))
  (hrest : SafeIn Ψ Rel' rest) : SafeIn Ψ Rel (createRow k row rest) := by
 refine safeIn_execute hΨ hrel (fun _ v db v' => (v.lookup k).isSome = true ∨ Rel' db v')
  (fun clock db v h => ?_) fun _ v => ?_
 · split
   · exact .inl ‹_›
   · exact .inr (hwrite clock db v h)
 · split
   · exact safeIn_rollback hΨ fun _ _ _ => trivial
   · rename_i hnone
     exact hrest.mono fun db v' h => h.resolve_left hnone

theorem Installing.createPermission (h : Installing validated done db v) (slug : Text) :
  Installing validated (done ++ [slug]) db (applyLog v [⟨.declared slug, some ⟨.low⟩⟩]) := by
 have hframe : ∀ k, k ≠ .declared slug →
   (applyLog v [⟨.declared slug, some ⟨.low⟩⟩]).lookup k = v.lookup k :=
  fun k hk => lookup_applyLog_of_notMem v (by simpa using Ne.symm hk)
 refine ⟨h.dead, ?_, fun key => ?_, fun other => ?_, fun unit hserving => h.serving unit ?_⟩
 · obtain ⟨row, hliving, hrest⟩ := h.plugin
   exact ⟨row, living_congr (hframe .plugin (by simp)) hliving, hrest⟩
 · have hgrant := h.grants key
   rw [grant?, ← hframe (.grant key) (by simp)] at hgrant
   exact hgrant
 · by_cases hslug : other = slug
   · subst hslug
     have hself : declared? (applyLog v [⟨.declared other, some ⟨.low⟩⟩]) other = some ⟨.low⟩ :=
      lookup_applyWrite_self v (.declared other) (some ⟨.low⟩)
     simp [hself]
   · have hsame : declared? (applyLog v [⟨.declared slug, some ⟨.low⟩⟩]) other = declared? v other :=
      hframe (.declared other) (by simpa using hslug)
     rw [hsame, h.catalog other]
     simp [hslug]
 · exact serving_congr (hframe (.unit unit) (by simp)) hserving

theorem Installing.seedGrant (h : Installing validated done db v)
  {check : NormalizedPermissionRequest} (hcheck : check ∈ validated.permissionChecks)
  (hscope : check.consentScope = .server) {g : PluginGrant} (hgranted : g.status = .granted) :
  Installing validated done db (applyLog v [⟨.grant (serverGrant check.canonicalSlug), some g⟩]) := by
 have hframe : ∀ k, k ≠ .grant (serverGrant check.canonicalSlug) →
   (applyLog v [⟨.grant (serverGrant check.canonicalSlug), some g⟩]).lookup k = v.lookup k :=
  fun k hk => lookup_applyLog_of_notMem v (by simpa using Ne.symm hk)
 refine ⟨h.dead, ?_, fun key => ?_, fun slug => ?_, fun unit hserving => h.serving unit ?_⟩
 · obtain ⟨row, hliving, hrest⟩ := h.plugin
   exact ⟨row, living_congr (hframe .plugin (by simp)) hliving, hrest⟩
 · by_cases hkey : key = serverGrant check.canonicalSlug
   · subst hkey
     exact .inr ⟨check, hcheck, hscope, rfl, g, lookup_applyWrite_self v (.grant _) (some g), hgranted⟩
   · have hgrant := h.grants key
     rw [grant?, ← hframe (.grant key) (by simpa using hkey)] at hgrant
     exact hgrant
 · have hsame := hframe (.declared slug) (by simp)
   rw [declared?, hsame]
   exact h.catalog slug
 · exact serving_congr (hframe (.unit unit) (by simp)) hserving

theorem safeIn_seedGrants (hΨ : Stable protocol [] Ψ) (checks : List NormalizedPermissionRequest)
  (hchecks : ∀ check ∈ checks, check ∈ validated.permissionChecks ∧ check.consentScope = .server)
  {row : NormalizedPermissionRequest → ℕ → PluginGrant}
  (hrow : ∀ check id, (row check id).status = .granted) {rest : Program}
  (hrest : SafeIn Ψ (Installing validated done) rest) :
  SafeIn Ψ (Installing validated done) (checks.foldr (fun check rest =>
   createRow (.grant (serverGrant check.canonicalSlug)) (row check) rest) rest) := by
 induction checks with
 | nil => exact hrest
 | cons check checks ih =>
  obtain ⟨hcheck, hscope⟩ := hchecks check List.mem_cons_self
  refine safeIn_createRow hΨ (installing_robust validated done)
   (fun clock db v h => h.seedGrant hcheck hscope (hrow check clock)) ?_
  exact ih fun other hother => hchecks other (List.mem_cons_of_mem _ hother)

theorem safeIn_createPermissions (hΨ : Stable protocol [] Ψ) (slugs done : List Text)
  {rest : Program} (hrest : SafeIn Ψ (Installing validated (done ++ slugs)) rest) :
  SafeIn Ψ (Installing validated done) (slugs.foldr (fun slug rest =>
   createRow (.declared slug) (fun _ => ⟨.low⟩) rest) rest) := by
 induction slugs generalizing done with
 | nil => simpa using hrest
 | cons slug slugs ih =>
  refine safeIn_createRow hΨ (installing_robust validated done)
   (fun clock db v h => h.createPermission slug) (ih (done ++ [slug]) ?_)
  simpa using hrest

theorem safeIn_persistRows (hΨ : Stable protocol [] Ψ) (hvalid : Validated validated)
  (input : InstallInput) (corePermissions : List (Text × Permission)) (initiatedAt : ℕ) :
  SafeIn Ψ (Installing validated []) (persistRows input validated corePermissions initiatedAt) := by
 refine safeIn_createPermissions hΨ _ [] ?_
 refine safeIn_seedGrants hΨ _ (fun check hcheck => ?_) (fun _ _ => rfl) ?_
 · obtain ⟨hmem, hscope⟩ := List.mem_filter.1 hcheck
   exact ⟨hmem, by simpa using hscope⟩
 · refine safeIn_commit hΨ (installing_robust validated _) fun σ db' _ _ h => ?_
   exact ⟨hvalid, h.dead, h.plugin, h.grants, h.catalog, h.serving⟩

theorem installing_of_write {row : Plugin}
  (hdead : ∀ old, plugin? v = some old → old.uninstalledAt ≠ none)
  (halive : row.uninstalledAt = none) (hpending : row.pending = none)
  (hjson : row.manifestJson = .manifest validated.manifest) :
  Installing validated [] v (applyLog v [⟨.plugin, some row⟩]) := by
 have hframe : ∀ k, k ≠ .plugin → (applyLog v [⟨.plugin, some row⟩]).lookup k = v.lookup k :=
  fun k hk => lookup_applyLog_of_notMem v (by simpa using Ne.symm hk)
 refine ⟨hdead, ⟨row, ⟨lookup_applyWrite_self v .plugin (some row), halive⟩, hpending, hjson⟩,
  fun key => .inl (hframe (.grant key) (by simp)), fun slug => ?_, fun unit hserving => ?_⟩
 · have hsame := hframe (.declared slug) (by simp)
   simp [declared?, hsame]
 · exact serving_congr (hframe (.unit unit) (by simp)) hserving

variable {host : Host} {σ : State}

theorem safe_persist (hvalid : Validated validated) (input : InstallInput)
  (corePermissions : List (Text × Permission)) (initiatedAt : ℕ) :
  Safe protocol (persist host input validated corePermissions initiatedAt) [] [] σ := by
 have hΨ : Stable protocol [] fun _ => True := stable_const _ _ True
 have hrows := safeIn_persistRows hΨ hvalid input corePermissions initiatedAt
 refine safe_read hΨ trivial fun σ₁ _ _ => ?_
 refine safe_read hΨ trivial fun σ₂ _ _ => ?_
 split
 · exact safe_abort
 split
 · refine safe_stmt (fun _ => hΨ) trivial fun σ₃ _ _ _ _ => ?_
   have hview : view σ₃ [] = σ₃.db := rfl
   simp only [hview]
   split
   · exact safe_abort
   · rename_i hnone
     refine hrows _ _ _ (by simp [writeLocks, pluginLock]) trivial (installing_of_write ?_ rfl rfl rfl)
     intro old hold
     change σ₃.db.lookup .plugin = some old at hold
     simp [hold] at hnone
 · split
   · exact safe_abort
   refine safe_stmt (fun _ => hΨ) trivial fun σ₃ _ _ _ _ => ?_
   have hview : view σ₃ [] = σ₃.db := rfl
   simp only [hview]
   cases hrow : plugin? σ₃.db with
   | none => exact safe_abort
   | some row =>
    by_cases halive : row.uninstalledAt = none
    · simp only [halive, if_true]
      exact safe_abort
    · simp only [halive, if_false]
      refine safeIn_dormancy hΨ (installing_robust validated []) (installing_tolerant validated [])
       hrows host
       validated.manifest initiatedAt _ _ _ (by simp [writeLocks, pluginLock]) trivial
       (installing_of_write ?_ rfl rfl rfl)
      intro old hold
      cases hrow.symm.trans hold
      exact halive

theorem safe_install (input : InstallInput) : Safe protocol (install host input) [] [] σ := by
 have hΨ : Stable protocol [] fun _ => True := stable_const _ _ True
 unfold install
 split
 · trivial
 rename_i validated hvalidated
 split
 · trivial
 refine safe_read hΨ trivial fun σ₁ _ _ => ?_
 refine safe_loadCorePermissions hΨ trivial fun corePermissions σ₂ _ _ => ?_
 split
 · exact safe_persist (validated_of_ok hvalidated) input corePermissions _
 · trivial

end Install

section Lifecycle

variable {host : Host} {σ : State}

/-- An uninstall under way: the row tombstoned, the decisions and the catalog gone. -/
structure Uninstalling (row : Plugin) (initiatedAt : ℕ) (db v : Db) : Prop where
  before : plugin? db = some row
  after : plugin? v = some (tombstoned initiatedAt row)
  grants : ∀ key, grant? v key = none

theorem uninstalling_robust (row : Plugin) (initiatedAt : ℕ) :
  Robust (Uninstalling row initiatedAt) := by
 intro db v db' v' h hdrift
 refine ⟨hdrift.plugin.1.trans h.before, hdrift.plugin.2.trans h.after, fun key => ?_⟩
 exact (hdrift.grant key).elim (fun heq => heq.trans (h.grants key)) id

theorem catalog_robust : Robust fun _ v => ∀ slug, declared? v slug = none := by
 intro db v db' v' h hdrift slug
 rw [(hdrift.declared slug).2]
 exact h slug

theorem lookup_deleteUnits (axis : PluginConsentScope) (v : Db) {k : Key}
  (hk : ∀ unit, k ≠ .unit unit) :
  (applyLog v (deleteUnits axis v)).lookup k = v.lookup k := by
 refine lookup_applyLog_of_notMem v fun w hw heq => ?_
 obtain ⟨entry, -, rfl⟩ := List.mem_map.1 hw
 exact hk _ heq.symm

theorem safe_uninstall (authorized purgeData : Bool) :
  Safe protocol (uninstall authorized purgeData) [] [] σ := by
 have hΨ : Stable protocol [] fun _ => True := stable_const _ _ True
 unfold uninstall
 split
 · trivial
 refine safe_read hΨ trivial fun σ₁ _ _ => ?_
 split
 · trivial
 refine safe_updatePlugin (fun _ _ => safe_abort) fun row hguard => ?_
 have halive : row.uninstalledAt = none := by simpa using hguard
 have hrobust := uninstalling_robust row σ₁.clock
 have hboth := hrobust.and catalog_robust
 have hcommit : SafeIn (fun _ => True) (fun db v => Uninstalling row σ₁.clock db v ∧
   ∀ slug, declared? v slug = none) (.commit .uninstalled .halt) := by
  refine safeIn_commit hΨ hboth fun σ db' _ _ h => ?_
  exact ⟨⟨row, σ₁.clock, ⟨h.1.before, halive⟩, h.1.after⟩, h.1.grants, h.2⟩
 have hpurge : ∀ (axis : PluginConsentScope) {rest : Program}, SafeIn (fun _ => True)
   (fun db v => Uninstalling row σ₁.clock db v ∧ ∀ slug, declared? v slug = none) rest →
   SafeIn (fun _ => True) (fun db v => Uninstalling row σ₁.clock db v ∧ ∀ slug, declared? v slug = none)
    (.execute (fun _ v => deleteUnits axis v) fun _ _ => rest) := by
  intro axis rest hrest
  refine safeIn_execute hΨ hboth (fun _ _ => _) (fun _ db v h => ?_) fun _ _ => hrest
  refine ⟨⟨h.1.before, (lookup_deleteUnits axis v (by simp)).trans h.1.after, fun key => ?_⟩,
   fun slug => ?_⟩
  · exact (lookup_deleteUnits axis v (by simp)).trans (h.1.grants key)
  · exact (lookup_deleteUnits axis v (by simp)).trans (h.2 slug)
 refine safeIn_execute hΨ (pluginEffect_robust row _) (fun _ _ => Uninstalling row σ₁.clock)
  (fun _ db v h => ?_) fun _ _ => ?_
 · refine ⟨h.before, ?_, fun key => ?_⟩
   · exact (lookup_applyLog_of_notMem v (deleteGrants_key (by simp))).trans h.after
   · rw [lookup_deleteGrants]
     simp
 refine safeIn_execute hΨ hrobust (fun _ _ db v => Uninstalling row σ₁.clock db v ∧
  ∀ slug, declared? v slug = none) (fun _ db v h => ?_) fun _ _ => ?_
 · have hkeys : ∀ k, (∀ slug, k ≠ .declared slug) →
     (applyLog v (deletePermissions (fun _ => true) v)).lookup k = v.lookup k := by
    intro k hk
    refine lookup_applyLog_of_notMem v fun w hw heq => ?_
    obtain ⟨entry, -, rfl⟩ := List.mem_map.1 hw
    exact hk _ heq.symm
   refine ⟨⟨h.before, (hkeys .plugin (by simp)).trans h.after, fun key => ?_⟩, fun slug => ?_⟩
   · exact (hkeys (.grant key) (by simp)).trans (h.grants key)
   · rw [lookup_deletePermissions]
     simp
 split
 · exact hpurge .household (hpurge .user hcommit)
 · exact hcommit

theorem safe_setEnabled (authorized enabled registered : Bool) :
  Safe protocol (setEnabled authorized enabled registered) [] [] σ := by
 unfold setEnabled
 split
 · trivial
 refine safe_read (stable_const _ _ True) trivial fun σ₁ _ _ => ?_
 split
 · trivial
 split
 · trivial
 refine safe_updatePlugin (fun _ _ => safe_unchanged fun _ _ => trivial) fun row _ => ?_
 refine safeIn_commit (stable_const _ _ True) (pluginEffect_robust row _) fun σ db' _ _ h => ?_
 exact ⟨row, _, row.config, _, h⟩

theorem safe_updateConfig (authorized : Bool) (config : Text) :
  Safe protocol (updateConfig host authorized config) [] [] σ := by
 unfold updateConfig
 split
 · trivial
 refine safe_read (stable_const _ _ True) trivial fun σ₁ _ _ => ?_
 split
 · trivial
 split
 · trivial
 split
 · trivial
 refine safe_stmt (fun _ => stable_const _ _ True) trivial fun σ₂ _ _ _ _ => ?_
 split
 · exact safe_abort
 split
 · exact safe_abort
 refine safe_updatePlugin (fun _ _ => safe_abort) fun row _ => ?_
 refine safeIn_commit (stable_const _ _ True) (pluginEffect_robust row _) fun σ db' _ _ h => ?_
 exact ⟨row, row.enabled, _, row.restartRequired, h⟩

end Lifecycle

theorem protocol_sound (host : Host) : Sound protocol (program host) where
 safe request σ _ := by
  cases request with
  | install input => exact safe_install input
  | stage input => exact safe_stage input
  | approve input => exact safe_approve input
  | reject input => exact safe_reject input
  | uninstall authorized purgeData => exact safe_uninstall authorized purgeData
  | setEnabled authorized enabled registered => exact safe_setEnabled authorized enabled registered
  | updateConfig authorized config => exact safe_updateConfig authorized config
  | decide input => exact safe_decide input
  | revokeForAuthorityLoss unit => exact safe_revokeForAuthorityLoss unit
  | enableHousehold input => exact safe_enableHousehold input
  | setUnitEnabled unit enabled authorized => exact safe_setUnitEnabled unit enabled authorized
  | updateHouseholdConfig householdId config authorized =>
   exact safe_updateHouseholdConfig householdId config authorized
 tick _ h := h.tick
 commit _ _ _ h heffect := h.commit heffect
 outside _ _ h hkey := h.outside hkey

end BoardGamesEmpire.PluginSystemSafe
