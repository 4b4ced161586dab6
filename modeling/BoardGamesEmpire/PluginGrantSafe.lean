import BoardGamesEmpire.PluginShared
import BoardGamesEmpire.PluginUpdateSafe

set_option autoImplicit false

/-!
# Decisions and unit rows keep the protocol

Every program of the grant and the unit services, from the locks it takes to
its commit. A unit that serves after a commit either served before it or
refuses nothing that is required of it.
-/
namespace BoardGamesEmpire.PluginGrantSafe
open JsText Manifest ReadCommitted ReadCommittedProtocol PluginStore PluginActivation PluginSuspension
  PluginUpdateProgram PluginGrantProgram PluginSystem PluginProtocol PluginExclusive PluginShared
  PluginUpdateSafe

section Commits

variable {live : Plugin} {unit : UnitRef} {Rel : Db → Db → Prop} {held : List PluginLock}

theorem lookup_unitLog {rest : List PluginWrite} (hrest : ∀ w ∈ rest, w.key = .unit unit) (db : Db)
  {k : Key} (hk : k ≠ .unit unit) : (applyLog db rest).lookup k = db.lookup k := by
 refine lookup_applyLog_of_notMem db fun w hw heq => hk ?_
 exact heq.symm.trans (hrest w hw)

def ServesOn (live : Plugin) (unit : UnitRef) (db v : Db) : Prop :=
  Serving v unit → Serving db unit ∨ ∃ m, live.manifestJson = .manifest m ∧ NoRefusal v m unit

theorem servesOn_steady (live : Plugin) (unit : UnitRef) :
  Steady live unit (ServesOn live unit) := by
 intro db v db' v' h hdb hv hserving
 rcases h (hv.serving.1 hserving) with hbefore | ⟨m, hjson, hnone⟩
 · exact .inl (hdb.serving.2 hbefore)
 · exact .inr ⟨m, hjson, hv.noRefusal hjson hnone⟩

theorem safeAt_commitUnit (halive : live.uninstalledAt = none) :
  SafeAt [] live unit true (ServesOn live unit) (.commit (.unitUpdated unit) .halt) := by
 intro held rest σ hplugin hunit hrest _ hlive hrows
 refine safe_commit (fun hlog => stable_at hplugin hunit (servesOn_steady live unit) hlog)
  ⟨hlive, hrows⟩ ?_
 rintro σ' - - ⟨hlive', hrows'⟩
 have hframe : ∀ k, k ≠ .unit unit → (applyLog σ'.db ([] ++ rest)).lookup k = σ'.db.lookup k :=
  fun k hk => lookup_unitLog hrest σ'.db hk
 refine ⟨⟨?_, ?_, ?_, ?_⟩, ⟨hframe, fun hserving => ?_⟩, trivial⟩
 · exact fun slug hne => absurd (hframe (.declared slug) (by simp)) hne
 · exact fun key hne => absurd (hframe (.grant key) (by simp)) hne
 · intro other hne
   have hother : other = unit := by
    by_contra hother
    exact hne (hframe (.unit other) (by simpa using hother))
   exact ⟨hplugin, .inl (hother ▸ hunit)⟩
 · exact fun other slug _ _ _ _ _ _ _ _ hne => absurd (hframe (.grant _) (by simp)) hne
 · refine (hrows' hserving).imp id ?_
   rintro ⟨m, hjson, hnone⟩
   exact ⟨live, m, ⟨hlive', halive⟩, hjson, hnone⟩

structure Decision (live : Plugin) (m : PluginManifest) (key : GrantKey)
    (check : NormalizedPermissionRequest) (g : PluginGrant) : Prop where
  alive : live.uninstalledAt = none
  manifest : live.manifestJson = .manifest m
  valid : Valid m
  requested : check ∈ permissionChecksOf m
  slug : key.permissionSlug = check.canonicalSlug
  scope : key.scopeType = grantScopeOf check.consentScope
  allowed : g.status = .denied → check.required = true → check.consentScope ≠ .server

theorem unitAt_unit (unit : UnitRef) : unitAt unit.scope unit.scopeId = some unit := by
 cases unit <;> rfl

theorem unitAt_some {key : GrantKey} (h : unitAt key.scopeType key.scopeId = some unit) :
  key = unitGrant unit key.permissionSlug := by
 obtain ⟨scopeType, scopeId, slug⟩ := key
 cases scopeType <;> cases h <;> rfl

variable {m : PluginManifest} {key : GrantKey} {check : NormalizedPermissionRequest} {g : PluginGrant}

theorem decided_guarantee (hd : Decision live m key check g) (hplugin : HoldsPlugin held) {db db' : Db}
  (hlive : plugin? db = some live) (hgrant : grant? db' key = some g)
  (hframe : ∀ k, k ≠ .grant key → (∀ unit, k ≠ .unit unit) → db'.lookup k = db.lookup k)
  (hunits : ∀ unit, unit? db' unit ≠ unit? db unit → advisoryLock unit ∈ held)
  (hrefusal : ∀ unit, unitAt key.scopeType key.scopeId = some unit → g.status = .denied →
   check.required = true → advisoryLock unit ∈ held) : Guarantee held db db' where
 catalog slug hne := absurd (hframe (.declared slug) (by simp) (by simp)) hne
 grants _ _ := .inr hplugin
 units unit hne := ⟨hplugin, .inl (hunits unit hne)⟩
 refusals unit slug row m' g' hrow hjson hrequired hg' hdenied hne := by
  have hkey : unitGrant unit slug = key := by
   by_contra hother
   exact hne (hframe (.grant (unitGrant unit slug)) (by simpa using hother) (by simp))
  subst hkey
  cases hlive.symm.trans hrow
  cases hd.manifest.symm.trans hjson
  cases hgrant.symm.trans hg'
  obtain ⟨check', hcheck', hslug, -, hmust⟩ := hrequired
  obtain rfl := check_eq_of_slug hd.valid hcheck' hd.requested (hslug.trans hd.slug)
  exact .inl (hrefusal unit (unitAt_unit unit) hdenied hmust)

theorem decided_effect (hd : Decision live m key check g) {σ : State} {db' : Db}
  (hlive : plugin? σ.db = some live) (hgrant : grant? db' key = some g)
  (hframe : ∀ k, k ≠ .grant key → (∀ unit, k ≠ .unit unit) → db'.lookup k = σ.db.lookup k)
  (hunit : match unitAt key.scopeType key.scopeId with
   | none => ∀ unit, unit? db' unit = unit? σ.db unit
   | some unit => UnitEffect σ.db db' unit m (g.status = .denied → check.required = false)) :
  Effect σ (.decided key) db' where
 plugin := hframe .plugin (by simp) (by simp)
 catalog slug := hframe (.declared slug) (by simp) (by simp)
 decision := ⟨live, m, check, g, ⟨hlive, hd.alive⟩, hd.manifest, hd.valid, hd.requested, hd.slug, hd.scope,
  hgrant, fun other hother => hframe (.grant other) (by simpa using hother) (by simp), hd.allowed, hunit⟩

variable {next : Program}

theorem safeShared_commitDecided (hd : Decision live m key check g)
  (hplain : ∀ unit, unitAt key.scopeType key.scopeId = some unit → g.status = .denied →
   check.required = false) (hnext : ∀ σ, Provenance σ → Safe protocol next [] [] σ) :
  SafeShared [⟨.grant key, some g⟩] live (.commit (.decided key) next) := by
 intro held σ hplugin hlive
 refine safe_commit (fun _ => stable_live hplugin live) hlive fun σ' hinv _ hlive' => ?_
 have hgrant : grant? (applyLog σ'.db [⟨.grant key, some g⟩]) key = some g :=
  lookup_applyWrite_self σ'.db (.grant key) (some g)
 have hother : ∀ k, k ≠ .grant key →
   (applyLog σ'.db [⟨.grant key, some g⟩]).lookup k = σ'.db.lookup k :=
  fun k hk => lookup_applyLog_of_notMem σ'.db (by simpa using Ne.symm hk)
 have hunits : ∀ unit, unit? (applyLog σ'.db [⟨.grant key, some g⟩]) unit = unit? σ'.db unit :=
  fun unit => hother (.unit unit) (by simp)
 have heffect : Effect σ' (.decided key) (applyLog σ'.db [⟨.grant key, some g⟩]) := by
  refine decided_effect hd hlive' hgrant (fun k hk _ => hother k hk) ?_
  split
  · exact hunits
  · rename_i unit hunit
    exact ⟨fun w _ => hunits w, fun hserving =>
     .inl ⟨serving_congr (hunits unit) hserving, hplain unit hunit⟩⟩
 refine ⟨decided_guarantee hd hplugin hlive' hgrant (fun k hk _ => hother k hk)
  (fun unit hne => absurd (hunits unit) hne) fun unit hunit hdenied hrequired => ?_, heffect,
  hnext _ (hinv.commit heffect)⟩
 rw [hplain unit hunit hdenied] at hrequired
 cases hrequired

def Settled (m : PluginManifest) (unit : UnitRef) (keeps : Prop) (db v : Db) : Prop :=
  Serving v unit → (Serving db unit ∧ keeps) ∨ NoRefusal v m unit

theorem settled_steady (hjson : live.manifestJson = .manifest m) (unit : UnitRef) (keeps : Prop) :
  Steady live unit (Settled m unit keeps) := by
 intro db v db' v' h hdb hv hserving
 rcases h (hv.serving.1 hserving) with ⟨hbefore, hkeeps⟩ | hnone
 · exact .inl ⟨hdb.serving.2 hbefore, hkeeps⟩
 · exact .inr (hv.noRefusal hjson hnone)

theorem safeAt_commitDecided (hd : Decision live m key check g)
  (hunit : unitAt key.scopeType key.scopeId = some unit)
  (hnext : ∀ σ, Provenance σ → Safe protocol next [] [] σ) :
  SafeAt [⟨.grant key, some g⟩] live unit true
   (Settled m unit (g.status = .denied → check.required = false)) (.commit (.decided key) next) := by
 intro held rest σ hplugin hlock hrest _ hlive hrows
 refine safe_commit (fun hlog => stable_at hplugin hlock (settled_steady hd.manifest unit _) hlog)
  ⟨hlive, hrows⟩ ?_
 rintro σ' hinv - ⟨hlive', hrows'⟩
 have happend : applyLog σ'.db ([⟨.grant key, some g⟩] ++ rest) =
   applyLog (applyLog σ'.db [⟨.grant key, some g⟩]) rest := applyLog_append _ _ _
 have hgrant : grant? (applyLog σ'.db ([⟨.grant key, some g⟩] ++ rest)) key = some g := by
  rw [happend]
  exact (lookup_unitLog hrest _ (by simp)).trans (lookup_applyWrite_self σ'.db (.grant key) (some g))
 have hother : ∀ k, k ≠ .grant key → k ≠ .unit unit →
   (applyLog σ'.db ([⟨.grant key, some g⟩] ++ rest)).lookup k = σ'.db.lookup k := by
  intro k hk hku
  rw [happend, lookup_unitLog hrest _ hku]
  exact lookup_applyLog_of_notMem σ'.db (by simpa using Ne.symm hk)
 have heffect : Effect σ' (.decided key) (applyLog σ'.db ([⟨.grant key, some g⟩] ++ rest)) := by
  refine decided_effect hd hlive' hgrant (fun k hk hku => hother k hk (hku unit)) ?_
  rw [hunit]
  exact ⟨fun w hw => hother (.unit w) (by simp) (by simpa using hw), hrows'⟩
 refine ⟨decided_guarantee hd hplugin hlive' hgrant (fun k hk hku => hother k hk (hku unit))
  (fun w hne => ?_) (fun w hw _ _ => ?_), heffect, hnext _ (hinv.commit heffect)⟩
 · have hw : w = unit := by
    by_contra hw
    exact hne (hother (.unit w) (by simp) (by simpa using hw))
   exact hw ▸ hlock
 · cases hunit.symm.trans hw
   exact hlock

end Commits

section Suspend

variable {base : List PluginWrite} {live : Plugin} {unit : UnitRef} {next : Program}
  {validated : PluginManifestValidationResult} {slug : Text} {initiatedAt : ℕ}

/-- A unit that still serves after `suspendUnit` served before, and was found
    without anything outstanding on the slug. -/
def Spared (base : List PluginWrite) (validated : PluginManifestValidationResult) (unit : UnitRef)
    (slug : Text) (db v : Db) : Prop :=
  Serving v unit → Serving db unit ∧ ∃ seen corePermissions, Over base unit seen ∧
    slug ∉ outstandingSlugs (grantedOn unit (unitChecks validated unit) seen) corePermissions
      (unitChecks validated unit)

theorem found_steady (live : Plugin) (unit : UnitRef) (found : Option UnitRow) :
  Steady live unit fun _ v => unit? v unit = found :=
 fun _ _ _ _ hrel _ hv => hv.row.trans hrel

theorem not_serving {v : Db} (h : ∀ row, unit? v unit = some row → row.suspendedForConsent = true) :
  ¬ Serving v unit := by
 rintro ⟨row, hrow, hopen⟩
 rw [h row hrow] at hopen
 cases hopen

theorem lookup_unitWrite (v : Db) (unit : UnitRef) (row : UnitRow) :
  unit? (applyLog v [⟨.unit unit, some row⟩]) unit = some row :=
 lookup_applyWrite_self v (.unit unit) (some row)

theorem safeShared_suspendUnit (hbase : ∀ w ∈ base, w.key ≠ .unit unit)
  (hnext : SafeAt base live unit true (Spared base validated unit slug) next) :
  SafeShared base live (suspendUnit validated unit slug initiatedAt next) := by
 have huntouched := untouched_steady live unit
 refine safeShared_lockUnitScope hbase (safeAt_lockUnit huntouched fun found => ?_)
 have hsteady := huntouched.and (found_steady live unit found)
 cases found with
 | none =>
  refine hnext.clean.mono fun db v h hserving => absurd hserving (not_serving fun row hrow => ?_)
  rw [h.2] at hrow
  cases hrow
 | some row =>
  simp only
  split
  · rename_i hsuspended
    refine hnext.clean.mono fun db v h hserving => absurd hserving (not_serving fun row' hrow' => ?_)
    cases h.2.symm.trans hrow'
    exact hsuspended
  rename_i hopen
  refine safeAt_readOutstanding hsteady fun seen corePermissions hover => ?_
  split
  · refine safeAt_updateUnit (hsteady.and (calm_steady live unit seen)) ?_ ?_ hnext
    · refine fun db v row' _ _ _ _ hserving => absurd hserving (not_serving fun row'' hrow'' => ?_)
      cases (lookup_unitWrite v unit _).symm.trans hrow''
      rfl
    · intro db v h hskip
      have hguard := hskip row h.1.2 rfl
      simp [hopen] at hguard
  · rename_i hnot
    refine hnext.clean.mono fun db v h hserving => ⟨serving_congr h.1.1 hserving, seen, corePermissions,
     hover, ?_⟩
    simpa using hnot

end Suspend

section Outstanding

variable {unit : UnitRef} {v : Db} {checks : List NormalizedPermissionRequest}
  {check : NormalizedPermissionRequest} {corePermissions : List (Text × Permission)}

theorem outstanding_of_ungranted (hcheck : check ∈ checks) (hrequired : check.required = true)
  (hungranted : ∀ g, grant? v (unitGrant unit check.canonicalSlug) = some g → g.status ≠ .granted) :
  check.canonicalSlug ∈ outstandingSlugs (grantedOn unit checks v) corePermissions checks := by
 refine List.mem_map_of_mem (List.mem_filter.2 ⟨hcheck, ?_⟩)
 have hnone : mapGet ((grantedOn unit checks v).map fun entry =>
   (entry.1.permissionSlug, entry.2.decidedRiskLevel)) check.canonicalSlug = none := by
  by_contra hsome
  obtain ⟨risk, hget⟩ := Option.ne_none_iff_exists'.1 hsome
  obtain ⟨⟨⟨scope, id, slug⟩, g⟩, hmem, heq⟩ := List.mem_map.1 (mapGet_mem hget)
  simp only [grantedOn, List.mem_filter, mem_grantRows, Bool.and_eq_true, beq_iff_eq] at hmem
  obtain ⟨hg, ⟨⟨rfl, rfl⟩, hgranted⟩, -⟩ := hmem
  simp only [Prod.mk.injEq] at heq
  obtain ⟨rfl, -⟩ := heq
  exact hungranted g hg hgranted
 rw [hnone]
 exact hrequired

theorem noRefusal_of_outstanding_nil {validated : PluginManifestValidationResult} {m : PluginManifest}
  (hchecks : validated.permissionChecks = permissionChecksOf m)
  (hnil : outstandingSlugs (grantedOn unit (unitChecks validated unit) v) corePermissions
   (unitChecks validated unit) = []) : NoRefusal v m unit := by
 rintro slug ⟨check, hcheck, rfl, hscope, hrequired⟩ g hg hdenied
 have hunit : check ∈ unitChecks validated unit :=
  List.mem_filter.2 ⟨hchecks ▸ hcheck, by simpa using hscope⟩
 have hmem : check.canonicalSlug ∈ outstandingSlugs (grantedOn unit (unitChecks validated unit) v)
   corePermissions (unitChecks validated unit) := by
  refine outstanding_of_ungranted hunit hrequired fun g' hg' hgranted => ?_
  cases hg.symm.trans hg'
  rw [hdenied] at hgranted
  cases hgranted
 rw [hnil] at hmem
 simp at hmem

end Outstanding

section Decide

variable {live : Plugin} {unit : UnitRef} {m : PluginManifest} {key : GrantKey}
  {check : NormalizedPermissionRequest} {g : PluginGrant} {validated : PluginManifestValidationResult}
  {next : Program} {initiatedAt : ℕ}

theorem over_decision {v : Db} (h : Over [⟨.grant key, some g⟩] unit v) :
  grant? v key = some g := by
 obtain ⟨db, rest, hrest, rfl⟩ := h
 have happend : applyLog db ([⟨.grant key, some g⟩] ++ rest) =
   applyLog (applyLog db [⟨.grant key, some g⟩]) rest := applyLog_append _ _ _
 rw [happend]
 exact (lookup_unitLog hrest _ (by simp)).trans (lookup_applyWrite_self db (.grant key) (some g))

theorem lookup_grant_unitWrite (v : Db) (unit : UnitRef) (row : UnitRow) (key : GrantKey) :
  grant? (applyLog v [⟨.unit unit, some row⟩]) key = grant? v key :=
 lookup_applyLog_of_notMem v (by simp)

theorem NoRefusal.unitWrite {v : Db} (h : NoRefusal v m unit) (row : UnitRow) :
  NoRefusal (applyLog v [⟨.unit unit, some row⟩]) m unit := by
 intro slug hrequired g' hg'
 rw [lookup_grant_unitWrite] at hg'
 exact h slug hrequired g' hg'

theorem safeShared_createUserUnit (hd : Decision live m key check g)
  (hchecks : validated.permissionChecks = permissionChecksOf m)
  (hunit : unitAt key.scopeType key.scopeId = some unit) (hgranted : g.status = .granted)
  (hnext : SafeAt [⟨.grant key, some g⟩] live unit true
   (Settled m unit (g.status = .denied → check.required = false)) next) :
  SafeShared [⟨.grant key, some g⟩] live (createUserUnit validated unit check initiatedAt next) := by
 have huntouched := untouched_steady live unit
 refine safeShared_lockUnitScope (by simp) (safeAt_query huntouched fun _ seen _ => ?_)
 refine safeAt_stmt (huntouched.and (calm_steady live unit seen)) (fun _ _ => _) true
  (fun _ v w hw => ?_) nofun (fun clock db v hover h => ?_) fun _ _ _ => hnext
 · split at hw
   · simp at hw
   · rw [List.mem_singleton.1 hw]
 split
 · refine fun hserving => .inl ⟨serving_congr h.1 hserving, fun hdenied => ?_⟩
   rw [hgranted] at hdenied
   cases hdenied
 · refine fun hserving => .inr (NoRefusal.unitWrite (fun slug hrequired g' hg' hdenied => ?_) _)
   obtain ⟨row, hrow, hopen⟩ := hserving
   cases (lookup_unitWrite v unit _).symm.trans hrow
   have hkey : key = unitGrant unit check.canonicalSlug := hd.slug ▸ unitAt_some hunit
   by_cases hslug : slug = check.canonicalSlug
   · rw [hslug, ← hkey, over_decision hover] at hg'
     cases hg'
     rw [hgranted] at hdenied
     cases hdenied
   · have hseen := h.2.refusals m slug hd.manifest hrequired g' hg' hdenied
     obtain ⟨check', hcheck', rfl, hscope, hmust⟩ := hrequired
     have hborn := Bool.eq_false_iff.1 hopen
     refine hborn (List.any_eq_true.2 ⟨_, mem_grantRows.2 hseen, ?_⟩)
     simp only [unitGrant, hdenied, beq_self_eq_true, Bool.and_true, Bool.true_and, List.contains_iff_mem,
      List.mem_map, List.mem_filter, unitChecks, hchecks]
     exact ⟨check', ⟨⟨hcheck', by simpa using hscope⟩, by simp [hmust, hslug]⟩, rfl⟩

theorem safeShared_settleUnit (hd : Decision live m key check g)
  (hchecks : validated.permissionChecks = permissionChecksOf m)
  (hnext : ∀ σ, Provenance σ → Safe protocol next [] [] σ) :
  SafeShared [⟨.grant key, some g⟩] live (settleUnit validated (unitAt key.scopeType key.scopeId)
   g.status check initiatedAt (.commit (.decided key) next)) := by
 have hgrantedPlain : g.status = .granted → ∀ unit, unitAt key.scopeType key.scopeId = some unit →
   g.status = .denied → check.required = false := by
  intro hgranted _ _ hdenied
  rw [hgranted] at hdenied
  cases hdenied
 cases hunit : unitAt key.scopeType key.scopeId with
 | none => exact safeShared_commitDecided hd (by simp [hunit]) hnext
 | some unit =>
  cases hstatus : g.status with
  | granted =>
   cases unit with
   | household id => exact safeShared_commitDecided hd (hgrantedPlain hstatus) hnext
   | user id =>
    exact safeShared_createUserUnit hd hchecks hunit hstatus (safeAt_commitDecided hd hunit hnext)
  | denied =>
   simp only [settleUnit]
   split
   · rename_i hrequired
     refine safeShared_suspendUnit (by simp) ((safeAt_commitDecided hd hunit hnext).mono ?_)
     -- the view shows the refusal just written, so the slug is outstanding
     intro db v h hserving
     obtain ⟨-, seen, corePermissions, hover, hnot⟩ := h hserving
     have hkey : key = unitGrant unit check.canonicalSlug := hd.slug ▸ unitAt_some hunit
     refine absurd (outstanding_of_ungranted ?_ hrequired fun g' hg' hgranted => ?_) hnot
     · refine List.mem_filter.2 ⟨hchecks ▸ hd.requested, ?_⟩
       have hscope : grantScopeOf check.consentScope = grantScopeOf unit.consentScope := by
        rw [← hd.scope, ← scope_eq, hkey]
        rfl
       simpa using grantScopeOf_injective hscope
     · rw [← hkey, over_decision hover] at hg'
       cases hg'
       rw [hstatus] at hgranted
       cases hgranted
   · rename_i hoptional
     refine safeShared_commitDecided hd (fun _ _ _ => ?_) hnext
     simpa using hoptional

end Decide

section Programs

variable {host : Host} {σ : State} {held : List PluginLock} {unit : UnitRef}

theorem safe_lockPlugin {next : Db → Program} (hmissing : ∀ v, plugin? v = none →
   ∀ held σ, Safe protocol (next v) held [] σ)
  (hnext : ∀ v live, plugin? v = some live → SafeShared [] live (next v)) :
  Safe protocol (.lock (lockPlugin false) fun _ v => next v) held [] σ := by
 refine safe_stmt (fun _ => stable_const _ _ True) trivial fun σ' hinv _ _ _ => ?_
 have hview : view σ' [] = σ'.db := rfl
 simp only [hview]
 cases hrow : plugin? σ'.db with
 | none => exact hmissing _ hrow _ _
 | some live =>
  refine hnext _ live hrow _ _ ⟨false, ?_⟩ hrow
  simp [lockPlugin, hrow]

theorem safe_lockLivePlugin {next : Plugin → Program}
  (hnext : ∀ live, live.uninstalledAt = none → SafeShared [] live (next live)) :
  Safe protocol (lockLivePlugin next) held [] σ := by
 refine safe_lockPlugin (fun v hrow held σ => ?_) fun v live hrow => ?_
 · rw [livingPlugin, hrow]
   exact safe_unchanged fun _ _ => trivial
 · cases hliving : livingPlugin v with
   | none => exact fun held σ _ _ => safe_unchanged fun _ _ => trivial
   | some current =>
    obtain ⟨hcurrent, halive⟩ := livingPlugin_some hliving
    cases hrow.symm.trans hcurrent
    exact hnext live halive

theorem safeAt_reenable {live : Plugin} (halive : live.uninstalledAt = none) {m : PluginManifest}
  (hjson : live.manifestJson = .manifest m) {Rel : Db → Db → Prop} (hrel : Steady live unit Rel)
  (huntouched : ∀ db v, Rel db v → Untouched unit db v)
  (hnone : ∀ db v, Rel db v → NoRefusal v m unit) (row : UnitRow) :
  SafeAt [] live unit false Rel (updateUnit unit row (·.suspendedForConsent) reenabled
   (.commit (.unitUpdated unit) .halt)) := by
 refine safeAt_updateUnit hrel ?_ ?_ (safeAt_commitUnit halive)
 · exact fun db v row' h _ _ _ _ => .inr ⟨m, hjson, NoRefusal.unitWrite (hnone db v h) _⟩
 · exact fun db v h _ hserving => .inl (serving_congr (huntouched db v h) hserving)

theorem safe_maybeReenable (unit : UnitRef) :
  Safe protocol (maybeReenable host unit) held [] σ := by
 refine safe_lockLivePlugin fun live halive => ?_
 have huntouched := untouched_steady live unit
 refine safeShared_lockUnitScope (by simp) (safeAt_lockUnit huntouched fun found => ?_)
 have hsteady := huntouched.and (found_steady live unit found)
 cases found with
 | none => exact safeAt_unchanged
 | some row =>
  simp only
  split
  · exact safeAt_unchanged
  unfold withCurrentManifest
  split
  · exact safeAt_abort
  rename_i validated hvalidated
  obtain ⟨m, hjson, -, -, -, rfl⟩ := revalidateStoredManifest_ok hvalidated
  simp only
  split
  · rename_i hnil
    refine safeAt_reenable halive hjson hsteady (fun _ _ h => h.1) (fun db v h => ?_) row
    rintro slug ⟨check, hcheck, -, hscope, -⟩
    have hmem := List.filter_eq_nil_iff.1 hnil check hcheck
    simp [hscope] at hmem
  · refine safeAt_readOutstanding hsteady fun seen corePermissions hover => ?_
    split
    · rename_i hnil
      refine safeAt_reenable halive hjson (hsteady.and (calm_steady live unit seen)) (fun _ _ h => h.1.1)
       (fun db v h => ?_) row
      exact h.2.noRefusal hjson (noRefusal_of_outstanding_nil rfl hnil)
    · exact safeAt_unchanged

theorem safe_maybeSuspend (unit : UnitRef) (deniedSlug : Text) (initiatedAt : ℕ) :
  Safe protocol (maybeSuspend host unit deniedSlug initiatedAt) held [] σ := by
 refine safe_lockLivePlugin fun live halive => ?_
 unfold withCurrentManifest
 split
 · exact safeShared_abort
 refine safeShared_suspendUnit (by simp) ((safeAt_commitUnit halive).mono fun db v h hserving => ?_)
 exact .inl (h hserving).1

theorem safe_afterDecision (unit : Option UnitRef) (status : PluginGrantStatus) (required : Bool)
  (deniedSlug : Text) (changed : Bool) (initiatedAt : ℕ) :
  Safe protocol (afterDecision host unit status required deniedSlug changed initiatedAt) [] [] σ := by
 unfold afterDecision
 split
 · trivial
 · exact safe_maybeReenable _
 · split
   · exact safe_maybeSuspend _ _ _
   · trivial

theorem classifyManifestMove_none {row expected : Plugin}
  (h : classifyManifestMove row expected = none) :
  row.manifestJson = expected.manifestJson := by
 unfold classifyManifestMove at h
 split_ifs at h with hinstalled hversion hjson
 exact not_not.1 hjson

theorem safe_lockLiveHousehold {householdId : Text} {next : Program}
  (hnext : ∀ held σ, Safe protocol next held [] σ) :
  Safe protocol (lockLiveHousehold householdId next) held [] σ := by
 refine safe_stmt (fun _ => stable_const _ _ True) trivial fun σ' _ _ _ _ => ?_
 split
 · exact hnext _ _
 · exact safe_abort

theorem safeShared_upsert {live : Plugin} {key : GrantKey} {grant : ℕ → Db → PluginGrant}
  {next : ℕ → Db → Program}
  (hnext : ∀ clock v, SafeShared [⟨.grant key, some (grant clock v)⟩] live (next clock v)) :
  SafeShared [] live (.execute (fun clock v => [⟨.grant key, some (grant clock v)⟩]) next) := by
 intro held σ hplugin hlive
 refine safe_stmt (fun _ => stable_live hplugin live) hlive fun σ' _ _ _ hlive' => ?_
 exact hnext _ _ _ _ (holdsPlugin_append hplugin _) hlive'

theorem safe_decideClaimed {input : DecisionInput} {plugin : Plugin} {m : PluginManifest}
  {validated : PluginManifestValidationResult} {check : NormalizedPermissionRequest}
  {scopeId : Text} {initiatedAt : ℕ} (hjson : plugin.manifestJson = .manifest m) (hvalid : Valid m)
  (hchecks : validated.permissionChecks = permissionChecksOf m)
  (hcheck : check ∈ permissionChecksOf m)
  (hscope : grantScopeOf check.consentScope = input.scopeType)
  (hallowed : ¬ (input.status = .denied ∧ check.required = true ∧ check.consentScope = .server)) :
  Safe protocol (decideClaimed host input plugin validated check scopeId initiatedAt) held [] σ := by
 refine safe_lockPlugin (fun v hrow held σ => ?_) fun v live hrow => ?_
 · rw [hrow]
   exact safe_abort
 simp only [hrow]
 split
 · exact safeShared_abort
 rename_i hsame
 rw [not_or, not_not, not_not] at hsame
 refine safeShared_query fun _ v => ?_
 split
 · exact safeShared_abort
 rename_i risk _
 have hupsert : SafeShared [] live (decideClaimed.upsert host input plugin validated check initiatedAt
   ⟨input.scopeType, scopeId, check.canonicalSlug⟩ (unitAt input.scopeType scopeId) risk) := by
  refine safeShared_upsert fun clock v => ?_
  refine safeShared_settleUnit ⟨hsame.1, (classifyManifestMove_none hsame.2).trans hjson, hvalid,
   hcheck, rfl,
   hscope.symm, ?_⟩ hchecks fun σ _ => safe_afterDecision _ _ _ _ _ _
  exact fun hdenied hrequired hserver => hallowed ⟨hdenied, hrequired, hserver⟩
 refine safeShared_query fun _ v => ?_
 split
 · split
   · exact fun held σ _ _ => safe_unchanged fun _ _ => safe_afterDecision _ _ _ _ _ _
   · exact hupsert
 · exact hupsert

theorem safe_decide (input : DecisionInput) : Safe protocol (decide host input) [] [] σ := by
 refine safe_read (stable_const _ _ True) trivial fun σ₁ hinv _ => ?_
 split
 · trivial
 rename_i plugin hliving
 split
 · trivial
 rename_i validated hvalidated
 obtain ⟨m, hjson, hvalid, -, -, rfl⟩ := revalidateStoredManifest_ok hvalidated
 split
 · trivial
 rename_i check hfind
 split
 · trivial
 rename_i hscope
 split
 · trivial
 rename_i hallowed
 split
 · trivial
 rename_i scopeId _
 split
 · trivial
 have hbody : ∀ held σ, Safe protocol (decide.openDecision input scopeId (decideClaimed host input plugin
   ⟨m, permissionChecksOf m, declaredPermissionsOf m, externalPermissionChecksOf m⟩ check scopeId
   σ₁.clock)) held [] σ := by
  have hclaimed : ∀ held σ, Safe protocol (decideClaimed host input plugin
    ⟨m, permissionChecksOf m, declaredPermissionsOf m, externalPermissionChecksOf m⟩ check scopeId
    σ₁.clock) held [] σ := fun held σ =>
   safe_decideClaimed hjson hvalid rfl (List.mem_of_find?_eq_some hfind) (not_not.1 hscope) hallowed
  intro held σ
  unfold decide.openDecision
  split
  · exact safe_lockLiveHousehold hclaimed
  · exact hclaimed held σ
  · exact hclaimed held σ
 refine safe_start (stable_const _ _ True) trivial fun σ₂ _ _ => ⟨hbody _ _, ?_⟩
 exact safe_start (stable_const _ _ True) trivial fun σ₃ _ _ => ⟨hbody _ _, trivial⟩

theorem safe_revokeForAuthorityLoss (unit : UnitRef) :
  Safe protocol (revokeForAuthorityLoss unit) [] [] σ := by
 unfold revokeForAuthorityLoss
 split
 · trivial
 refine safe_read (stable_const _ _ True) trivial fun σ₁ _ _ => ?_
 simp only
 split
 · exact safe_unchanged fun _ _ => trivial
 refine safe_stmt (fun _ => stable_const _ _ True) trivial fun σ₂ _ _ _ _ => ?_
 refine safe_commit (fun _ => stable_const _ _ True) trivial fun σ₃ _ _ _ => ?_
 rw [List.nil_append]
 -- every write of the log deletes a decision of the unit
 have hlog : ∀ w ∈ deleteFound ((grantRows σ₁.db).filter fun entry => entry.1.scopeType == unit.scope &&
   entry.1.scopeId == unit.scopeId && entry.2.status == .granted) (·.status == .granted) (view σ₂ []),
   ∃ key : GrantKey, key.scopeType ≠ .server ∧ w = ⟨.grant key, none⟩ := by
  intro w hw
  obtain ⟨⟨key, row⟩, hmem, rfl⟩ := List.mem_map.1 hw
  refine ⟨key, ?_, rfl⟩
  simp only [List.mem_filter, Bool.and_eq_true, List.any_eq_true, beq_iff_eq] at hmem
  obtain ⟨-, ⟨⟨key', row'⟩, ⟨-, ⟨hscope, -⟩, -⟩, heq, -⟩, -⟩ := hmem
  simp only at heq hscope
  rw [← heq, hscope]
  cases unit <;> simp [UnitRef.scope]
 generalize deleteFound _ _ _ = log at hlog
 have hframe : ∀ k, (∀ key, k ≠ .grant key) → (applyLog σ₃.db log).lookup k = σ₃.db.lookup k := by
  intro k hk
  refine lookup_applyLog_of_notMem _ fun w hw heq => ?_
  obtain ⟨key, -, rfl⟩ := hlog w hw
  exact hk key heq.symm
 have hgrants : ∀ key, grant? (applyLog σ₃.db log) key = grant? σ₃.db key ∨
   (key.scopeType ≠ .server ∧ grant? (applyLog σ₃.db log) key = none) := by
  intro key
  by_cases hmem : ∃ w ∈ log, w.key = .grant key
  · right
    obtain ⟨w, hw, heq⟩ := hmem
    obtain ⟨key', hkey', rfl⟩ := hlog w hw
    cases heq
    refine ⟨hkey', lookup_applyLog_erased _ (fun w hw => ?_) ⟨_, hw, rfl⟩⟩
    obtain ⟨_, -, rfl⟩ := hlog w hw
    rfl
  · exact .inl (lookup_applyLog_of_notMem _ fun w hw heq => hmem ⟨w, hw, heq⟩)
 refine ⟨⟨?_, ?_, ?_, ?_⟩, ⟨hframe, fun key => (hgrants key).imp id And.right⟩, trivial⟩
 · exact fun slug hne => absurd (hframe (.declared slug) (by simp)) hne
 · exact fun key hne => .inl ((hgrants key).resolve_left hne)
 · exact fun unit hne => absurd (hframe (.unit unit) (by simp)) hne
 · intro unit slug _ _ g _ _ _ hg _ hne
   have hnone := ((hgrants (unitGrant unit slug)).resolve_left hne).2
   cases hnone.symm.trans hg

end Programs

section UnitLifecycle

variable {host : Host} {σ : State} {held : List PluginLock} {unit : UnitRef}

theorem safe_openUnit {expected : Option Plugin} {requireSurface : Bool} {next : Option UnitRow → Program}
  (hnext : ∀ live found, live.uninstalledAt = none → expected.bind (classifyManifestMove live) = none →
   SafeAt [] live unit false (fun db v => Untouched unit db v ∧ unit? v unit = found) (next found)) :
  Safe protocol (openUnit unit expected requireSurface next) held [] σ := by
 have hliving : ∀ held σ, Safe protocol (assertStillLiving expected fun row =>
   if requireSurface && row.scope != .household then .rollback .halt
   else lockUnitScope unit <| .query fun _ v => next (unit? v unit)) held [] σ := by
  intro held σ
  refine safe_lockPlugin (fun v hrow held σ => ?_) fun v live hrow => ?_
  · rw [hrow]
    exact safe_abort
  simp only [hrow]
  split
  · exact safeShared_abort
  rename_i halive
  split
  · exact safeShared_abort
  rename_i hsame
  split
  · exact safeShared_abort
  refine safeShared_lockUnitScope (by simp) (safeAt_query (untouched_steady live unit) fun _ v _ => ?_)
  exact (hnext live (unit? v unit) (not_not.1 halive) (not_not.1 hsame)).mono
   fun _ _ h => ⟨h.1, h.2.row⟩
 unfold openUnit openScope
 split
 · exact safe_lockLiveHousehold hliving
 · exact hliving held σ

theorem safeAt_editUnit {live : Plugin} (halive : live.uninstalledAt = none) {Rel : Db → Db → Prop}
  (hrel : Steady live unit Rel) (huntouched : ∀ db v, Rel db v → Untouched unit db v)
  (row : UnitRow) {guard : UnitRow → Bool} {f : UnitRow → UnitRow}
  (hf : ∀ row, (f row).suspendedForConsent = row.suspendedForConsent) :
  SafeAt [] live unit false Rel (updateUnit unit row guard f (.commit (.unitUpdated unit) .halt)) := by
 refine safeAt_updateUnit hrel ?_ ?_ (safeAt_commitUnit halive)
 · rintro db v row' h hrow' - - ⟨row'', hrow'', hopen⟩
   cases (lookup_unitWrite v unit _).symm.trans hrow''
   exact .inl (serving_congr (huntouched db v h) ⟨row', hrow', (hf row').symm.trans hopen⟩)
 · exact fun db v h _ hserving => .inl (serving_congr (huntouched db v h) hserving)

theorem configDormancyCleared_suspended (existing row : UnitRow) :
  (configDormancyCleared existing row).suspendedForConsent = row.suspendedForConsent := by
 unfold configDormancyCleared
 split <;> rfl

theorem noRefusal_of_deniedRequired_nil {validated : PluginManifestValidationResult}
  {m : PluginManifest} {v : Db} (hchecks : validated.permissionChecks = permissionChecksOf m)
  (hnil : deniedRequiredSlugs validated unit v = []) : NoRefusal v m unit := by
 rintro slug ⟨check, hcheck, rfl, hscope, hrequired⟩ g hg hdenied
 have hmem : check.canonicalSlug ∈ deniedRequiredSlugs validated unit v := by
  refine List.mem_map.2 ⟨(unitGrant unit check.canonicalSlug, g), ?_, rfl⟩
  refine List.mem_filter.2 ⟨mem_grantRows.2 hg, ?_⟩
  simp only [hdenied, unitGrant, beq_self_eq_true, Bool.and_true, Bool.true_and, List.contains_iff_mem,
   List.mem_map, List.mem_filter, unitChecks, hchecks]
  exact ⟨check, ⟨⟨hcheck, by simpa using hscope⟩, hrequired⟩, rfl⟩
 rw [hnil] at hmem
 simp at hmem

theorem safeAt_enableOpened {live : Plugin} (halive : live.uninstalledAt = none)
  {m : PluginManifest} (hjson : live.manifestJson = .manifest m)
  {validated : PluginManifestValidationResult}
  (hchecks : validated.permissionChecks = permissionChecksOf m) (config : Option Text)
  (initiatedAt : ℕ) (existing : Option UnitRow) :
  SafeAt [] live unit false (fun db v => Untouched unit db v ∧ unit? v unit = existing)
   (enableOpened host validated unit config initiatedAt existing) := by
 have hsteady := (untouched_steady live unit).and (found_steady live unit existing)
 unfold enableOpened
 simp only
 split
 · exact safeAt_abort
 cases existing with
 | some row =>
  exact safeAt_editUnit halive hsteady (fun _ _ h => h.1) row fun _ =>
   configDormancyCleared_suspended _ _
 | none =>
  refine safeAt_query hsteady fun _ seen _ => ?_
  refine safeAt_stmt (hsteady.and (calm_steady live unit seen))
   (fun _ v db v' => (unit? v unit).isSome = true ∨ ServesOn live unit db v') true
   (fun _ v w hw => ?_) nofun (fun clock db v _ h => ?_) fun _ v _ => ?_
  · split at hw
    · simp at hw
    · rw [List.mem_singleton.1 hw]
  · split
    · exact .inl ‹_›
    · refine .inr fun hserving => .inr ⟨m, hjson, NoRefusal.unitWrite (h.2.noRefusal hjson ?_) _⟩
      obtain ⟨row, hrow, hopen⟩ := hserving
      cases (lookup_unitWrite v unit _).symm.trans hrow
      exact noRefusal_of_deniedRequired_nil hchecks (by simpa using hopen)
  · split
    · exact safeAt_abort
    · rename_i hnone
      exact (safeAt_commitUnit halive).mono fun db v' h => h.resolve_left hnone

theorem safe_enableHousehold (input : EnableInput) :
  Safe protocol (enableHousehold host input) [] [] σ := by
 refine safe_read (stable_const _ _ True) trivial fun σ₁ _ _ => ?_
 split
 · trivial
 rename_i plugin _
 split
 · trivial
 split
 · trivial
 rename_i validated hvalidated
 obtain ⟨m, hjson, -, -, -, rfl⟩ := revalidateStoredManifest_ok hvalidated
 split
 · trivial
 refine safe_openUnit fun live found halive hsame => ?_
 have hlive : live.manifestJson = .manifest m := (classifyManifestMove_none hsame).trans hjson
 split
 · split
   · exact safeAt_unchanged
   · exact safeAt_enableOpened halive hlive rfl _ _ _
 · exact safeAt_enableOpened halive hlive rfl _ _ _

theorem safe_setUnitEnabled (unit : UnitRef) (enabled authorized : Bool) :
  Safe protocol (setUnitEnabled unit enabled authorized) [] [] σ := by
 refine safe_read (stable_const _ _ True) trivial fun σ₁ _ _ => ?_
 split
 · trivial
 split
 · trivial
 refine safe_openUnit fun live found halive _ => ?_
 have hsteady := (untouched_steady live unit).and (found_steady live unit found)
 split
 · exact safeAt_abort
 · split
   · exact safeAt_unchanged
   · exact safeAt_editUnit halive hsteady (fun _ _ h => h.1) _ fun _ => rfl

theorem safe_updateHouseholdConfig (householdId config : Text) (authorized : Bool) :
  Safe protocol (updateHouseholdConfig host householdId config authorized) [] [] σ := by
 refine safe_read (stable_const _ _ True) trivial fun σ₁ _ _ => ?_
 split
 · trivial
 split
 · trivial
 split
 · trivial
 split
 · trivial
 refine safe_openUnit fun live found halive _ => ?_
 have hsteady := (untouched_steady live (.household householdId)).and
  (found_steady live (.household householdId) found)
 split
 · exact safeAt_abort
 · exact safeAt_editUnit halive hsteady (fun _ _ h => h.1) _ fun _ => configDormancyCleared_suspended _ _

end UnitLifecycle

end BoardGamesEmpire.PluginGrantSafe
