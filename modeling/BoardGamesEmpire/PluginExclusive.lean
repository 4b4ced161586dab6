import BoardGamesEmpire.PluginProtocol

set_option autoImplicit false

/-!
# Under the exclusive plugin row

Whoever holds the plugin row exclusively sees only unit decisions disappear and
rows that other services own change. Facts that survive this carry a
transaction from statement to statement up to its commit.
-/
namespace BoardGamesEmpire.PluginExclusive
open JsText Manifest ReadCommitted ReadCommittedProtocol PluginStore PluginActivation PluginUpdateProgram
  PluginSystem PluginProtocol

section Drift

def Loose : (k : Key) → Option (Row k) → Prop
  | .grant key, row => key.scopeType ≠ .server ∧ row = none
  | .permission _, _ | .home _, _ => True
  | .plugin, _ | .declared _, _ | .unit _, _ => False

def Drift (db v db' v' : Db) : Prop :=
  ∀ k, (db'.lookup k = db.lookup k ∧ v'.lookup k = v.lookup k) ∨
    (v.lookup k = db.lookup k ∧ v'.lookup k = db'.lookup k ∧ Loose k (db'.lookup k))

/-- The view `v'` drifted from `v`. -/
def Since (v v' : Db) : Prop := ∀ k, v'.lookup k = v.lookup k ∨ Loose k (v'.lookup k)

abbrev Robust (Rel : Db → Db → Prop) : Prop := KeptBy Drift Rel

variable {held : List PluginLock} {log : List PluginWrite} {σ σ' : State} {db v db' v' : Db}

theorem rely_loose (hlock : pluginLock true ∈ held) (h : Rely protocol held σ σ') {k : Key}
  (hne : σ'.db.lookup k ≠ σ.db.lookup k) : Loose k (σ'.db.lookup k) := by
 cases h with
 | tick => exact absurd rfl hne
 | outside w hkey hfree =>
  have hk : k = w.key := by
   by_contra hk
   exact hne (lookup_applyWrite_ne _ hk)
  change outside w.key = true at hkey
  rw [← hk] at hkey
  cases k with
  | permission _ | home _ => trivial
  | plugin | grant _ | declared _ | unit _ => cases hkey
 | commit other event db hfree hrows hguar heffect =>
  -- whatever needs the plugin row, shared or not, is shut out
  have hshut : ∀ exclusive, pluginLock exclusive ∉ other :=
   fun exclusive hother => hfree _ hlock _ hother ⟨rfl, .inl rfl⟩
  cases k with
  | plugin => exact absurd (hrows _ hne) (hshut true)
  | grant key =>
   rcases hguar.grants key hne with hgone | ⟨exclusive, hheld⟩
   · exact hgone
   · exact absurd hheld (hshut exclusive)
  | declared slug => exact absurd (hguar.catalog slug hne) (hshut true)
  | unit unit =>
   obtain ⟨⟨exclusive, hheld⟩, -⟩ := hguar.units unit hne
   exact absurd hheld (hshut exclusive)
  | permission _ | home _ => trivial

theorem rely_drift (hlock : pluginLock true ∈ held) (hlog : LogLocked held log)
  (h : Rely protocol held σ σ') : Drift σ.db (view σ log) σ'.db (view σ' log) := by
 intro k
 rcases h.view hlog k with hsame | ⟨hv', hv⟩
 · exact .inl hsame
 · by_cases heq : σ'.db.lookup k = σ.db.lookup k
   · exact .inl ⟨heq, hv'.trans (heq.trans hv.symm)⟩
   · exact .inr ⟨hv, hv', rely_loose hlock h heq⟩

theorem Since.refl (v : Db) : Since v v := fun _ => .inl rfl

theorem Since.robust (v : Db) : Robust fun _ v' => Since v v' := by
 intro db u db' u' h hdrift k
 rcases hdrift k with ⟨-, heq⟩ | ⟨-, heq, hloose⟩
 · rw [heq]
   exact h k
 · rw [heq]
   exact .inr hloose

theorem Since.plugin (h : Since v v') : plugin? v' = plugin? v := (h .plugin).resolve_right id

theorem Since.unit (h : Since v v') (unit : UnitRef) : unit? v' unit = unit? v unit :=
 (h (.unit unit)).resolve_right id

theorem Since.grant (h : Since v v') (key : GrantKey) :
  grant? v' key = grant? v key ∨ (key.scopeType ≠ .server ∧ grant? v' key = none) := h (.grant key)

theorem Since.serverGrant (h : Since v v') {key : GrantKey} (hkey : key.scopeType = .server) :
  grant? v' key = grant? v key := (h.grant key).resolve_right fun hgone => hgone.1 hkey

theorem Drift.fixed (h : Drift db v db' v') {k : Key} (hk : ∀ row, ¬ Loose k row) :
  db'.lookup k = db.lookup k ∧ v'.lookup k = v.lookup k :=
 (h k).resolve_right fun hloose => hk _ hloose.2.2

theorem Drift.plugin (h : Drift db v db' v') : plugin? db' = plugin? db ∧ plugin? v' = plugin? v :=
 h.fixed fun _ => id

theorem Drift.unit (h : Drift db v db' v') (unit : UnitRef) :
  unit? db' unit = unit? db unit ∧ unit? v' unit = unit? v unit :=
 h.fixed fun _ => id

theorem Drift.declared (h : Drift db v db' v') (slug : Text) :
  declared? db' slug = declared? db slug ∧ declared? v' slug = declared? v slug :=
 h.fixed fun _ => id

theorem Drift.serverGrant (h : Drift db v db' v') {key : GrantKey} (hkey : key.scopeType = .server) :
  grant? db' key = grant? db key ∧ grant? v' key = grant? v key :=
 h.fixed fun _ hloose => hloose.1 hkey

theorem Drift.grant (h : Drift db v db' v') (key : GrantKey) :
  grant? v' key = grant? v key ∨ grant? v' key = none := by
 rcases h (.grant key) with ⟨-, heq⟩ | ⟨-, heq, -, hnone⟩
 · exact .inl heq
 · exact .inr (heq.trans hnone)

end Drift

section Rules

variable {Ψ : State → Prop} {Rel : Db → Db → Prop}

/-- Safe for a holder of the plugin row that knows `Rel` of the rows. -/
def SafeIn (Ψ : State → Prop) (Rel : Db → Db → Prop) (code : Program) : Prop :=
  ∀ held log σ, pluginLock true ∈ held → Ψ σ → Rel σ.db (view σ log) → Safe protocol code held log σ

theorem SafeIn.mono {Rel' : Db → Db → Prop} {code : Program} (h : SafeIn Ψ Rel' code)
  (himp : ∀ db v, Rel db v → Rel' db v) : SafeIn Ψ Rel code :=
 fun held log σ hlock hΨ hrel => h held log σ hlock hΨ (himp _ _ hrel)

theorem exclusive_stable (hΨ : Stable protocol [] Ψ) (hrel : Robust Rel) {held : List PluginLock}
  {log : List PluginWrite} (hlock : pluginLock true ∈ held) (hlog : LogLocked held log) :
  Stable protocol held fun σ => Ψ σ ∧ Rel σ.db (view σ log) :=
 fun σ σ' h hinv hinv' hrely => ⟨hΨ.weaken held σ σ' h.1 hinv hinv' hrely,
  hrel _ _ _ _ h.2 (rely_drift hlock hlog hrely)⟩

theorem stable_tick {σ : State} (hΨ : Stable protocol [] Ψ) (hinv : Provenance σ) (h : Ψ σ) :
  Ψ σ.tick :=
 hΨ σ σ.tick h hinv hinv.tick .tick

variable {next : ℕ → Db → Program}

theorem safeIn_stmt (hΨ : Stable protocol [] Ψ) (hrel : Robust Rel) {Rel' : ℕ → Db → Db → Db → Prop}
  {locks : Db → List PluginLock} {writes : ℕ → Db → List PluginWrite}
  (hwrite : ∀ clock db v, Rel db v → Rel' clock v db (applyLog v (writes clock v)))
  (hnext : ∀ clock v, SafeIn Ψ (Rel' clock v) (next clock v)) :
  SafeIn Ψ Rel (.stmt locks writes next) := by
 intro held log σ hlock hhist hrows
 refine safe_stmt (fun hlog => exclusive_stable hΨ hrel hlock hlog) ⟨hhist, hrows⟩ ?_
 rintro σ' hinv - - ⟨hhist', hrows'⟩
 refine hnext _ _ _ _ _ (List.mem_append_left _ hlock) (stable_tick hΨ hinv hhist') ?_
 have hview : view σ'.tick (log ++ writes σ'.clock (view σ' log)) =
   applyLog (view σ' log) (writes σ'.clock (view σ' log)) := applyLog_append _ _ _
 rw [hview]
 exact hwrite _ _ _ hrows'

theorem safeIn_query (hΨ : Stable protocol [] Ψ) (hrel : Robust Rel)
  (hnext : ∀ clock v, SafeIn Ψ (fun db v' => Rel db v' ∧ Since v v') (next clock v)) :
  SafeIn Ψ Rel (.query next) :=
 safeIn_stmt hΨ hrel (fun _ _ v h => ⟨h, Since.refl v⟩) hnext

theorem safeIn_lock (hΨ : Stable protocol [] Ψ) (hrel : Robust Rel) {locks : Db → List PluginLock}
  (hnext : ∀ clock v, SafeIn Ψ (fun db v' => Rel db v' ∧ Since v v') (next clock v)) :
  SafeIn Ψ Rel (.lock locks next) :=
 safeIn_stmt hΨ hrel (fun _ _ v h => ⟨h, Since.refl v⟩) hnext

theorem safeIn_execute (hΨ : Stable protocol [] Ψ) (hrel : Robust Rel)
  (Rel' : ℕ → Db → Db → Db → Prop) {writes : ℕ → Db → List PluginWrite}
  (hwrite : ∀ clock db v, Rel db v → Rel' clock v db (applyLog v (writes clock v)))
  (hnext : ∀ clock v, SafeIn Ψ (Rel' clock v) (next clock v)) :
  SafeIn Ψ Rel (.execute writes next) :=
 safeIn_stmt hΨ hrel hwrite hnext

theorem safeIn_rollback (hΨ : Stable protocol [] Ψ) {next : Program}
  (hnext : ∀ σ, Provenance σ → Ψ σ → Safe protocol next [] [] σ) :
  SafeIn Ψ Rel (.rollback next) := by
 intro held log σ _ hhist _
 refine safe_rollback (hΨ.weaken held) hhist fun σ' hinv h => ?_
 exact hnext _ hinv.tick (stable_tick hΨ hinv h)

theorem guarantee_exclusive {held : List PluginLock} (hlock : pluginLock true ∈ held) (db db' : Db) :
  Guarantee held db db' where
 catalog _ _ := hlock
 grants _ _ := .inr ⟨true, hlock⟩
 units _ _ := ⟨⟨true, hlock⟩, .inr hlock⟩
 refusals _ _ _ _ _ _ _ _ _ _ _ := .inr hlock

theorem safeIn_commit (hΨ : Stable protocol [] Ψ) (hrel : Robust Rel) {event : Event}
  (heffect : ∀ σ db', Provenance σ → Ψ σ → Rel σ.db db' → Effect σ event db') :
  SafeIn Ψ Rel (.commit event .halt) := by
 intro held log σ hlock hhist hrows
 refine safe_commit (fun hlog => exclusive_stable hΨ hrel hlock hlog) ⟨hhist, hrows⟩ ?_
 intro σ' hinv _ h
 exact ⟨guarantee_exclusive hlock _ _, heffect σ' _ hinv h.1 h.2, trivial⟩

end Rules

section Requests

variable {Ψ : State → Prop} {σ : State}

theorem safe_read (hΨ : Stable protocol [] Ψ) (h : Ψ σ) {next : ℕ → Db → Program}
  (hnext : ∀ σ', Provenance σ' → Ψ σ' → Safe protocol (next σ'.clock σ'.db) [] [] σ'.tick) :
  Safe protocol (.query next) [] [] σ :=
 safe_stmt (fun _ => hΨ) h fun σ' hinv _ _ h' => hnext σ' hinv h'

theorem safe_abort {held : List PluginLock} {log : List PluginWrite} :
  Safe protocol (.rollback .halt) held log σ :=
 safe_rollback (stable_const _ _ True) trivial fun _ _ _ => trivial

theorem safe_unchanged {held : List PluginLock} {next : Program}
  (hnext : ∀ σ, Provenance σ → Safe protocol next [] [] σ) :
  Safe protocol (.commit .unchanged next) held [] σ := by
 refine safe_commit (fun _ => stable_const _ _ True) trivial fun σ' hinv _ _ => ⟨?_, rfl, ?_⟩
 · refine ⟨?_, ?_, ?_, ?_⟩
   · exact fun _ hne => absurd rfl hne
   · exact fun _ hne => absurd rfl hne
   · exact fun _ hne => absurd rfl hne
   · exact fun _ _ _ _ _ _ _ _ _ _ hne => absurd rfl hne
 · exact hnext _ (hinv.commit rfl)

theorem pluginEffect_robust (row row' : Plugin) :
  Robust fun db v => PluginEffect db v row row' := by
 intro db v db' v' h hdrift
 refine ⟨hdrift.plugin.1.trans h.before, hdrift.plugin.2.trans h.after, fun k hk => ?_⟩
 rcases hdrift k with ⟨hdb, hv⟩ | ⟨-, heq, -⟩
 · rw [hdb, hv]
   exact h.frame k hk
 · exact heq

theorem pluginEffect_write {v : Db} {row : Plugin} (hrow : plugin? v = some row) (row' : Plugin) :
  PluginEffect v (applyLog v [⟨.plugin, some row'⟩]) row row' where
 before := hrow
 after := lookup_applyWrite_self v .plugin (some row')
 frame k hk := lookup_applyLog_of_notMem v (by simpa using Ne.symm hk)

theorem safe_updatePlugin {held : List PluginLock} {guard : Plugin → Bool} {f : Plugin → Plugin}
  {onMiss next : Program} (hmiss : ∀ held σ, Safe protocol onMiss held [] σ)
  (hnext : ∀ row, guard row = true →
   SafeIn (fun _ => True) (fun db v => PluginEffect db v row (f row)) next) :
  Safe protocol (updatePlugin guard f onMiss next) held [] σ := by
 refine safe_stmt (fun _ => stable_const _ _ True) trivial fun σ' hinv _ _ _ => ?_
 have hview : view σ' [] = σ'.db := rfl
 simp only [hview]
 cases hrow : plugin? σ'.db with
 | none => exact hmiss _ _
 | some row =>
  by_cases hguard : guard row = true
  · simp only [hguard, if_true]
    refine hnext row hguard _ _ _ (List.mem_append_right _ (by simp [writeLocks, pluginLock])) trivial ?_
    exact pluginEffect_write hrow (f row)
  · simp only [hguard]
    exact hmiss _ _

end Requests

end BoardGamesEmpire.PluginExclusive
