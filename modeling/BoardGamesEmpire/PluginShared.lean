import BoardGamesEmpire.PluginExclusive

set_option autoImplicit false

/-!
# Under the shared plugin row

A holder of the plugin row in share mode keeps its manifest in place. With a
unit's advisory lock on top it is the only writer of that unit, and nobody else
commits a refusal of a required check against it.
-/
namespace BoardGamesEmpire.PluginShared
open JsText Manifest ReadCommitted ReadCommittedProtocol PluginStore PluginActivation PluginUpdateProgram
  PluginGrantProgram PluginSystem PluginProtocol PluginExclusive

section Calm

structure Calm (live : Plugin) (unit : UnitRef) (v v' : Db) : Prop where
  row : unit? v' unit = unit? v unit
  refusals : ∀ m slug, live.manifestJson = .manifest m → RequiredOf m unit.consentScope slug →
    ∀ g, grant? v' (unitGrant unit slug) = some g → g.status = .denied →
      grant? v (unitGrant unit slug) = some g

def Steady (live : Plugin) (unit : UnitRef) (Rel : Db → Db → Prop) : Prop :=
  ∀ db v db' v', Rel db v → Calm live unit db db' → Calm live unit v v' → Rel db' v'

variable {live : Plugin} {unit : UnitRef} {held : List PluginLock} {log : List PluginWrite} {σ σ' : State}
  {v v' v'' : Db}

theorem Calm.refl (live : Plugin) (unit : UnitRef) (v : Db) : Calm live unit v v :=
 ⟨rfl, fun _ _ _ _ _ hg _ => hg⟩

theorem Calm.trans (h : Calm live unit v v') (h' : Calm live unit v' v'') :
  Calm live unit v v'' where
 row := h'.row.trans h.row
 refusals m slug hjson hrequired g hg hdenied :=
  h.refusals m slug hjson hrequired g (h'.refusals m slug hjson hrequired g hg hdenied) hdenied

theorem Calm.serving (h : Calm live unit v v') : Serving v' unit ↔ Serving v unit := by
 simp only [Serving, h.row]

theorem Calm.noRefusal (h : Calm live unit v v') {m : PluginManifest}
  (hjson : live.manifestJson = .manifest m) (hnone : NoRefusal v m unit) : NoRefusal v' m unit := by
 intro slug hrequired g hg hdenied
 exact hnone slug hrequired g (h.refusals m slug hjson hrequired g hg hdenied) hdenied

theorem Steady.and {Rel Rel' : Db → Db → Prop} (h : Steady live unit Rel)
  (h' : Steady live unit Rel') :
  Steady live unit fun db v => Rel db v ∧ Rel' db v :=
 fun db v db' v' hrel hdb hv => ⟨h db v db' v' hrel.1 hdb hv, h' db v db' v' hrel.2 hdb hv⟩

theorem calm_steady (live : Plugin) (unit : UnitRef) (v : Db) :
  Steady live unit fun _ v' => Calm live unit v v' :=
 fun _ _ _ _ hrel _ hv => hrel.trans hv

theorem rely_calm (hplugin : HoldsPlugin held) (hunit : advisoryLock unit ∈ held)
  (hlive : plugin? σ.db = some live) (h : Rely protocol held σ σ') : Calm live unit σ.db σ'.db := by
 cases h with
 | tick => exact .refl live unit σ.db
 | outside w hkey hfree =>
  refine ⟨lookup_outside σ.db hkey rfl, fun m slug _ _ g hg _ => ?_⟩
  exact (lookup_outside σ.db hkey rfl).symm.trans hg
 | commit other event db hfree hrows hguar heffect =>
  have hshut : advisoryLock unit ∉ other ∧ pluginLock true ∉ other := by
   obtain ⟨exclusive, hheld⟩ := hplugin
   exact ⟨fun hother => hfree _ hunit _ hother ⟨rfl, .inl rfl⟩,
    fun hother => hfree _ hheld _ hother ⟨rfl, .inr rfl⟩⟩
  refine ⟨?_, fun m slug hjson hrequired g hg hdenied => ?_⟩
  · by_contra hne
    exact (hguar.units unit hne).2.elim hshut.1 hshut.2
  · by_contra hne
    refine (hguar.refusals unit slug live m g hlive hjson hrequired hg hdenied fun heq => ?_).elim
     hshut.1 hshut.2
    exact hne (heq ▸ hg)

theorem rely_calm_view (hlog : LogLocked held log) (hdb : Calm live unit σ.db σ'.db)
  (h : Rely protocol held σ σ') : Calm live unit (view σ log) (view σ' log) where
 row := by
  rcases h.view hlog (.unit unit) with ⟨-, heq⟩ | ⟨hv', hv⟩
  · exact heq
  · exact hv'.trans (hdb.row.trans hv.symm)
 refusals m slug hjson hrequired g hg hdenied := by
  rcases h.view hlog (.grant (unitGrant unit slug)) with ⟨-, heq⟩ | ⟨hv', hv⟩
  · exact heq.symm.trans hg
  · exact hv.trans (hdb.refusals m slug hjson hrequired g (hv'.symm.trans hg) hdenied)

end Calm

section Rules

variable {base : List PluginWrite} {live : Plugin} {unit : UnitRef} {dirty : Bool} {Rel : Db → Db → Prop}

/-- Safe for a holder of the plugin row with `base` written. -/
def SafeShared (base : List PluginWrite) (live : Plugin) (code : Program) : Prop :=
  ∀ held σ, HoldsPlugin held → plugin? σ.db = some live → Safe protocol code held base σ

/-- The view after `base` and writes of one unit. -/
def Over (base : List PluginWrite) (unit : UnitRef) (v : Db) : Prop :=
  ∃ db rest, (∀ w ∈ rest, w.key = .unit unit) ∧ v = applyLog db (base ++ rest)

/-- Safe for a holder of the plugin row and the unit's lock that knows `Rel` and
    may have written the unit's row once it is dirty. -/
def SafeAt (base : List PluginWrite) (live : Plugin) (unit : UnitRef) (dirty : Bool)
    (Rel : Db → Db → Prop) (code : Program) : Prop :=
  ∀ held rest σ, HoldsPlugin held → advisoryLock unit ∈ held → (∀ w ∈ rest, w.key = .unit unit) →
    (dirty = false → rest = []) → plugin? σ.db = some live → Rel σ.db (view σ (base ++ rest)) →
    Safe protocol code held (base ++ rest) σ

theorem holdsPlugin_append {held : List PluginLock} (h : HoldsPlugin held) (more : List PluginLock) :
  HoldsPlugin (held ++ more) :=
 h.imp fun _ hmem => List.mem_append_left _ hmem

theorem stable_live {held : List PluginLock} (h : HoldsPlugin held) (live : Plugin) :
  Stable protocol held fun σ => plugin? σ.db = some live := by
 obtain ⟨exclusive, hheld⟩ := h
 intro σ σ' hlive _ _ hrely
 exact (hrely.row hheld).trans hlive

theorem stable_at {held : List PluginLock} {log : List PluginWrite} (hplugin : HoldsPlugin held)
  (hunit : advisoryLock unit ∈ held) (hrel : Steady live unit Rel) (hlog : LogLocked held log) :
  Stable protocol held fun σ => plugin? σ.db = some live ∧ Rel σ.db (view σ log) := by
 intro σ σ' h hinv hinv' hrely
 have hcalm := rely_calm hplugin hunit h.1 hrely
 exact ⟨stable_live hplugin live σ σ' h.1 hinv hinv' hrely,
  hrel _ _ _ _ h.2 hcalm (rely_calm_view hlog hcalm hrely)⟩

theorem SafeAt.mono {Rel' : Db → Db → Prop} {code : Program}
  (h : SafeAt base live unit dirty Rel' code) (himp : ∀ db v, Rel db v → Rel' db v) :
  SafeAt base live unit dirty Rel code :=
 fun held rest σ hplugin hunit hrest hclean hlive hrows =>
  h held rest σ hplugin hunit hrest hclean hlive (himp _ _ hrows)

theorem SafeAt.clean {code : Program} (h : SafeAt base live unit true Rel code) :
  SafeAt base live unit dirty Rel code :=
 fun held rest σ hplugin hunit hrest _ hlive hrows => h held rest σ hplugin hunit hrest nofun hlive hrows

theorem safeShared_query {next : ℕ → Db → Program}
  (hnext : ∀ clock v, SafeShared base live (next clock v)) :
  SafeShared base live (.query next) := by
 intro held σ hplugin hlive
 refine safe_stmt (fun _ => stable_live hplugin live) hlive fun σ' hinv _ _ hlive' => ?_
 have hbase : base ++ ([] : List PluginWrite) = base := List.append_nil base
 rw [hbase]
 exact hnext _ _ _ _ (holdsPlugin_append hplugin _) hlive'

theorem safeShared_abort : SafeShared base live (.rollback .halt) := fun _ _ _ _ => safe_abort

def Untouched (unit : UnitRef) (db v : Db) : Prop := unit? v unit = unit? db unit

theorem untouched_steady (live : Plugin) (unit : UnitRef) : Steady live unit (Untouched unit) :=
 fun _ _ _ _ hrel hdb hv => hv.row.trans (hrel.trans hdb.row.symm)

theorem safeShared_lockUnitScope {next : Program} (hbase : ∀ w ∈ base, w.key ≠ .unit unit)
  (hnext : SafeAt base live unit false (Untouched unit) next) :
  SafeShared base live (lockUnitScope unit next) := by
 intro held σ hplugin hlive
 refine safe_stmt (fun _ => stable_live hplugin live) hlive fun σ' hinv _ _ hlive' => ?_
 refine hnext _ [] _ (holdsPlugin_append hplugin _) ?_ (by simp) (fun _ => rfl) hlive' ?_
 · simp [advisoryLock]
 · exact lookup_applyLog_of_notMem _ (by simpa using hbase)

theorem safeAt_stmt (hrel : Steady live unit Rel) (Rel' : ℕ → Db → Db → Db → Prop)
  (dirty' : Bool) {locks : Db → List PluginLock} {writes : ℕ → Db → List PluginWrite}
   {next : ℕ → Db → Program}
  (hkeys : ∀ clock v, ∀ w ∈ writes clock v, w.key = .unit unit)
  (hclean : dirty' = false → dirty = false ∧ ∀ clock v, writes clock v = [])
  (hwrite : ∀ clock db v, Over base unit v → Rel db v →
   Rel' clock v db (applyLog v (writes clock v)))
  (hnext : ∀ clock v, Over base unit v → SafeAt base live unit dirty' (Rel' clock v) (next clock v)) :
  SafeAt base live unit dirty Rel (.stmt locks writes next) := by
 intro held rest σ hplugin hunit hrest hempty hlive hrows
 refine safe_stmt (fun hlog => stable_at hplugin hunit hrel hlog) ⟨hlive, hrows⟩ ?_
 rintro σ' hinv - - ⟨hlive', hrows'⟩
 have hover : Over base unit (view σ' (base ++ rest)) := ⟨σ'.db, rest, hrest, rfl⟩
 rw [List.append_assoc]
 refine hnext _ _ hover _ _ _ (holdsPlugin_append hplugin _) (List.mem_append_left _ hunit) ?_ ?_ hlive' ?_
 · intro w hw
   rcases List.mem_append.1 hw with hw | hw
   · exact hrest w hw
   · exact hkeys _ _ w hw
 · intro hdirty
   obtain ⟨hbefore, hnone⟩ := hclean hdirty
   rw [hnone, hempty hbefore]
   rfl
 · rw [← List.append_assoc]
   have hview : ∀ more, view σ'.tick (base ++ rest ++ more) = applyLog (view σ' (base ++ rest)) more :=
    fun more => applyLog_append _ _ _
   rw [hview]
   exact hwrite _ _ _ hover hrows'

theorem safeAt_lock (hrel : Steady live unit Rel) {locks : Db → List PluginLock}
  {next : ℕ → Db → Program} (hnext : ∀ clock v, Over base unit v →
   SafeAt base live unit dirty (fun db v' => Rel db v' ∧ Calm live unit v v') (next clock v)) :
  SafeAt base live unit dirty Rel (.lock locks next) :=
 safeAt_stmt hrel _ dirty (fun _ _ _ hw => by simp at hw) (fun h => ⟨h, fun _ _ => rfl⟩)
  (fun _ _ v _ h => ⟨h, .refl live unit v⟩) hnext

theorem safeAt_query (hrel : Steady live unit Rel) {next : ℕ → Db → Program}
  (hnext : ∀ clock v, Over base unit v →
   SafeAt base live unit dirty (fun db v' => Rel db v' ∧ Calm live unit v v') (next clock v)) :
  SafeAt base live unit dirty Rel (.query next) :=
 safeAt_lock hrel hnext

theorem safeAt_lockUnit (hrel : Steady live unit Rel) {next : Option UnitRow → Program}
  (hnext : ∀ found, SafeAt base live unit dirty (fun db v => Rel db v ∧ unit? v unit = found)
   (next found)) :
  SafeAt base live unit dirty Rel (lockUnit unit next) :=
 safeAt_lock hrel fun _ v _ => (hnext (unit? v unit)).mono fun _ _ h => ⟨h.1, h.2.row⟩

theorem safeAt_updateUnit (hrel : Steady live unit Rel) {Rel' : Db → Db → Prop} {found : UnitRow}
  {guard : UnitRow → Bool} {f : UnitRow → UnitRow} {next : Program}
  (hwrite : ∀ db v row, Rel db v → unit? v unit = some row → row.id = found.id → guard row = true →
   Rel' db (applyLog v [⟨.unit unit, some (f row)⟩]))
  (hskip : ∀ db v, Rel db v →
   (∀ row, unit? v unit = some row → row.id = found.id → guard row = false) → Rel' db v)
  (hnext : SafeAt base live unit true Rel' next) :
  SafeAt base live unit dirty Rel (updateUnit unit found guard f next) := by
 refine safeAt_stmt hrel (fun _ _ => Rel') true (fun _ v w hw => ?_) nofun (fun _ db v _ h => ?_)
  fun _ _ _ => hnext
 · split at hw
   · split at hw
     · rw [List.mem_singleton.1 hw]
     · simp at hw
   · simp at hw
 · split
   · rename_i row hrow
     split
     · rename_i hguard
       simp only [Bool.and_eq_true, beq_iff_eq] at hguard
       exact hwrite db v row h hrow hguard.1 hguard.2
     · rename_i hguard
       refine hskip db v h fun row' hrow' hid => ?_
       cases hrow.symm.trans hrow'
       simpa [hid] using hguard
   · rename_i hnone
     refine hskip db v h fun row hrow => ?_
     rw [hrow] at hnone
     cases hnone

theorem safeAt_readOutstanding (hrel : Steady live unit Rel) {checks : List NormalizedPermissionRequest}
  {next : List Text → Program} (hnext : ∀ v corePermissions, Over base unit v →
   SafeAt base live unit dirty (fun db v' => Rel db v' ∧ Calm live unit v v')
    (next (outstandingSlugs (grantedOn unit checks v) corePermissions checks))) :
  SafeAt base live unit dirty Rel (readOutstanding unit checks next) := by
 refine safeAt_query hrel fun _ v hover => ?_
 refine safeAt_query (hrel.and (calm_steady live unit v)) fun _ v' _ => ?_
 exact (hnext v _ hover).mono fun _ _ h => h.1

theorem safeAt_unchanged : SafeAt [] live unit false Rel (.commit .unchanged .halt) := by
 intro held rest σ _ _ _ hempty _ _
 rw [hempty rfl]
 exact safe_unchanged fun _ _ => trivial

theorem safeAt_abort :
  SafeAt base live unit dirty Rel (.rollback .halt) := fun _ _ _ _ _ _ _ _ _ => safe_abort

end Rules

end BoardGamesEmpire.PluginShared
