import BoardGamesEmpire.PluginLoader

set_option autoImplicit false

/-!
# How a boot pass leaves each plugin

Loads of different plugins do not meet, so a whole pass leaves each plugin as
its own load alone would: loaded, or quarantined, or, where its recovery write
fails, registered without its configuration.
-/
namespace BoardGamesEmpire.PluginLoader
open JsText JsonText Manifest PluginStore
open PluginLifecycle (Registry RegistryEntry)
open PluginConfig (prime evict normalize)

section Pass

variable {ν M I ε : Type} {steps : PluginRow ε → LoadSteps ν M I ε}

def pass (steps : PluginRow ε → LoadSteps ν M I ε) (plugins : List (PluginRow ε))
    (s : LoaderState M I ε) : LoaderState M I ε :=
  plugins.foldl (fun s plugin => loadRow (steps plugin) plugin s) s

theorem viewOf_pass_apart {plugin : PluginRow ε} {plugins : List (PluginRow ε)}
  (h : ∀ other ∈ plugins, Apart other plugin)
  (s : LoaderState M I ε) : viewOf plugin (pass steps plugins s) = viewOf plugin s := by
 induction plugins generalizing s with
 | nil => rfl
 | cons other rest ih =>
  rw [pass, List.foldl_cons, ← pass, ih fun q hq => h q (List.mem_cons_of_mem _ hq)]
  exact viewOf_loadRow_ne (steps other) (h other List.mem_cons_self) s

theorem viewOf_pass {plugins : List (PluginRow ε)}
  (happart : plugins.Pairwise fun plugin other => Apart plugin other ∧ Apart other plugin)
  {plugin : PluginRow ε} (hmem : plugin ∈ plugins) (s : LoaderState M I ε) :
  viewOf plugin (pass steps plugins s) = loadView (steps plugin) plugin (viewOf plugin s) := by
 induction plugins generalizing s with
 | nil => cases hmem
 | cons first rest ih =>
  obtain ⟨hfirst, hrest⟩ := List.pairwise_cons.1 happart
  rw [pass, List.foldl_cons, ← pass]
  rcases List.mem_cons.1 hmem with rfl | hlater
  · rw [viewOf_pass_apart fun other hother => (hfirst other hother).2]
    exact viewOf_loadRow_self (steps plugin) plugin s
  · rw [ih hrest hlater, viewOf_loadRow_ne (steps first) (hfirst plugin hlater).1]

theorem apart_rows {rows : List (PluginRow ε)} (hids : (rows.map PluginRow.id).Nodup)
  (hslugs : (rows.map PluginRow.slug).Nodup) :
  rows.Pairwise fun plugin other => Apart plugin other ∧ Apart other plugin := by
 have hid := List.pairwise_map.1 hids
 have hslug := List.pairwise_map.1 hslugs
 exact (hid.and hslug).imp fun hne => ⟨⟨hne.1.symm, hne.2.symm⟩, hne.1, hne.2⟩

theorem rows_of_id {rows : List (PluginRow ε)} (hids : (rows.map PluginRow.id).Nodup)
  {plugin : PluginRow ε} (hmem : plugin ∈ rows) :
  rows.filter (fun row => row.id = plugin.id) = [plugin] := by
 induction rows with
 | nil => cases hmem
 | cons row rest ih =>
  rw [List.map_cons, List.nodup_cons] at hids
  rcases List.mem_cons.1 hmem with rfl | hlater
  · rw [List.filter_cons_of_pos (by simp), List.filter_eq_nil_iff.2 fun other hother => ?_]
    simp only [decide_eq_true_eq]
    exact fun heq => hids.1 (heq ▸ List.mem_map_of_mem hother)
  · have hne : row.id ≠ plugin.id := fun heq => hids.1 (heq ▸ List.mem_map_of_mem hlater)
    rw [List.filter_cons_of_neg (by simpa using hne), ih hids.2 hlater]

theorem prepare_version {st : LoadSteps ν M I ε} {plugin : PluginRow ε} {manifest : M}
  (h : prepare st plugin = .ok manifest) :
  readDiskVersion st.manifestFile = some plugin.version := by
 by_contra hversion
 unfold prepare at h
 cases hmanifest : thrown st.validateManifest with
 | error failure => simp [hmanifest, bind, Except.bind] at h
 | ok valid =>
  cases hdirectory : thrown st.resolveDirectory with
  | error failure => simp [hmanifest, hdirectory, bind, Except.bind] at h
  | ok directory => simp [hmanifest, hdirectory, hversion, bind, Except.bind, throw, throwThe,
   MonadExceptOf.throw] at h

theorem loadOne_cases (st : LoadSteps ν M I ε) (plugin : PluginRow ε) (s : LoaderState M I ε) :
  ((loadOne st plugin s).1.rows = s.rows ∨
   (loadOne st plugin s).1.rows = updateRow plugin.id (recovered plugin) s.rows) ∧
  ((loadOne st plugin s).1.imported = s.imported ∨
   (loadOne st plugin s).1.imported
    = s.imported ++ [⟨plugin.slug, plugin.version, some plugin.version⟩]) := by
 unfold loadOne
 cases hprepare : prepare st plugin with
 | error failure => exact ⟨.inl rfl, .inl rfl⟩
 | ok manifest =>
  rw [prepare_version hprepare]
  dsimp only
  cases extractFactory st with
  | error failure => exact ⟨.inl rfl, .inr rfl⟩
  | ok factory =>
   dsimp only
   cases construct st factory with
   | error failure => exact ⟨.inl rfl, .inr rfl⟩
   | ok pluginInstance =>
    dsimp only
    generalize register plugin.slug _ s.registry = registered
    cases registered with
    | error failure => exact ⟨.inl rfl, .inr rfl⟩
    | ok registry =>
     dsimp only
     cases plugin.loadFailed || plugin.restartRequired with
     | false => exact ⟨.inl rfl, .inr rfl⟩
     | true =>
      simp only [↓reduceIte]
      cases thrown st.recoveryWrite with
      | error failure => exact ⟨.inl rfl, .inr rfl⟩
      | ok _ => exact ⟨.inr rfl, .inr rfl⟩

theorem updateRow_keys (id : ℕ) (f : PluginRow ε → PluginRow ε) (hf : ∀ row, (f row).id = row.id ∧
  (f row).slug = row.slug)
  (rows : List (PluginRow ε)) :
  (updateRow id f rows).map (fun row => (row.id, row.slug)) = rows.map fun row => (row.id, row.slug) := by
 rw [updateRow, List.map_map]
 refine List.map_congr_left fun row _ => ?_
 by_cases hid : row.id = id
 · simp [hid, hf row]
 · simp [hid]

theorem quarantine_kept (st : LoadSteps ν M I ε) (plugin : PluginRow ε) (failure : LoadFailure ε)
  (s : LoaderState M I ε) :
  (quarantine st plugin failure s).rows.map (fun row => (row.id, row.slug)) = s.rows.map
   (fun row => (row.id, row.slug)) ∧
  (quarantine st plugin failure s).imported = s.imported := by
 unfold quarantine
 cases st.quarantineWrite with
 | error _ => exact ⟨rfl, rfl⟩
 | ok _ => exact ⟨updateRow_keys _ (quarantinedRow failure) (fun _ => ⟨rfl, rfl⟩) _, rfl⟩

theorem loadRow_kept (st : LoadSteps ν M I ε) (plugin : PluginRow ε) (s : LoaderState M I ε) :
  (loadRow st plugin s).rows.map (fun row => (row.id, row.slug)) = s.rows.map
   (fun row => (row.id, row.slug)) ∧
  ((loadRow st plugin s).imported = s.imported ∨
   (loadRow st plugin s).imported
    = s.imported ++ [⟨plugin.slug, plugin.version, some plugin.version⟩]) := by
 obtain ⟨hrows, himported⟩ := loadOne_cases st plugin s
 have hkeys : (loadOne st plugin s).1.rows.map (fun row => (row.id, row.slug)) = s.rows.map
  fun row => (row.id, row.slug) := by
  rcases hrows with hsame | hrecovered
  · rw [hsame]
  · rw [hrecovered]
    exact updateRow_keys _ (recovered plugin) (fun _ => ⟨rfl, rfl⟩) _
 unfold loadRow
 split
 · exact ⟨rfl, .inl rfl⟩
 · generalize loadOne st plugin s = result at himported hkeys
   obtain ⟨s', failure⟩ := result
   cases failure with
   | none => exact ⟨hkeys, himported⟩
   | some failure =>
    obtain ⟨hquarantined, hsame⟩ := quarantine_kept st plugin failure s'
    dsimp only at himported hkeys ⊢
    rw [hquarantined, hsame]
    exact ⟨hkeys, himported⟩

theorem pass_kept (steps : PluginRow ε → LoadSteps ν M I ε) (plugins : List (PluginRow ε))
  (s : LoaderState M I ε) :
  (pass steps plugins s).rows.map (fun row => (row.id, row.slug)) = s.rows.map
   (fun row => (row.id, row.slug)) ∧
  ∃ imports, (pass steps plugins s).imported = s.imported ++ imports ∧
   ∀ record ∈ imports, record.diskVersion = some record.version := by
 induction plugins generalizing s with
 | nil => exact ⟨rfl, [], (List.append_nil _).symm, fun _ hrecord => absurd hrecord List.not_mem_nil⟩
 | cons plugin rest ih =>
  rw [pass, List.foldl_cons, ← pass]
  obtain ⟨hkeys, himported⟩ := loadRow_kept (steps plugin) plugin s
  obtain ⟨hrest, imports, himports, hversions⟩ := ih (loadRow (steps plugin) plugin s)
  refine ⟨hrest.trans hkeys, ?_⟩
  rcases himported with hsame | hnew
  · exact ⟨imports, by rw [himports, hsame], hversions⟩
  · refine ⟨⟨plugin.slug, plugin.version, some plugin.version⟩ :: imports, ?_, fun record hrecord => ?_⟩
    · rw [himports, hnew, List.append_assoc, List.singleton_append]
    · rcases List.mem_cons.1 hrecord with rfl | hlater
      · rfl
      · exact hversions record hlater

end Pass

section Settling

variable {ν M I ε : Type} {steps : PluginRow ε → LoadSteps ν M I ε}

structure Loaded (plugin : PluginRow ε) (s : LoaderState M I ε) : Prop where
  registered : ∃ registered, s.registry.entry plugin.slug = some ⟨registered, true⟩
  primed : s.snapshots.lookup plugin.slug = some (normalize plugin.config)
  cleared : ∀ row ∈ s.rows, row.id = plugin.id → row.loadFailed = false ∧ row.restartRequired = false

/-- The plugin neither serves nor has a configuration, and if its quarantine
    could be written its row is disabled, with one event for each of the two. -/
structure Quarantined (steps : LoadSteps ν M I ε) (plugin : PluginRow ε)
    (before s : LoaderState M I ε) : Prop where
  unregistered : s.registry.has plugin.slug = false
  evicted : s.snapshots.lookup plugin.slug = none
  written : steps.quarantineWrite = .ok () →
    (∀ row ∈ s.rows, row.id = plugin.id → row.enabled = false ∧ row.loadFailed = true) ∧
    ∃ failure, s.emitted.filter (fun event => event.pluginId = plugin.id) =
      before.emitted.filter (fun event => event.pluginId = plugin.id) ++
        [.loadFailed plugin.id plugin.loadFailed failure, .disabled plugin.id plugin.enabled]

def RecoveryFails (steps : LoadSteps ν M I ε) (plugin : PluginRow ε) : Prop :=
  (∃ manifest factory pluginInstance, prepare steps plugin = .ok manifest ∧
   extractFactory steps = .ok factory ∧
    construct steps factory = .ok pluginInstance) ∧
  (plugin.loadFailed || plugin.restartRequired) = true ∧ ∃ error, steps.recoveryWrite = .error error

variable {st : LoadSteps ν M I ε}

theorem outcome_registered {plugin : PluginRow ε} {registered : RegisteredPlugin M I}
  {recovery : Option (LoadFailure ε)} (h : outcome st plugin = .registered registered recovery) :
  (∃ manifest factory pluginInstance, prepare st plugin = .ok manifest ∧ extractFactory st = .ok factory ∧
   construct st factory = .ok pluginInstance) ∧ recovery = recoveryFailure st plugin := by
 unfold outcome at h
 cases hprepare : prepare st plugin with
 | error failure =>
  rw [hprepare] at h
  cases h
 | ok manifest =>
  cases hextract : extractFactory st with
  | error failure =>
   rw [hprepare, hextract] at h
   cases h
  | ok factory =>
   cases hconstruct : construct st factory with
   | error failure =>
    simp only [hprepare, hextract, hconstruct] at h
    cases h
   | ok pluginInstance =>
    simp only [hprepare, hextract, hconstruct] at h
    cases h
    exact ⟨⟨manifest, factory, pluginInstance, rfl, rfl, hconstruct⟩, rfl⟩

theorem recoveryFailure_some {plugin : PluginRow ε} :
  (∃ failure, recoveryFailure st plugin = some failure) ↔
   (plugin.loadFailed || plugin.restartRequired) = true ∧ ∃ error, st.recoveryWrite = .error error := by
 unfold recoveryFailure thrown
 cases plugin.loadFailed || plugin.restartRequired with
 | false => simp
 | true =>
  cases st.recoveryWrite with
  | error error => simp [Except.mapError]
  | ok _ => simp [Except.mapError]

theorem recoveryFails_iff {plugin : PluginRow ε} :
  RecoveryFails st plugin ↔ ∃ registered failure,
   outcome st plugin = (.registered registered (some failure) : LoadOutcome M I ε) := by
 constructor
 · rintro ⟨⟨manifest, factory, pluginInstance, hprepare, hextract, hconstruct⟩, hwrite⟩
   obtain ⟨failure, hfailure⟩ := recoveryFailure_some.2 hwrite
   refine ⟨⟨plugin.id, plugin.slug, plugin.category, plugin.scope, manifest, pluginInstance⟩, failure, ?_⟩
   unfold outcome
   simp only [hprepare, hextract, hconstruct, hfailure]
 · rintro ⟨registered, failure, houtcome⟩
   obtain ⟨hbuilt, hrecovery⟩ := outcome_registered houtcome
   exact ⟨hbuilt, recoveryFailure_some.1 ⟨failure, hrecovery.symm⟩⟩

variable {s : LoaderState M I ε} {plugin : PluginRow ε}

theorem loaded_iff :
  Loaded plugin s ↔ (∃ registered, (viewOf plugin s).entry = some ⟨registered, true⟩) ∧
  (viewOf plugin s).snapshot = some (normalize plugin.config) ∧
  ∀ row ∈ (viewOf plugin s).rows, row.loadFailed = false ∧ row.restartRequired = false := by
 have hrows : (∀ row ∈ (viewOf plugin s).rows, row.loadFailed = false ∧ row.restartRequired = false) ↔
   ∀ row ∈ s.rows, row.id = plugin.id → row.loadFailed = false ∧ row.restartRequired = false := by
  simp only [viewOf, List.mem_filter, decide_eq_true_eq, and_imp]
 rw [hrows]
 exact ⟨fun h => ⟨h.registered, h.primed, h.cleared⟩, fun h => ⟨h.1, h.2.1, h.2.2⟩⟩

theorem quarantined_iff {before : LoaderState M I ε} : Quarantined st plugin before s ↔
  (viewOf plugin s).entry = none ∧ (viewOf plugin s).snapshot = none ∧ (st.quarantineWrite = .ok () →
   (∀ row ∈ (viewOf plugin s).rows, row.enabled = false ∧ row.loadFailed = true) ∧
   ∃ failure, (viewOf plugin s).emitted = (viewOf plugin before).emitted ++
    [.loadFailed plugin.id plugin.loadFailed failure, .disabled plugin.id plugin.enabled]) := by
 have hrows : (∀ row ∈ (viewOf plugin s).rows, row.enabled = false ∧ row.loadFailed = true) ↔
   ∀ row ∈ s.rows, row.id = plugin.id → row.enabled = false ∧ row.loadFailed = true := by
  simp only [viewOf, List.mem_filter, decide_eq_true_eq, and_imp]
 have hentry : (viewOf plugin s).entry = none ↔ s.registry.has plugin.slug = false := by
  show s.registry.entry plugin.slug = none ↔ (s.registry.entry plugin.slug).isSome = false
  rw [Option.isSome_eq_false_iff, Option.isNone_iff_eq_none]
 rw [hrows, hentry]
 exact ⟨fun h => ⟨h.unregistered, h.evicted, h.written⟩, fun h => ⟨h.1, h.2.1, h.2.2⟩⟩

theorem quarantined_view (st : LoadSteps ν M I ε) (plugin : PluginRow ε) (failure : LoadFailure ε)
  (v : PluginView M I ε) :
  (v.quarantined st plugin failure).entry = v.entry ∧ (v.quarantined st plugin failure).snapshot = none ∧
  (st.quarantineWrite = .ok () →
   (v.quarantined st plugin failure).rows = v.rows.map (quarantinedRow failure) ∧
   (v.quarantined st plugin failure).emitted = v.emitted ++
    [.loadFailed plugin.id plugin.loadFailed failure, .disabled plugin.id plugin.enabled]) := by
 unfold PluginView.quarantined
 cases st.quarantineWrite with
 | error error => exact ⟨rfl, rfl, fun h => by cases h⟩
 | ok _ => exact ⟨rfl, rfl, fun _ => ⟨rfl, rfl⟩⟩

theorem loadView_settles {v : PluginView M I ε} (hfree : v.entry = none)
  (hrows : v.rows = [plugin]) :
  (((∃ registered, (loadView st plugin v).entry = some ⟨registered, true⟩) ∧
    (loadView st plugin v).snapshot = some (normalize plugin.config) ∧
    ∀ row ∈ (loadView st plugin v).rows, row.loadFailed = false ∧ row.restartRequired = false) ∨
   ((loadView st plugin v).entry = none ∧ (loadView st plugin v).snapshot = none ∧
    (st.quarantineWrite = .ok () →
    (∀ row ∈ (loadView st plugin v).rows, row.enabled = false ∧ row.loadFailed = true) ∧
    ∃ failure, (loadView st plugin v).emitted = v.emitted ++
     [.loadFailed plugin.id plugin.loadFailed failure, .disabled plugin.id plugin.enabled]))) ↔
  ¬ RecoveryFails st plugin := by
 have hopen : loadView st plugin v = v.after st plugin (outcome st plugin) := by
  rw [loadView, hfree, Option.isSome_none, if_neg Bool.false_ne_true]
 have hquarantined : ∀ (w : PluginView M I ε) (failure : LoadFailure ε), w.entry = none →
  w.rows = v.rows → w.emitted = v.emitted →
   (w.quarantined st plugin failure).entry = none ∧ (w.quarantined st plugin failure).snapshot = none ∧
   (st.quarantineWrite = .ok () →
    (∀ row ∈ (w.quarantined st plugin failure).rows, row.enabled = false ∧ row.loadFailed = true) ∧
    ∃ failure', (w.quarantined st plugin failure).emitted = v.emitted ++
     [.loadFailed plugin.id plugin.loadFailed failure', .disabled plugin.id plugin.enabled]) := by
  intro w failure hentry hsame hemitted
  obtain ⟨hkept, hsnapshot, hwritten⟩ := quarantined_view st plugin failure w
  refine ⟨hkept.trans hentry, hsnapshot, fun hwrite => ?_⟩
  obtain ⟨hrows', hemitted'⟩ := hwritten hwrite
  refine ⟨fun row hrow => ?_, failure, by rw [hemitted', hemitted]⟩
  rw [hrows'] at hrow
  obtain ⟨before, -, rfl⟩ := List.mem_map.1 hrow
  exact ⟨rfl, rfl⟩
 rw [recoveryFails_iff]
 cases houtcome : outcome st plugin with
 | refused failure =>
  rw [hopen, houtcome]
  refine iff_of_true (.inr (hquarantined v failure hfree rfl rfl)) ?_
  rintro ⟨_, _, heq⟩
  cases heq
 | imported failure =>
  rw [hopen, houtcome]
  refine iff_of_true (.inr (hquarantined _ failure hfree rfl rfl)) ?_
  rintro ⟨_, _, heq⟩
  cases heq
 | primed failure =>
  rw [hopen, houtcome]
  refine iff_of_true (.inr (hquarantined _ failure hfree rfl rfl)) ?_
  rintro ⟨_, _, heq⟩
  cases heq
 | registered registered recovery =>
  obtain ⟨-, hrecovery⟩ := outcome_registered houtcome
  cases recovery with
  | some failure =>
   -- the plugin keeps its entry and loses its configuration
   rw [hopen, houtcome]
   dsimp only [PluginView.after]
   obtain ⟨hkept, hsnapshot, -⟩ :=
    quarantined_view st plugin failure ((v.imports st plugin).registers registered)
   refine iff_of_false ?_ fun hnever => hnever ⟨registered, failure, rfl⟩
   rintro (⟨-, hprimed, -⟩ | ⟨hnone, -⟩)
   · rw [hsnapshot] at hprimed
     cases hprimed
   · rw [hkept] at hnone
     cases hnone
  | none =>
   rw [hopen, houtcome]
   refine iff_of_true (.inl ⟨⟨registered, rfl⟩, rfl, fun row hrow => ?_⟩) ?_
   · dsimp only [PluginView.after] at hrow
     rw [hrows] at hrow
     cases hfailed : plugin.loadFailed <;> cases hrestart : plugin.restartRequired <;>
      simp [hfailed, hrestart, recovered] at hrow <;> subst hrow <;> simp [hfailed, hrestart]
   · rintro ⟨_, _, heq⟩
     cases heq

theorem mem_enabledPlugins : plugin ∈ enabledPlugins s ↔ plugin ∈ s.rows ∧ plugin.enabled = true ∧
  plugin.uninstalledAt = none := by
 rw [enabledPlugins, List.mem_filter, Bool.and_eq_true, Option.isNone_iff_eq_none]

/-- A boot pass settles every plugin, each by its own steps, unless a recovery
    write fails; and it leaves alone what was registered before. -/
theorem loadAllEnabled_settles (steps : PluginRow ε → LoadSteps ν M I ε) (s : LoaderState M I ε)
    (hids : (s.rows.map PluginRow.id).Nodup) (hslugs : (s.rows.map PluginRow.slug).Nodup) :
    (∀ plugin ∈ enabledPlugins s, s.registry.has plugin.slug = false →
      (Loaded plugin (loadAllEnabled steps s) ∨
       Quarantined (steps plugin) plugin s (loadAllEnabled steps s) ↔
        ¬ RecoveryFails (steps plugin) plugin)) ∧
    (∀ plugin ∈ enabledPlugins s, viewOf plugin (loadAllEnabled steps s) = viewOf plugin
     (loadRow (steps plugin) plugin s)) ∧
    (∃ imports, (loadAllEnabled steps s).imported = s.imported ++ imports ∧
     ∀ record ∈ imports, record.diskVersion = some record.version) ∧
    ∀ again : PluginRow ε → LoadSteps ν M I ε, ∀ plugin ∈ (loadAllEnabled steps s).rows,
      (loadAllEnabled steps s).registry.has plugin.slug = true →
      viewOf plugin (loadAllEnabled again (loadAllEnabled steps s)) = viewOf plugin
       (loadAllEnabled steps s) := by
 have happart := (apart_rows hids hslugs).sublist
  (List.filter_sublist (p := fun row => row.enabled && row.uninstalledAt.isNone))
 have hview : ∀ plugin ∈ enabledPlugins s, viewOf plugin (loadAllEnabled steps s) = loadView
  (steps plugin) plugin (viewOf plugin s) :=
  fun plugin hplugin => viewOf_pass happart hplugin s
 obtain ⟨hkeys, himports⟩ := pass_kept steps (enabledPlugins s) s
 refine ⟨fun plugin hplugin hfree => ?_, fun plugin hplugin => ?_, himports,
  fun again plugin hplugin hhas => ?_⟩
 · have hentry : (viewOf plugin s).entry = none :=
    Option.isSome_eq_false_iff.1 hfree |> Option.isNone_iff_eq_none.1
   rw [loaded_iff, quarantined_iff, hview plugin hplugin]
   exact loadView_settles hentry (rows_of_id hids (mem_enabledPlugins.1 hplugin).1)
 · rw [hview plugin hplugin, viewOf_loadRow_self]
 · have hids' : ((loadAllEnabled steps s).rows.map PluginRow.id).Nodup := by
    have hsame := congrArg (List.map Prod.fst) hkeys
    rw [List.map_map, List.map_map] at hsame
    exact (show (loadAllEnabled steps s).rows.map PluginRow.id = s.rows.map PluginRow.id from hsame) ▸ hids
   have hslugs' : ((loadAllEnabled steps s).rows.map PluginRow.slug).Nodup := by
    have hsame := congrArg (List.map Prod.snd) hkeys
    rw [List.map_map, List.map_map] at hsame
    exact (show (loadAllEnabled steps s).rows.map PluginRow.slug = s.rows.map PluginRow.slug from
     hsame) ▸ hslugs
   have happart' := apart_rows hids' hslugs'
   by_cases henabled : plugin ∈ enabledPlugins (loadAllEnabled steps s)
   · have hpass : viewOf plugin
      (pass again (enabledPlugins (loadAllEnabled steps s)) (loadAllEnabled steps s)) =
       loadView (again plugin) plugin (viewOf plugin (loadAllEnabled steps s)) :=
      viewOf_pass (happart'.sublist List.filter_sublist) henabled (loadAllEnabled steps s)
     refine hpass.trans ?_
     rw [loadView]
     exact if_pos hhas
   · refine viewOf_pass_apart (fun other hother => ?_) _
     obtain ⟨hmem, -⟩ := mem_enabledPlugins.1 hother
     have hne : plugin ≠ other := fun heq => henabled (heq ▸ hother)
     have hsymm : Std.Symm fun plugin other : PluginRow ε => Apart plugin other ∧
      Apart other plugin := ⟨fun _ _ h => h.symm⟩
     exact (happart'.forall hplugin hmem hne).2

/-- A plugin that failed to load before, with every step of its load going well
    except, if at all, its recovery write. -/
def staleRow : PluginRow Unit := ⟨0, ['p'], ['1'], [], .server, emptyConfig, true, true, none, false, none⟩

def stepsWith (recoveryWrite : Except Unit Unit) : LoadSteps ℕ Unit Unit Unit where
  validateManifest := .ok ()
  resolveDirectory := .ok ()
  manifestFile := some (.obj [(['v', 'e', 'r', 's', 'i', 'o', 'n'], .str ['1'])])
  packageFile := .ok (.obj [])
  resolveEntrypoint := .ok ()
  assertContained := .ok ()
  importModule := .ok (some (.ok ()))
  createContext := .ok ()
  recoveryWrite := recoveryWrite
  quarantineWrite := .ok ()

def staleState : LoaderState Unit Unit Unit := ⟨[staleRow], ⟨∅⟩, .empty, [], []⟩

theorem loadAllEnabled_settles_stale :
  Loaded staleRow (loadAllEnabled (fun _ => stepsWith (.ok ())) staleState) ∨
    Quarantined (stepsWith (.ok ())) staleRow staleState
     (loadAllEnabled (fun _ => stepsWith (.ok ())) staleState) := by
 refine ((loadAllEnabled_settles (fun _ => stepsWith (.ok ())) staleState (by decide) (by decide)).1
  staleRow
  (mem_enabledPlugins.2 ⟨List.mem_cons_self, rfl, rfl⟩) rfl).2 ?_
 rintro ⟨-, -, error, hwrite⟩
 cases hwrite

/-- The plugin whose recovery write fails is registered and enabled, and has
    lost its configuration. -/
theorem loadAllEnabled_half_loaded :
  ¬ ∀ (steps : PluginRow Unit → LoadSteps ℕ Unit Unit Unit) (s : LoaderState Unit Unit Unit),
    (s.rows.map PluginRow.id).Nodup → (s.rows.map PluginRow.slug).Nodup → ∀ plugin ∈ enabledPlugins s,
    s.registry.has plugin.slug = false →
    Loaded plugin (loadAllEnabled steps s) ∨
     Quarantined (steps plugin) plugin s (loadAllEnabled steps s) := by
 intro hsettles
 rcases hsettles (fun _ => stepsWith (.error ())) staleState (by decide) (by decide) staleRow
  (mem_enabledPlugins.2 ⟨List.mem_cons_self, rfl, rfl⟩) rfl with hloaded | hquarantined
 · have hprimed := hloaded.primed
   cases hprimed
 · have hunregistered := hquarantined.unregistered
   cases hunregistered

end Settling

end BoardGamesEmpire.PluginLoader
