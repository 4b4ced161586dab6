import BoardGamesEmpire.JsonText
import BoardGamesEmpire.PluginConfig
import BoardGamesEmpire.PluginLifecycle

set_option autoImplicit false

/-!
# The boot pass over the enabled plugins

`loadAllEnabled`: each enabled row that is not registered yet is loaded, and a
load that fails is quarantined. What the steps of a load give is open.
-/
namespace BoardGamesEmpire.PluginLoader
open JsText JsonText Manifest PluginStore
open PluginLifecycle (Registry RegistryEntry)
open PluginConfig (prime evict normalize)

section Model

inductive LoadFailure (ε : Type) where
  | thrown (error : ε)
  | diskVersionMismatch (expectedVersion : Text) (foundVersion : Option Text)
  | packageNotObject
  | noFactory
  | duplicateRegistration

structure PluginRow (ε : Type) where
  id : ℕ
  slug : Text
  version : Text
  category : Text
  scope : PluginScope
  config : ConfigValue
  enabled : Bool
  loadFailed : Bool
  loadError : Option (LoadFailure ε)
  restartRequired : Bool
  uninstalledAt : Option ℕ

/-- What each step of one load gives: the stored manifest's validation, the
    directory, the files as parsed, the entrypoint and its containment, the
    default export, if it is a function, by what calling it gives, the context,
    and the two writes. -/
structure LoadSteps (ν M I ε : Type) where
  validateManifest : Except ε M
  resolveDirectory : Except ε Unit
  manifestFile : Option (Json ν)
  packageFile : Except ε (Json ν)
  resolveEntrypoint : Except ε Unit
  assertContained : Except ε Unit
  importModule : Except ε (Option (Except ε I))
  createContext : Except ε Unit
  recoveryWrite : Except ε Unit
  quarantineWrite : Except ε Unit

structure RegisteredPlugin (M I : Type) where
  pluginId : ℕ
  slug : Text
  category : Text
  scope : PluginScope
  manifest : M
  pluginInstance : I

inductive LoaderEvent (ε : Type) where
  | loadFailed (pluginId : ℕ) (before : Bool) (failure : LoadFailure ε)
  | disabled (pluginId : ℕ) (before : Bool)

def LoaderEvent.pluginId {ε : Type} : LoaderEvent ε → ℕ
  | .loadFailed pluginId _ _ | .disabled pluginId _ => pluginId

/-- An import of a plugin's code: the row's version, and the version on disk. -/
structure Import where
  slug : Text
  version : Text
  diskVersion : Option Text

structure LoaderState (M I ε : Type) where
  rows : List (PluginRow ε)
  registry : Registry (RegisteredPlugin M I)
  snapshots : LiveMap Text ConfigValue
  imported : List Import
  emitted : List (LoaderEvent ε)

variable {ν M I ε : Type}

/-- The version in the manifest on disk, or none where there is no text of one. -/
def readDiskVersion (manifestFile : Option (Json ν)) : Option Text :=
  match manifestFile with
  | some (.obj members) =>
    match members.lookup ['v', 'e', 'r', 's', 'i', 'o', 'n'] with
    | some (.str version) => some version
    | _ => none
  | _ => none

def thrown {α : Type} (step : Except ε α) : Except (LoadFailure ε) α := step.mapError .thrown

def readPackageDescriptor (steps : LoadSteps ν M I ε) : Except (LoadFailure ε) Unit :=
  match thrown steps.packageFile with
  | .ok (.obj _) => .ok ()
  | .ok _ => .error .packageNotObject
  | .error failure => .error failure

def prepare (steps : LoadSteps ν M I ε) (plugin : PluginRow ε) : Except (LoadFailure ε) M := do
  let manifest ← thrown steps.validateManifest
  thrown steps.resolveDirectory
  if readDiskVersion steps.manifestFile ≠ some plugin.version then
    throw (.diskVersionMismatch plugin.version (readDiskVersion steps.manifestFile))
  readPackageDescriptor steps
  thrown steps.resolveEntrypoint
  thrown steps.assertContained
  return manifest

def extractFactory (steps : LoadSteps ν M I ε) : Except (LoadFailure ε) (Except ε I) :=
  match thrown steps.importModule with
  | .ok (some factory) => .ok factory
  | .ok none => .error .noFactory
  | .error failure => .error failure

def construct (steps : LoadSteps ν M I ε) (factory : Except ε I) : Except (LoadFailure ε) I :=
  (thrown steps.createContext).bind fun _ => thrown factory

/-- `registry.register` with `enabled: true`. -/
def register (slug : Text) (registered : RegisteredPlugin M I)
    (registry : Registry (RegisteredPlugin M I)) :
    Except (LoadFailure ε) (Registry (RegisteredPlugin M I)) :=
  if registry.has slug then .error .duplicateRegistration else .ok
   ⟨registry.entries.insert slug ⟨registered, true⟩⟩

def updateRow (id : ℕ) (f : PluginRow ε → PluginRow ε) (rows : List (PluginRow ε)) : List (PluginRow ε) :=
  rows.map fun row => if row.id = id then f row else row

def recovered (plugin row : PluginRow ε) : PluginRow ε :=
  { row with
    loadFailed := if plugin.loadFailed then false else row.loadFailed
    loadError := if plugin.loadFailed then none else row.loadError
    restartRequired := if plugin.restartRequired then false else row.restartRequired }

def loadOne (steps : LoadSteps ν M I ε) (plugin : PluginRow ε) (s : LoaderState M I ε) :
    LoaderState M I ε × Option (LoadFailure ε) :=
  match prepare steps plugin with
  | .error failure => (s, some failure)
  | .ok manifest =>
    let s := { s with imported := s.imported ++ [⟨plugin.slug, plugin.version, readDiskVersion steps.manifestFile⟩] }
    match extractFactory steps with
    | .error failure => (s, some failure)
    | .ok factory =>
      let s := { s with snapshots := prime plugin.slug plugin.config s.snapshots }
      match construct steps factory with
      | .error failure => (s, some failure)
      | .ok pluginInstance =>
        match register plugin.slug ⟨plugin.id, plugin.slug, plugin.category, plugin.scope, manifest,
         pluginInstance⟩ s.registry with
        | .error failure => (s, some failure)
        | .ok registry =>
          let s := { s with registry }
          if plugin.loadFailed || plugin.restartRequired then
            match thrown steps.recoveryWrite with
            | .error failure => (s, some failure)
            | .ok _ => ({ s with rows := updateRow plugin.id (recovered plugin) s.rows }, none)
          else (s, none)

def quarantinedRow (failure : LoadFailure ε) (row : PluginRow ε) : PluginRow ε :=
  { row with enabled := false, loadFailed := true, loadError := some failure }

def quarantine (steps : LoadSteps ν M I ε) (plugin : PluginRow ε) (failure : LoadFailure ε)
    (s : LoaderState M I ε) :
    LoaderState M I ε :=
  let s := { s with snapshots := evict plugin.slug s.snapshots }
  match steps.quarantineWrite with
  | .error _ => s
  | .ok _ =>
    { s with
      rows := updateRow plugin.id (quarantinedRow failure) s.rows
      emitted := s.emitted ++ [.loadFailed plugin.id plugin.loadFailed failure,
       .disabled plugin.id plugin.enabled] }

def loadRow (steps : LoadSteps ν M I ε) (plugin : PluginRow ε) (s : LoaderState M I ε) :
    LoaderState M I ε :=
  if s.registry.has plugin.slug then s
  else
    match loadOne steps plugin s with
    | (s', none) => s'
    | (s', some failure) => quarantine steps plugin failure s'

def enabledPlugins (s : LoaderState M I ε) :
    List (PluginRow ε) := s.rows.filter fun row => row.enabled && row.uninstalledAt.isNone

def loadAllEnabled (steps : PluginRow ε → LoadSteps ν M I ε) (s : LoaderState M I ε) : LoaderState M I ε :=
  (enabledPlugins s).foldl (fun s plugin => loadRow (steps plugin) plugin s) s

end Model

section OnePlugin

variable {ν M I ε : Type}

structure PluginView (M I ε : Type) where
  rows : List (PluginRow ε)
  entry : Option (RegistryEntry (RegisteredPlugin M I))
  snapshot : Option ConfigValue
  imported : List Import
  emitted : List (LoaderEvent ε)

def viewOf (plugin : PluginRow ε) (s : LoaderState M I ε) : PluginView M I ε where
  rows := s.rows.filter fun row => row.id = plugin.id
  entry := s.registry.entry plugin.slug
  snapshot := s.snapshots.lookup plugin.slug
  imported := s.imported.filter fun record => record.slug = plugin.slug
  emitted := s.emitted.filter fun event => event.pluginId = plugin.id

/-- How far a load gets: no code is imported, or it is and nothing is primed, or
    nothing is registered, or the plugin is, with the failure that its recovery
    write may have. -/
inductive LoadOutcome (M I ε : Type) where
  | refused (failure : LoadFailure ε)
  | imported (failure : LoadFailure ε)
  | primed (failure : LoadFailure ε)
  | registered (registered : RegisteredPlugin M I) (recovery : Option (LoadFailure ε))

def recoveryFailure (steps : LoadSteps ν M I ε) (plugin : PluginRow ε) : Option (LoadFailure ε) :=
  if plugin.loadFailed || plugin.restartRequired then
    match thrown steps.recoveryWrite with
    | .error failure => some failure
    | .ok _ => none
  else none

def outcome (steps : LoadSteps ν M I ε) (plugin : PluginRow ε) : LoadOutcome M I ε :=
  match prepare steps plugin with
  | .error failure => .refused failure
  | .ok manifest =>
    match extractFactory steps with
    | .error failure => .imported failure
    | .ok factory =>
      match construct steps factory with
      | .error failure => .primed failure
      | .ok pluginInstance =>
        .registered ⟨plugin.id, plugin.slug, plugin.category, plugin.scope, manifest,
         pluginInstance⟩ (recoveryFailure steps plugin)

def PluginView.imports (v : PluginView M I ε) (steps : LoadSteps ν M I ε) (plugin : PluginRow ε) :
    PluginView M I ε :=
  { v with imported := v.imported ++ [⟨plugin.slug, plugin.version, readDiskVersion steps.manifestFile⟩] }

def PluginView.quarantined (v : PluginView M I ε) (steps : LoadSteps ν M I ε) (plugin : PluginRow ε)
    (failure : LoadFailure ε) :
    PluginView M I ε :=
  match steps.quarantineWrite with
  | .error _ => { v with snapshot := none }
  | .ok _ =>
    { v with
      snapshot := none
      rows := v.rows.map (quarantinedRow failure)
      emitted := v.emitted ++ [.loadFailed plugin.id plugin.loadFailed failure,
       .disabled plugin.id plugin.enabled] }

def PluginView.registers (v : PluginView M I ε) (registered : RegisteredPlugin M I) : PluginView M I ε :=
  { v with entry := some ⟨registered, true⟩ }

def PluginView.after (v : PluginView M I ε) (steps : LoadSteps ν M I ε) (plugin : PluginRow ε) :
    LoadOutcome M I ε → PluginView M I ε
  | .refused failure => v.quarantined steps plugin failure
  | .imported failure | .primed failure => (v.imports steps plugin).quarantined steps plugin failure
  | .registered registered (some failure) =>
   ((v.imports steps plugin).registers registered).quarantined steps plugin failure
  | .registered registered none =>
    { (v.imports steps plugin).registers registered with
      snapshot := some (normalize plugin.config)
      rows := if plugin.loadFailed || plugin.restartRequired then v.rows.map
       (recovered plugin) else v.rows }

def loadView (steps : LoadSteps ν M I ε) (plugin : PluginRow ε) (v : PluginView M I ε) :
    PluginView M I ε :=
  if v.entry.isSome then v else v.after steps plugin (outcome steps plugin)

theorem filter_updateRow_self (id : ℕ) (f : PluginRow ε → PluginRow ε)
  (hf : ∀ row, (f row).id = row.id) (rows : List (PluginRow ε)) :
  (updateRow id f rows).filter (fun row => row.id = id) = (rows.filter fun row => row.id = id).map f := by
 induction rows with
 | nil => rfl
 | cons row rest ih =>
  rw [updateRow, List.map_cons, ← updateRow]
  by_cases hid : row.id = id
  · rw [if_pos hid, List.filter_cons_of_pos (by simpa [hf] using hid),
     List.filter_cons_of_pos (by simpa using hid), ih, List.map_cons]
  · rw [if_neg hid, List.filter_cons_of_neg (by simpa using hid),
     List.filter_cons_of_neg (by simpa using hid), ih]

theorem filter_updateRow_ne {id id' : ℕ} (hne : id' ≠ id) (f : PluginRow ε → PluginRow ε)
  (hf : ∀ row, (f row).id = row.id) (rows : List (PluginRow ε)) :
   (updateRow id f rows).filter (fun row => row.id = id') = rows.filter fun row => row.id = id' := by
 induction rows with
 | nil => rfl
 | cons row rest ih =>
  rw [updateRow, List.map_cons, ← updateRow]
  by_cases hid : row.id = id
  · have hother : row.id ≠ id' := fun h => hne (h.symm.trans hid)
    rw [if_pos hid, List.filter_cons_of_neg (by simpa [hf] using hother),
     List.filter_cons_of_neg (by simpa using hother), ih]
  · rw [if_neg hid, List.filter_cons, List.filter_cons, ih]

theorem viewOf_quarantine_self (steps : LoadSteps ν M I ε) (plugin : PluginRow ε)
  (failure : LoadFailure ε) (s : LoaderState M I ε) :
  viewOf plugin (quarantine steps plugin failure s) = (viewOf plugin s).quarantined steps plugin
   failure := by
 have hsnapshot : (evict plugin.slug s.snapshots).lookup plugin.slug = none :=
  LiveMap.lookup_delete_self _ _
 unfold quarantine PluginView.quarantined
 cases steps.quarantineWrite with
 | error _ =>
  dsimp only [viewOf]
  rw [hsnapshot]
 | ok _ =>
  dsimp only [viewOf]
  rw [hsnapshot, filter_updateRow_self plugin.id (quarantinedRow failure) (fun _ =>
   rfl), List.filter_append]
  simp [LoaderEvent.pluginId]

theorem viewOf_quarantine_ne (steps : LoadSteps ν M I ε) {plugin other : PluginRow ε}
  (hid : other.id ≠ plugin.id) (hslug : other.slug ≠ plugin.slug) (failure : LoadFailure ε)
  (s : LoaderState M I ε) :
  viewOf other (quarantine steps plugin failure s) = viewOf other s := by
 have hsnapshot : (evict plugin.slug s.snapshots).lookup other.slug = s.snapshots.lookup
  other.slug := LiveMap.lookup_delete_ne _ hslug
 unfold quarantine
 cases steps.quarantineWrite with
 | error _ =>
  dsimp only [viewOf]
  rw [hsnapshot]
 | ok _ =>
  dsimp only [viewOf]
  rw [hsnapshot, filter_updateRow_ne hid (quarantinedRow failure) (fun _ => rfl), List.filter_append]
  simp [LoaderEvent.pluginId, hid.symm]

theorem viewOf_imported_self (steps : LoadSteps ν M I ε) (plugin : PluginRow ε)
  (s : LoaderState M I ε) :
  viewOf plugin
   { s with imported := s.imported ++ [⟨plugin.slug, plugin.version, readDiskVersion steps.manifestFile⟩] } =
   (viewOf plugin s).imports steps plugin := by
 dsimp only [viewOf, PluginView.imports]
 rw [List.filter_append]
 simp

theorem quarantined_primed (steps : LoadSteps ν M I ε) (plugin : PluginRow ε)
  (failure : LoadFailure ε) (v : PluginView M I ε) (snapshot : Option ConfigValue) :
   { v with snapshot }.quarantined steps plugin failure = v.quarantined steps plugin failure := by
 unfold PluginView.quarantined
 cases steps.quarantineWrite with
 | error _ => rfl
 | ok _ => rfl

theorem register_free {slug : Text} {registered : RegisteredPlugin M I}
  {registry : Registry (RegisteredPlugin M I)} (hfree : registry.has slug = false) :
  (register slug registered registry : Except (LoadFailure ε) _) = .ok
   ⟨registry.entries.insert slug ⟨registered, true⟩⟩ := by
 rw [register, hfree, if_neg Bool.false_ne_true]

theorem viewOf_registered_self (steps : LoadSteps ν M I ε) (plugin : PluginRow ε)
  (registered : RegisteredPlugin M I) (s : LoaderState M I ε) :
  viewOf plugin
    { s with
     imported := s.imported ++ [⟨plugin.slug, plugin.version, readDiskVersion steps.manifestFile⟩]
     snapshots := prime plugin.slug plugin.config s.snapshots
     registry := ⟨s.registry.entries.insert plugin.slug ⟨registered, true⟩⟩ } =
   { ((viewOf plugin s).imports steps plugin).registers registered with snapshot := some (normalize plugin.config) } := by
 rw [← viewOf_imported_self]
 have hprimed : (prime plugin.slug plugin.config s.snapshots).lookup plugin.slug = some
  (normalize plugin.config) :=
  LiveMap.lookup_set_self _ _ _
 have hentry : (s.registry.entries.insert plugin.slug ⟨registered, true⟩).lookup plugin.slug = some
  ⟨registered, true⟩ :=
  AList.lookup_insert _
 dsimp only [viewOf, PluginView.registers, Registry.entry]
 rw [hprimed, hentry]

theorem viewOf_recovered_self (plugin : PluginRow ε) (s : LoaderState M I ε) :
  viewOf plugin { s with rows := updateRow plugin.id (recovered plugin) s.rows } =
   { viewOf plugin s with rows := (viewOf plugin s).rows.map (recovered plugin) } := by
 dsimp only [viewOf]
 rw [filter_updateRow_self plugin.id (recovered plugin) fun _ => rfl]

theorem viewOf_loadRow_self (steps : LoadSteps ν M I ε) (plugin : PluginRow ε)
  (s : LoaderState M I ε) :
  viewOf plugin (loadRow steps plugin s) = loadView steps plugin (viewOf plugin s) := by
 unfold loadRow loadView
 by_cases hhas : s.registry.has plugin.slug = true
 · rw [if_pos hhas]
   exact (if_pos hhas).symm
 · have hfree := Bool.eq_false_iff.2 hhas
   have hentry : ¬ (viewOf plugin s).entry.isSome = true := hhas
   rw [if_neg hhas, if_neg hentry]
   unfold loadOne outcome
   cases prepare steps plugin with
   | error failure => exact viewOf_quarantine_self steps plugin failure s
   | ok manifest =>
    dsimp only
    cases extractFactory steps with
    | error failure =>
     dsimp only [PluginView.after]
     rw [viewOf_quarantine_self, viewOf_imported_self]
    | ok factory =>
     dsimp only
     cases construct steps factory with
     | error failure =>
      dsimp only [PluginView.after]
      rw [viewOf_quarantine_self, ← viewOf_imported_self, ← quarantined_primed steps plugin failure _
       ((prime plugin.slug plugin.config s.snapshots).lookup plugin.slug)]
      rfl
     | ok pluginInstance =>
      dsimp only
      rw [register_free hfree]
      have hview := viewOf_registered_self steps plugin
       ⟨plugin.id, plugin.slug, plugin.category, plugin.scope, manifest, pluginInstance⟩ s
      dsimp only [recoveryFailure, PluginView.after]
      cases hflags : plugin.loadFailed || plugin.restartRequired with
      | false => exact hview
      | true =>
       simp only [↓reduceIte]
       cases thrown steps.recoveryWrite with
       | error failure =>
        exact (viewOf_quarantine_self steps plugin failure _).trans
         (by rw [hview]; exact quarantined_primed steps plugin failure _ _)
       | ok _ =>
        exact (viewOf_recovered_self plugin
         { s with
           imported := s.imported ++ [⟨plugin.slug, plugin.version, readDiskVersion steps.manifestFile⟩]
           snapshots := prime plugin.slug plugin.config s.snapshots
           registry := ⟨s.registry.entries.insert plugin.slug _⟩ }).trans
         (congrArg (fun v : PluginView M I ε => { v with rows := v.rows.map (recovered plugin) }) hview)

def Apart (plugin other : PluginRow ε) : Prop := other.id ≠ plugin.id ∧ other.slug ≠ plugin.slug

theorem viewOf_loadRow_ne (steps : LoadSteps ν M I ε) {plugin other : PluginRow ε}
  (hapart : Apart plugin other) (s : LoaderState M I ε) :
  viewOf other (loadRow steps plugin s) = viewOf other s := by
 obtain ⟨hid, hslug⟩ := hapart
 have himported : ∀ disk, (s.imported ++ [(⟨plugin.slug, plugin.version, disk⟩ : Import)]).filter
  (fun record => record.slug = other.slug) =
   s.imported.filter fun record => record.slug = other.slug := by
  intro disk
  rw [List.filter_append]
  simp [hslug.symm]
 have hprimed :
  (prime plugin.slug plugin.config s.snapshots).lookup other.slug = s.snapshots.lookup other.slug :=
  LiveMap.lookup_set_ne _ _ hslug
 unfold loadRow
 by_cases hhas : s.registry.has plugin.slug = true
 · rw [if_pos hhas]
 · rw [if_neg hhas]
   unfold loadOne
   cases prepare steps plugin with
   | error failure => exact viewOf_quarantine_ne steps hid hslug failure s
   | ok manifest =>
    dsimp only
    cases extractFactory steps with
    | error failure =>
     dsimp only
     rw [viewOf_quarantine_ne steps hid hslug]
     dsimp only [viewOf]
     rw [himported]
    | ok factory =>
     dsimp only
     cases construct steps factory with
     | error failure =>
      dsimp only
      rw [viewOf_quarantine_ne steps hid hslug]
      dsimp only [viewOf]
      rw [himported, hprimed]
     | ok pluginInstance =>
      dsimp only
      rw [register_free (Bool.eq_false_iff.2 hhas)]
      have hentry : ∀ registered : RegisteredPlugin M I,
        (s.registry.entries.insert plugin.slug ⟨registered, true⟩).lookup other.slug
         = s.registry.entries.lookup other.slug :=
       fun registered => AList.lookup_insert_ne hslug
      dsimp only
      cases plugin.loadFailed || plugin.restartRequired with
      | false =>
       simp only [Bool.false_eq_true, ↓reduceIte]
       dsimp only [viewOf, Registry.entry]
       rw [himported, hprimed, hentry]
      | true =>
       simp only [↓reduceIte]
       cases thrown steps.recoveryWrite with
       | error failure =>
        dsimp only
        rw [viewOf_quarantine_ne steps hid hslug]
        dsimp only [viewOf, Registry.entry]
        rw [himported, hprimed, hentry]
       | ok _ =>
        dsimp only [viewOf, Registry.entry]
        rw [himported, hprimed, hentry, filter_updateRow_ne hid (recovered plugin) fun _ => rfl]

end OnePlugin

end BoardGamesEmpire.PluginLoader
