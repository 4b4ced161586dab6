import BoardGamesEmpire.PluginStore

set_option autoImplicit false

/-!
# The lifecycle of one plugin in one process

`PluginLifecycleService.enable`, `disable` and `uninstall` with the registry
the process serves from. A call reads the row, runs its guarded transaction,
and, once the answer of the transaction is there, writes the registry and emits
its event.
-/
namespace BoardGamesEmpire.PluginLifecycle
open JsText PluginStore PhasedCalls

section Registry

structure RegistryEntry (Instance : Type) where
  pluginInstance : Instance
  enabled : Bool
deriving DecidableEq

inductive RegistryError where
  | pluginNotRegistered (slug : Text)
  | pluginDisabled (slug : Text)
deriving DecidableEq

/-- `BasePluginRegistry`: the entries by slug. -/
structure Registry (Instance : Type) where
  entries : AList fun _ : Text => RegistryEntry Instance

variable {Instance : Type}

def Registry.entry (registry : Registry Instance) (slug : Text) : Option (RegistryEntry Instance) :=
  registry.entries.lookup slug

def Registry.has (registry : Registry Instance) (slug : Text) : Bool := (registry.entry slug).isSome

def Registry.unregister (registry : Registry Instance) (slug : Text) :
    Except RegistryError (Registry Instance) :=
  if registry.has slug then .ok ⟨registry.entries.erase slug⟩ else .error (.pluginNotRegistered slug)

def Registry.setEnabled (registry : Registry Instance) (slug : Text) (enabled : Bool) :
    Except RegistryError (Registry Instance) :=
  match registry.entry slug with
  | none => .error (.pluginNotRegistered slug)
  | some entry => .ok ⟨registry.entries.insert slug { entry with enabled }⟩

def Registry.resolve (registry : Registry Instance) (slug : Text) : Except RegistryError Instance :=
  match registry.entry slug with
  | none => .error (.pluginNotRegistered slug)
  | some entry => if entry.enabled then .ok entry.pluginInstance else .error (.pluginDisabled slug)

end Registry

section Service

inductive LifecycleError where
  | authority (actorId : Text)
  | notFound (slug : Text)
  | tombstoned (slug : Text) (uninstalledAt : ℕ)
  | registry (error : RegistryError)
  | database
deriving DecidableEq

inductive Operation where
  | setEnabled (enabled : Bool)
  | uninstall (purgeData : Bool)
deriving DecidableEq

structure Request where
  actorId : Text
  operation : Operation
  initiatedAt : ℕ
deriving DecidableEq

structure Snapshot where
  slug : Text
  enabled : Bool
deriving DecidableEq

def snapshot (plugin : Plugin) : Snapshot := ⟨plugin.slug, plugin.enabled⟩

inductive LifecycleEvent where
  | pluginEnabled (before after : Snapshot) (initiatedAt : ℕ)
  | pluginDisabled (before after : Snapshot) (initiatedAt : ℕ)
  | pluginUninstalled (slug version : Text) (affectedUnits : List UnitRef) (initiatedAt : ℕ)
deriving DecidableEq

inductive Change where
  | flipped (enabled : Bool)
  | tombstoned
deriving DecidableEq

def LifecycleEvent.change : LifecycleEvent → Change
  | .pluginEnabled _ _ _ => .flipped true
  | .pluginDisabled _ _ _ => .flipped false
  | .pluginUninstalled _ _ _ _ => .tombstoned

/-- Where a call stands: before the authority check, before the read of the
    row, before its transaction, before the answer of the transaction it won,
    the `position`-th to commit, before the second read of a flip that lost, or
    settled. -/
inductive Phase where
  | begun
  | authorized
  | loaded (plugin : Plugin) (coldEnable : Bool)
  | committed (position : ℕ) (plugin updated : Plugin) (affectedUnits : List UnitRef)
  | lost
  | settled (result : Except LifecycleError Plugin)

structure Call where
  request : Request
  phase : Phase

/-- The row of the plugin and the registry, with what was committed, whose
    answers arrived, and what was emitted. -/
structure State (Instance : Type) where
  row : Option Plugin
  registry : Registry Instance
  changes : List Change
  arrived : List ℕ
  events : List LifecycleEvent

/-- What a call waited for: a failure, the authority's word, and the enabled
    units that an uninstall finds once it claimed the row. -/
structure Answer where
  fails : Bool
  isServerAdmin : Bool
  affectedUnits : List UnitRef
deriving DecidableEq

variable {Instance : Type}

def loadLiving (slug : Text) (row : Option Plugin) : Except LifecycleError Plugin :=
  match row with
  | none => .error (.notFound slug)
  | some plugin =>
    match plugin.uninstalledAt with
    | some uninstalledAt => .error (.tombstoned plugin.slug uninstalledAt)
    | none => .ok plugin

/-- The guarded write of `setEnabled`. -/
def claimFlip (enabled coldEnable : Bool) (row : Option Plugin) : Option Plugin :=
  (row.filter fun plugin => plugin.enabled == !enabled && plugin.uninstalledAt.isNone).map fun plugin =>
    { plugin with enabled, restartRequired := coldEnable || plugin.restartRequired }

/-- The guarded write of `uninstall`. -/
def claimTombstone (initiatedAt : ℕ) (row : Option Plugin) : Option Plugin :=
  (row.filter fun plugin => plugin.uninstalledAt.isNone).map fun plugin =>
    { plugin with enabled := false, uninstalledAt := some initiatedAt, restartRequired := true, pending := none }

def readTombstone (row : Option Plugin) (fallback : ℕ) : ℕ := (row.bind Plugin.uninstalledAt).getD fallback

def serve (slug : Text) (operation : Operation) (registry : Registry Instance) :
    Except RegistryError (Registry Instance) :=
  if registry.has slug then
    match operation with
    | .setEnabled enabled => registry.setEnabled slug enabled
    | .uninstall _ => registry.unregister slug
  else .ok registry

def emitted (request : Request) (plugin updated : Plugin) (affectedUnits : List UnitRef) :
    LifecycleEvent :=
  match request.operation with
  | .setEnabled true => .pluginEnabled (snapshot plugin) (snapshot updated) request.initiatedAt
  | .setEnabled false => .pluginDisabled (snapshot plugin) (snapshot updated) request.initiatedAt
  | .uninstall _ => .pluginUninstalled plugin.slug plugin.version affectedUnits request.initiatedAt

def Operation.change : Operation → Change
  | .setEnabled enabled => .flipped enabled
  | .uninstall _ => .tombstoned

def begin (request : Request) (_ : State Instance) : Call := ⟨request, .begun⟩

def settle (call : Call) (result : Except LifecycleError Plugin) : Call :=
    { call with phase := .settled result }

def afterLoad (slug : Text) (call : Call) (s : State Instance) : Call :=
  match loadLiving slug s.row with
  | .error error => settle call (.error error)
  | .ok plugin =>
    match call.request.operation with
    | .setEnabled enabled =>
      if plugin.enabled = enabled then settle call (.ok plugin)
      else { call with phase := .loaded plugin (enabled && !s.registry.has slug) }
    | .uninstall _ => { call with phase := .loaded plugin false }

def transact (call : Call) (plugin : Plugin) (coldEnable : Bool) (affectedUnits : List UnitRef)
    (s : State Instance) :
    Call × State Instance :=
  let claimed :=
    match call.request.operation with
    | .setEnabled enabled => claimFlip enabled coldEnable s.row
    | .uninstall _ => claimTombstone call.request.initiatedAt s.row
  match claimed with
  | some updated =>
    ({ call with phase := .committed s.changes.length plugin updated affectedUnits },
      { s with row := some updated, changes := s.changes ++ [call.request.operation.change] })
  | none =>
    match call.request.operation with
    | .setEnabled _ => ({ call with phase := .lost }, s)
    | .uninstall _ =>
      (settle call (.error (.tombstoned plugin.slug (readTombstone s.row call.request.initiatedAt))), s)

/-- The answer of a won transaction: the registry first, then the event. -/
def arrive (slug : Text) (call : Call) (position : ℕ) (plugin updated : Plugin)
    (affectedUnits : List UnitRef)
    (s : State Instance) : Call × State Instance :=
  match serve slug call.request.operation s.registry with
  | .error error => (settle call (.error (.registry error)), s)
  | .ok registry =>
    (settle call (.ok updated),
      { s with
        registry
        arrived := s.arrived ++ [position]
        events := s.events ++ [emitted call.request plugin updated affectedUnits] })

def move (slug : Text) (answer : Answer) (call : Call) (s : State Instance) :
    Option (Call × State Instance) :=
  match call.phase with
  | .begun =>
    if answer.fails then some (settle call (.error .database), s)
    else if answer.isServerAdmin then some ({ call with phase := .authorized }, s)
    else some (settle call (.error (.authority call.request.actorId)), s)
  | .authorized =>
    if answer.fails then some (settle call (.error .database), s) else some (afterLoad slug call s, s)
  | .loaded plugin coldEnable =>
    if answer.fails then some (settle call (.error .database), s)
    else some (transact call plugin coldEnable answer.affectedUnits s)
  | .committed position plugin updated affectedUnits =>
   some (arrive slug call position plugin updated affectedUnits s)
  | .lost =>
    if answer.fails then some (settle call (.error .database), s)
    else some (settle call (loadLiving slug s.row), s)
  | .settled _ => none

def lifecycle (Instance : Type) (slug : Text) : Program Request Answer Empty (State Instance) Call where
  start := begin
  move := move slug
  outside := fun e _ => nomatch e

end Service

end BoardGamesEmpire.PluginLifecycle
