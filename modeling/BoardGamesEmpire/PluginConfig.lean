import BoardGamesEmpire.LiveMap
import BoardGamesEmpire.PluginStore

set_option autoImplicit false

/-!
# Plugin configuration snapshots

The snapshots of one process: `PluginConfigService` with the refreshes that
reload messages and the interval start, and the boot pass of
`PluginLoaderService`, which primes and evicts them. A refresh reads the row
and later applies what it read; the pass primes from rows it read before the
first plugin was loaded.
-/
namespace BoardGamesEmpire.PluginConfig
open JsText PluginStore PhasedCalls

/-- The columns of `plugins` that the snapshots and the loader use. -/
structure PluginRow where
  config : ConfigValue
  enabled : Bool
  loadFailed : Bool
  restartRequired : Bool
  uninstalledAt : Option ℕ
deriving DecidableEq

inductive Change where
  | configWrite (config : ConfigValue)
  | uninstall (initiatedAt : ℕ)
deriving DecidableEq

inductive Request where
  | commit (slug : Text) (change : Change)
  | interval
deriving DecidableEq

/-- Where a call stands: before its commit, its message under way, in front of
    the next known slug of an interval pass, before a refresh reads, before it
    applies what it read, or settled. A refresh of an interval pass goes on
    behind its position. The revision is the number of commits the read saw. -/
inductive Phase where
  | committing (slug : Text) (change : Change)
  | published (slug : Text)
  | iterating (position : ℕ)
  | refreshing (slug : Text) (after : Option ℕ)
  | refreshed (slug : Text) (row : Option PluginRow) (revision : ℕ) (after : Option ℕ)
  | settled
deriving DecidableEq

structure ReadPlugin where
  slug : Text
  row : PluginRow
  revision : ℕ
deriving DecidableEq

/-- The boot pass: before its read, at the top of its loop, at a wait before or
    after the prime, at the recovery write of a loaded plugin, at the write of a
    quarantine, or done. -/
inductive Loader where
  | pending
  | looping (plugins : List ReadPlugin)
  | preparing (plugin : ReadPlugin) (rest : List ReadPlugin)
  | primed (plugin : ReadPlugin) (rest : List ReadPlugin)
  | recovering (plugin : ReadPlugin) (rest : List ReadPlugin)
  | quarantining (plugin : ReadPlugin) (rest : List ReadPlugin)
  | finished
deriving DecidableEq

/-- The rows, the snapshots and the boot pass; which plugins it loaded and
    quarantined; the slug of every commit, and every snapshot write with the
    revision it came from. -/
structure State where
  rows : AList fun _ : Text => PluginRow
  snapshots : LiveMap Text ConfigValue
  loader : Loader
  loaded : List Text
  quarantined : List Text
  commits : List Text
  applied : List (Text × ℕ)

def State.row (s : State) (slug : Text) : Option PluginRow := s.rows.lookup slug

def State.revision (s : State) (slug : Text) : ℕ := s.commits.count slug

section Service

def normalize : ConfigValue → ConfigValue
  | .object fields => .object fields
  | .other _ => emptyConfig

def snapshotFor (s : State) (slug : Text) : ConfigValue := (s.snapshots.lookup slug).getD emptyConfig

def prime (slug : Text) (config : ConfigValue) (snapshots : LiveMap Text ConfigValue) :
    LiveMap Text ConfigValue :=
  snapshots.set slug (normalize config)

def evict (slug : Text) (snapshots : LiveMap Text ConfigValue) : LiveMap Text ConfigValue :=
    snapshots.delete slug

def content : Option PluginRow → Option ConfigValue
  | none => none
  | some row => if row.uninstalledAt.isSome then none else some (normalize row.config)

/-- The second half of `refresh`. -/
def applyRefresh (slug : Text) (row : Option PluginRow) (snapshots : LiveMap Text ConfigValue) :
    LiveMap Text ConfigValue :=
  match row with
  | none => snapshots.delete slug
  | some row =>
    if row.uninstalledAt.isSome then snapshots.delete slug else snapshots.set slug (normalize row.config)

end Service

section Calls

def start : Request → State → Phase
  | .commit slug change, _ => .committing slug change
  | .interval, _ => .iterating 0

/-- The guarded writes of `updateConfig` and `uninstall`: of a living row. -/
def changeRow (change : Change) (row : PluginRow) : Option PluginRow :=
  if row.uninstalledAt.isSome then none
  else
    match change with
    | .configWrite config => some { row with config }
    | .uninstall initiatedAt =>
      some { row with enabled := false, uninstalledAt := some initiatedAt, restartRequired := true }

def commit (slug : Text) (change : Change) (s : State) : Phase × State :=
  match (s.row slug).bind (changeRow change) with
  | some row =>
   (.published slug, { s with rows := s.rows.insert slug row, commits := s.commits ++ [slug] })
  | none => (.settled, s)

def resume : Option ℕ → Phase
  | some position => .iterating position
  | none => .settled

def move (_ : Unit) (phase : Phase) (s : State) : Option (Phase × State) :=
  match phase with
  | .committing slug change => some (commit slug change s)
  | .published slug => some (.refreshing slug none, s)
  | .iterating position =>
    match s.snapshots.nextFrom position with
    | some (slug, position) => some (.refreshing slug (some position), s)
    | none => some (.settled, s)
  | .refreshing slug after => some (.refreshed slug (s.row slug) (s.revision slug) after, s)
  | .refreshed slug row revision after =>
    some (resume after,
      { s with snapshots := applyRefresh slug row s.snapshots, applied := s.applied ++ [(slug, revision)] })
  | .settled => none

end Calls

section BootPass

/-- `findMany`: the enabled living rows. -/
def enabledPlugins (s : State) : List ReadPlugin :=
  s.rows.entries.filterMap fun entry =>
    if entry.2.enabled && entry.2.uninstalledAt.isNone then some
     ⟨entry.1, entry.2, s.revision entry.1⟩ else none

def updateRow (slug : Text) (f : PluginRow → PluginRow) (s : State) : State :=
  match s.row slug with
  | some row => { s with rows := s.rows.insert slug (f row) }
  | none => s

/-- `quarantine`, up to its write. -/
def quarantine (plugin : ReadPlugin) (rest : List ReadPlugin) (s : State) : State :=
  { s with
    snapshots := evict plugin.slug s.snapshots
    quarantined := s.quarantined ++ [plugin.slug]
    loader := .quarantining plugin rest }

def loaderStep (fails : Bool) (s : State) : Option State :=
  match s.loader with
  | .pending => some { s with loader := .looping (enabledPlugins s) }
  | .looping [] => some { s with loader := .finished }
  | .looping (plugin :: rest) =>
    if s.loaded.contains plugin.slug then some { s with loader := .looping rest }
    else some { s with loader := .preparing plugin rest }
  | .preparing plugin rest =>
    if fails then some (quarantine plugin rest s)
    else some { s with
      snapshots := prime plugin.slug plugin.row.config s.snapshots
      applied := s.applied ++ [(plugin.slug, plugin.revision)]
      loader := .primed plugin rest }
  | .primed plugin rest =>
    if fails then some (quarantine plugin rest s)
    else some { s with
      loaded := s.loaded ++ [plugin.slug]
      loader := if plugin.row.loadFailed || plugin.row.restartRequired then .recovering plugin rest
        else .looping rest }
  | .recovering plugin rest =>
    if fails then some (quarantine plugin rest s)
    else some (updateRow plugin.slug
      (fun row => { row with
        loadFailed := !plugin.row.loadFailed && row.loadFailed
        restartRequired := !plugin.row.restartRequired && row.restartRequired })
      { s with loader := .looping rest })
  | .quarantining plugin rest =>
    if fails then some { s with loader := .looping rest }
    else some (updateRow plugin.slug (fun row => { row with enabled := false, loadFailed := true })
      { s with loader := .looping rest })
  | .finished => none

end BootPass

/-- The process: commits with their messages and interval passes as calls, the
    boot pass beside them. -/
def snapshotting : Program Request Unit Bool State Phase where
  start := start
  move := move
  outside := loaderStep

end BoardGamesEmpire.PluginConfig
