import BoardGamesEmpire.JsonObject
import BoardGamesEmpire.PhasedCalls

set_option autoImplicit false

/-!
# The boot sequence

`runBootstrapSequence` over `PgAdvisoryLock`, in any number of processes that
boot over one database. A call is one process's sequence from one of its waits
to the next; the shared state is what Postgres knows of the lock's connections.
-/
namespace BoardGamesEmpire.BootSequence
open JsText JsonText PhasedCalls

structure AppliedMigrationRow where
  migration_name : Text
  finished_at : Option ℕ
  rolled_back_at : Option ℕ

inductive MigrationStateKind where
  | inSync | behind | ahead | failed
deriving DecidableEq

structure MigrationState where
  kind : MigrationStateKind
  pending : List Text
  unknown : List Text
  failed : List Text
deriving DecidableEq

def kindOf (pending unknown failed : List Text) : MigrationStateKind :=
  if failed ≠ [] then .failed
  else if pending ≠ [] then .behind
  else if unknown ≠ [] then .ahead
  else .inSync

def classifyMigrationState (expected : List Text) (applied : List AppliedMigrationRow) : MigrationState :=
  let finishedNames :=
    ((applied.filter fun row => row.finished_at.isSome && row.rolled_back_at.isNone).map
     (·.migration_name)).dedup
  let pending := expected.filter fun name => !finishedNames.contains name
  let unknown := sortTexts (finishedNames.filter fun name => !expected.contains name)
  let failed :=
    sortTexts ((applied.filter fun row => row.finished_at.isNone && row.rolled_back_at.isNone).map
     (·.migration_name))
  ⟨kindOf pending unknown failed, pending, unknown, failed⟩

section Lock

inductive LockWait where
  | idle | waiting | granted
deriving DecidableEq

structure Connection where
  lock : LockWait
  ended : Bool
deriving DecidableEq

structure Server where
  connections : List Connection
  now : ℕ

def Connection.holds (c : Connection) : Bool := c.lock == .granted && !c.ended

def Server.setLock (s : Server) (c : ℕ) (lock : LockWait) : Server :=
  { s with connections := s.connections.modify c fun conn => { conn with lock } }

inductive ServerEvent where
  | grants (c : ℕ)
  | ends (c : ℕ)
  | ticks (ms : ℕ)

/-- Postgres grants the lock to a waiter while no open transaction has it; a
    connection that ends takes its transaction with it. -/
def serverStep : ServerEvent → Server → Option Server
  | .grants c, s =>
    if s.connections[c]? = some ⟨.waiting, false⟩ ∧ s.connections.all fun conn => !conn.holds then
      some (s.setLock c .granted)
    else none
  | .ends c, s =>
   some { s with connections := s.connections.modify c fun conn => { conn with ended := true } }
  | .ticks ms, s => some { s with now := s.now + ms }

end Lock

section Sequence

inductive BootError where
  | failedMigration (failed : List Text)
  | schemaNotReady (pending : List Text) (waitedMs : ℕ) (ledgerSeen : Bool)
  | migrationsStillPending (pending : List Text)
  | lockNotAcquired (waitedMs : ℕ) (unanswered : Bool)
  | lockConnectionTimeout
  | lockLost
  | raised (message : Text)

structure Options where
  expected : List Text
  /-- Whether the build has a migrator. -/
  migrator : Bool
  waitMs : ℕ
  schemaPollMs : ℕ
  lockWaitMs : ℕ

inductive Work where
  | migrate | seeds | dataMigrations
deriving DecidableEq

inductive Event where
  | acquired
  | releasing
  | lossReported
  | raised (error : BootError)
  | read (state : MigrationState) (at_ : ℕ)
  | started (work : Work)

structure Summary where
  state : Option MigrationStateKind
  migrationsApplied : List Text
  unknownMigrations : List Text
  seedsRun : Bool
  dataMigrationsRun : Bool
  waitedMs : ℕ

inductive Phase where
  | connecting
  | attempting (c : ℕ)
  | namingHolder (c : ℕ)
  | reading
  | yielding (c : ℕ)
  | sleeping (wake : ℕ)
  | working (work : Work) (pending : List Text)
  | rereading (pending : List Text)
  | closing (c : ℕ)
  | failing (c : ℕ) (error : BootError)
  | returned
  | threw (error : BootError)

/-- `client`, `lockHeld` and `lost` are the lock's fields, `held` the
    sequence's own; `acquireBy` bounds the current acquire. -/
structure Boot where
  options : Options
  startedAt : ℕ
  acquireAt : ℕ
  client : Option ℕ
  lockHeld : Bool
  lost : Bool
  held : Bool
  waiting : Bool
  summary : Summary
  history : List Event
  phase : Phase

def Boot.deadlineAt (b : Boot) : ℕ := b.startedAt + b.options.waitMs

def Boot.acquireBy (b : Boot) : ℕ := min (b.acquireAt + b.options.lockWaitMs) b.deadlineAt

def Boot.log (e : Event) (b : Boot) : Boot := { b with history := e :: b.history }

/-- One pass of `acquire`'s loop: on the kept connection, or on a new one. -/
def attempt (b : Boot) (s : Server) : Boot × Server :=
  match b.client with
  | some c => ({ b with phase := .attempting c }, s.setLock c .waiting)
  | none => ({ b with phase := .connecting }, s)

def acquire (b : Boot) (s : Server) : Boot × Server := attempt { b with acquireAt := s.now } s

inductive Release where
  | nothing
  | refused
  | commits (c : ℕ)

/-- `release` up to its COMMIT. -/
def release (b : Boot) : Release × Boot :=
  let b := b.log .releasing
  if b.lockHeld then
    (match b.lost, b.client with
      | false, some c => .commits c
      | _, _ => .refused, { b with lockHeld := false, lost := false })
  else (.nothing, b)

def fail (error : BootError) (b : Boot) : Boot :=
  let b := b.log (.raised error)
  if b.held then
    match release { b with held := false } with
    | (.commits c, b) => { b with phase := .failing c error }
    | (.refused, b) => { b.log (.raised .lockLost) with phase := .threw error }
    | (.nothing, b) => { b with phase := .threw error }
  else { b with phase := .threw error }

/-- `assertHeld`, and the write phase behind it. -/
def startWork (work : Work) (pending : List Text) (b : Boot) : Boot :=
  if b.lost then fail .lockLost ({ b with lockHeld := false, lost := false }.log .lossReported)
  else { b.log (.started work) with phase := .working work pending }

def finish (b : Boot) : Boot :=
  match release { b with held := false } with
  | (.commits c, b) => { b with phase := .closing c }
  | (.refused, b) => fail .lockLost b
  | (.nothing, b) => { b with phase := .returned }

def settle (kind : MigrationStateKind) (b : Boot) : Boot :=
  if b.options.migrator && kind != .ahead then startWork .seeds [] b else finish b

def sleep (b : Boot) (s : Server) : Boot :=
  { b with phase := .sleeping (s.now + min b.options.schemaPollMs (b.deadlineAt - s.now)) }

def Boot.noted (state : MigrationState) (now : ℕ) (b : Boot) : Boot :=
  { b with
    summary := { b.summary with state := b.summary.state <|> some state.kind, unknownMigrations := state.unknown }
    history := .read state now :: b.history }

def Boot.waited (now : ℕ) (b : Boot) : Boot :=
  { b with waiting := true, summary := { b.summary with waitedMs := now - b.startedAt } }

/-- A build that cannot migrate waits for one that can, without the lock. -/
def awaitSchema (pending : List Text) (b : Boot) (s : Server) : Boot :=
  if b.deadlineAt ≤ s.now then
    fail (.schemaNotReady pending b.summary.waitedMs (pending.length < b.options.expected.length)) b
  else
    match release b with
    | (.commits c, b) => { b with phase := .yielding c }
    | (.refused, b) => fail .lockLost b
    | (.nothing, b) => sleep { b with held := false } s

def afterRead (applied : List AppliedMigrationRow) (b : Boot) (s : Server) : Boot :=
  let state := classifyMigrationState b.options.expected applied
  let b := b.noted state s.now
  match state.kind with
  | .failed => fail (.failedMigration state.failed) b
  | .behind =>
    if b.options.migrator then startWork .migrate state.pending b
    else awaitSchema state.pending (b.waited s.now) s
  | kind => settle kind (if b.waiting then b.waited s.now else b)

def afterMigrate (pending : List Text) (applied : List AppliedMigrationRow) (b : Boot)
    (s : Server) : Boot :=
  let after := classifyMigrationState b.options.expected applied
  let b := b.log (.read after s.now)
  if after.kind = .failed then fail (.failedMigration after.failed) b
  else if after.pending ≠ [] then fail (.migrationsStillPending after.pending) b
  else settle after.kind { b with summary := { b.summary with migrationsApplied := pending } }

inductive Answer where
  | done
  | rows (applied : List AppliedMigrationRow)
  | fails (message : Text)
  | connectTimeout
  | lockTimeout
  | unanswered
  /-- No step waits for this one. -/
  | failed

/-- `acquire`'s attempt came back without the lock. -/
def notTaken (unanswered : Bool) (b : Boot) (s : Server) : Boot × Server :=
  if b.acquireBy ≤
   s.now then (fail (.lockNotAcquired (s.now - b.acquireAt) unanswered) b, s) else attempt b s

def abandon (c : ℕ) (b : Boot) : Boot := if b.client = some c then { b with client := none } else b

/-- The connection's `error` event, at this end of it. -/
def listener (b : Boot) : Boot :=
  if b.client = none then b else { b with client := none, lost := b.lost || b.lockHeld }

/-- A COMMIT's answer; `next` follows one that went through. -/
def committed (c : ℕ) (next : Boot → Boot) (answer : Answer) (b : Boot) (s : Server) :
    Option (Boot × Server) :=
  match answer with
  | .done => some (next b, s.setLock c .idle)
  | .fails _ => some (fail .lockLost b, s)
  | .unanswered => some (fail .lockLost (abandon c b), s)
  | _ => none

def move (answer : Answer) (b : Boot) (s : Server) : Option (Boot × Server) :=
  match b.phase, answer with
  | .returned, .failed | .threw _, .failed => none
  | _, .failed => some (listener b, s)
  | .connecting, .done =>
    let c := s.connections.length
    some ({ b with client := some c, phase := .attempting c },
     { s with connections := s.connections ++ [⟨.waiting, false⟩] })
  | .connecting, .connectTimeout => some (fail .lockConnectionTimeout b, s)
  | .attempting c, .done =>
    if (s.connections[c]?.map (·.lock)) = some .granted then
      if b.client = some c then some
       ({ b.log .acquired with lockHeld := true, held := true, phase := .reading }, s)
      else some (fail .lockLost b, s)
    else none
  | .attempting c, .lockTimeout =>
    if (s.connections[c]?.map (·.lock)) = some .waiting then some
     ({ b with phase := .namingHolder c }, s.setLock c .idle)
    else none
  | .attempting c, .unanswered | .namingHolder c, .unanswered => some (notTaken true (abandon c b) s)
  | .namingHolder _, .done => some (notTaken false b s)
  | .reading, .rows applied => some (afterRead applied b s, s)
  | .yielding c, answer => committed c (fun b => sleep { b with held := false } s) answer b s
  | .sleeping wake, .done => if wake ≤ s.now then some (acquire b s) else none
  | .working .migrate pending, .done => some ({ b with phase := .rereading pending }, s)
  | .rereading pending, .rows applied => some (afterMigrate pending applied b s, s)
  | .working .seeds _, .done =>
    some (startWork .dataMigrations [] { b with summary := { b.summary with seedsRun := true } }, s)
  | .working .dataMigrations _, .done =>
    some (finish { b with summary := { b.summary with dataMigrationsRun := true } }, s)
  | .closing c, answer => committed c (fun b => { b with phase := .returned }) answer b s
  | .failing c error, .done => some ({ b with phase := .threw error }, s.setLock c .idle)
  | .failing _ error, .fails _ => some ({ b.log (.raised .lockLost) with phase := .threw error }, s)
  | .failing c error, .unanswered =>
   some ({ (abandon c b).log (.raised .lockLost) with phase := .threw error }, s)
  | .connecting, .fails message | .attempting _, .fails message | .namingHolder _, .fails message
  | .reading, .fails message | .working _ _, .fails message | .rereading _, .fails message =>
    some (fail (.raised message) b, s)
  | _, _ => none

def start (options : Options) (s : Server) : Boot :=
  { options, startedAt := s.now, acquireAt := s.now, client := none, lockHeld := false, lost := false, held := false,
    waiting := false, summary := ⟨none, [], [], false, false, 0⟩, history := [], phase := .connecting }

end Sequence

end BoardGamesEmpire.BootSequence
