import Mathlib

set_option autoImplicit false

/-!
# The invite expiry sweep

Runs of `drain` over the invites, batch by batch and statement by statement,
beside the transitions that other requests commit and beside other runs. An
update holds the lock of each row it moved until its transaction ends; a request
that needs such a row commits after it. A row's id is its place in the table.
-/
namespace BoardGamesEmpire.InviteSweep

inductive InviteStatus where
  | awaitingApproval | pending | accepted | declined | expired | revoked | withdrawn
deriving DecidableEq

def outstandingInviteStatuses : List InviteStatus := [.awaitingApproval, .pending]

def isOutstanding (status : InviteStatus) : Bool := outstandingInviteStatuses.contains status

structure Invite where
  status : InviteStatus
  expiresAt : ℕ
  respondedAt : Option ℕ
  approvedAt : Option ℕ
  inviteeId : Option ℕ
deriving DecidableEq

/-- The guarded updates of the other requests. `expire` is the stamp of a
    request that met the row past its date, at its own reading of the clock. -/
inductive RivalChange where
  | accept (respondedAt inviteeId : ℕ)
  | decline (respondedAt inviteeId : ℕ)
  | withdraw (respondedAt : ℕ)
  | revoke (respondedAt : ℕ)
  | approve (approvedAt : ℕ) (expiresAt : Option ℕ)
  | expire (now : ℕ)
deriving DecidableEq

/-- A guard that the row does not meet leaves nothing to write. A new date lies
    ahead when it is written. -/
def RivalChange.apply (clock : ℕ) (row : Invite) : RivalChange → Option Invite
  | .accept respondedAt inviteeId =>
    if row.status = .pending then
      some { row with status := .accepted, respondedAt := some respondedAt, inviteeId := some inviteeId }
    else none
  | .decline respondedAt inviteeId =>
    if isOutstanding row.status then
      some { row with status := .declined, respondedAt := some respondedAt, inviteeId := some inviteeId }
    else none
  | .withdraw respondedAt =>
    if isOutstanding row.status then some
     { row with status := .withdrawn, respondedAt := some respondedAt } else none
  | .revoke respondedAt =>
    if isOutstanding row.status then some
     { row with status := .revoked, respondedAt := some respondedAt } else none
  | .approve approvedAt expiresAt =>
    if row.status = .awaitingApproval ∧ (expiresAt.all fun date => clock < date) = true then
      some { row with status := .pending, approvedAt := some approvedAt, expiresAt := expiresAt.getD row.expiresAt }
    else none
  | .expire now =>
    if isOutstanding row.status = true ∧ row.expiresAt ≤ now ∧
     now ≤ clock then some { row with status := .expired }
    else none

/-- One transaction of `expireOutstandingWithin`: its clock, the table when the
    clock was read, whether every read so far came back under the limit, and the
    rows moved so far as the guard met them. -/
structure Batch where
  now : ℕ
  opened : List Invite
  drained : Bool
  written : List (ℕ × Invite)
deriving DecidableEq

def Batch.ids (b : Batch) : List ℕ := b.written.map Prod.fst

/-- Where a run stands: between batches, before the read of the next status,
    inside the update of the rows read, or over. -/
inductive Phase where
  | ready
  | reading (b : Batch) (rest : List InviteStatus)
  | updating (b : Batch) (source : InviteStatus) (todo : List ℕ) (rest : List InviteStatus)
  | drained (now : ℕ)
  | ended
deriving DecidableEq

def Phase.batch? : Phase → Option Batch
  | .reading b _ => some b
  | .updating b _ _ _ => some b
  | _ => none

structure InviteExpiredEvent where
  id : ℕ
  before : Invite
  after : Invite
deriving DecidableEq

/-- One run: its limit, its count, what it announced and where it stands. -/
structure Sweep where
  limit : ℕ
  expired : ℕ
  events : List InviteExpiredEvent
  phase : Phase
deriving DecidableEq

def Sweep.locked (s : Sweep) : List ℕ := (s.phase.batch?.map Batch.ids).getD []

/-- What was committed, in order; the author of a change is a run or a request. -/
inductive Entry where
  | changed (author : Option ℕ) (id : ℕ) (before after : Invite)
  | created (row : Invite)
deriving DecidableEq

structure State where
  clock : ℕ
  rows : List Invite
  sweeps : List Sweep
  log : List Entry
deriving DecidableEq

inductive Act where
  | start
  | read (ids : List ℕ)
  | update
  | commit
  | fail
  | stop
deriving DecidableEq

inductive Step where
  | tick
  | rival (changes : List (ℕ × RivalChange))
  | create (row : Invite)
  | launch (limit : ℕ)
  | sweep (i : ℕ) (act : Act)
deriving DecidableEq

section Steps

def unlocked (σ : State) (id : ℕ) : Bool := σ.sweeps.all fun s => !s.locked.contains id

def unlockedFor (σ : State) (i id : ℕ) : Bool :=
  σ.sweeps.zipIdx.all fun entry => entry.2 == i || !entry.1.locked.contains id

def write (σ : State) (author : Option ℕ) (id : ℕ) (before after : Invite) : State :=
  { σ with rows := σ.rows.set id after, log := σ.log ++ [.changed author id before after] }

def rivalWrite (σ : State) (change : ℕ × RivalChange) : State :=
  match σ.rows[change.1]? with
  | none => σ
  | some row =>
    match change.2.apply σ.clock row with
    | none => σ
    | some after => write σ none change.1 row after

/-- `{ status: from, expiresAt: { lte: now } }`, over the transaction's own writes. -/
def guarded (rows : List Invite) (b : Batch) (source : InviteStatus) (id : ℕ) : Bool :=
  (rows[id]?.any fun row => row.status == source && decide (row.expiresAt ≤ b.now)) && !b.ids.contains id

/-- What `findMany` with `take: limit` may answer: rows that the guard lets
    pass, all of them when there are fewer than the limit. -/
def isRead (rows : List Invite) (b : Batch) (source : InviteStatus) (limit : ℕ) (ids : List ℕ) : Bool :=
  decide ids.Nodup && ids.all (guarded rows b source) && decide (ids.length ≤ limit) &&
    (decide (limit ≤ ids.length) ||
      (List.range rows.length).all fun id => !guarded rows b source id || ids.contains id)

def Batch.meet (b : Batch) (rows : List Invite) (source : InviteStatus) (id : ℕ) : Batch :=
  match rows[id]? with
  | none => b
  | some row => if guarded rows b source id then { b with written := b.written ++ [(id, row)] } else b

def expiredRow (row : Invite) : Invite := { row with status := .expired }

def expiredEvent (written : ℕ × Invite) : InviteExpiredEvent where
  id := written.1
  before := { expiredRow written.2 with status := written.2.status, respondedAt := none }
  after := expiredRow written.2

/-- A commit puts the version that the update made in the place of whatever
    version is there. -/
def commitWrite (i : ℕ) (σ : State) (written : ℕ × Invite) : State :=
  match σ.rows[written.1]? with
  | none => σ
  | some row => write σ (some i) written.1 row (expiredRow written.2)

def setSweep (σ : State) (i : ℕ) (s : Sweep) : State := { σ with sweeps := σ.sweeps.set i s }

def setPhase (σ : State) (i : ℕ) (s : Sweep) (phase : Phase) : State :=
    setSweep σ i { s with phase := phase }

/-- A batch that is drained ends the run; its events go out after the commit. -/
def commitBatch (σ : State) (i : ℕ) (s : Sweep) (b : Batch) : State :=
  setSweep (b.written.foldl (commitWrite i) σ) i
    { s with
      expired := s.expired + b.written.length
      events := s.events ++ b.written.map expiredEvent
      phase := if b.drained then .drained b.now else .ready }

/-- `drain`: `start` opens a transaction and reads the clock, `fail` rolls one
    back and ends the run, `stop` finds the process shutting down. -/
def sweepStep (σ : State) (i : ℕ) (s : Sweep) (act : Act) : Option State :=
  match s.phase, act with
  | .ready, .start =>
   some (setPhase σ i s (.reading ⟨σ.clock, σ.rows, true, []⟩ outstandingInviteStatuses))
  | .ready, .stop => some (setPhase σ i s .ended)
  | .reading b (source :: rest), .read ids =>
    if isRead σ.rows b source s.limit ids then
      some (setPhase σ i s
        (.updating { b with drained := b.drained && decide (ids.length < s.limit) } source ids rest))
    else none
  | .updating b _ [] rest, .update => some (setPhase σ i s (.reading b rest))
  | .updating b source (id :: todo) rest, .update =>
    if unlockedFor σ i id then some (setPhase σ i s (.updating (b.meet σ.rows source id) source todo rest))
    else none
  | .reading b [], .commit => some (commitBatch σ i s b)
  | .reading _ _, .fail => some (setPhase σ i s .ended)
  | .updating _ _ _ _, .fail => some (setPhase σ i s .ended)
  | _, _ => none

/-- A create and an approval's new date lie ahead of the clock they are written
    at; `expireOutstandingWithin` refuses a limit below one. -/
def step (σ : State) : Step → Option State
  | .tick => some { σ with clock := σ.clock + 1 }
  | .rival changes =>
    if changes.all fun change => unlocked σ change.1 then some (changes.foldl rivalWrite σ) else none
  | .create row =>
    if isOutstanding row.status && decide (σ.clock < row.expiresAt) then
      some { σ with rows := σ.rows ++ [row], log := σ.log ++ [.created row] }
    else none
  | .launch limit => if 1 ≤
   limit then some { σ with sweeps := σ.sweeps ++ [⟨limit, 0, [], .ready⟩] } else none
  | .sweep i act =>
    match σ.sweeps[i]? with
    | none => none
    | some s => sweepStep σ i s act

def run (σ : State) (steps : List Step) : Option State := steps.foldlM step σ

def initial (clock : ℕ) (rows : List Invite) : State := ⟨clock, rows, [], []⟩

end Steps

end BoardGamesEmpire.InviteSweep
