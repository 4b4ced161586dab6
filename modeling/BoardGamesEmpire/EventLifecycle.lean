import BoardGamesEmpire.EventVotes

set_option autoImplicit false

/-!
# The host's decisions and the dates

`EventService`'s create, update and delete, `EventLifecycleService`, and the
date writes of `EventOccurrenceService`, statement by statement. A request's
ceiling is what its actor's grants say of the row it writes.
-/
namespace BoardGamesEmpire.EventPlanning
open JsText ReadCommitted ReadCommittedProtocol

inductive Mutation where
  | unchanged
  | eventCreated (after : Event) (invitees : List ℕ)
  | eventUpdated (before after : Event) (named : Bool)
  | eventDeleted (after : Event) (userId : ℕ)
  | eventCancelled (before after : Event) (userId : ℕ)
  | eventReopened (before after : Event) (userId : ℕ)
  | eventArchived (before after : Event)
  | eventUnarchived (before after : Event)
  | occurrenceAdded (id : ℕ) (after : EventOccurrence) (removed : List (ℕ × EventGame))
  | occurrenceUpdated (id : ℕ) (before after : EventOccurrence) (removed : List (ℕ × EventGame))
  | occurrenceRemoved (id : ℕ) (before : EventOccurrence) (removed : List (ℕ × EventGame))
  | occurrenceStatusChanged (id : ℕ) (before : OccurrenceStatus) (after : EventOccurrence)
  | nominationCreated (id : ℕ) (after : Nomination) (gameId : Option ℕ)
  | nominationWithdrawn (id : ℕ) (before : NominationStatus) (after : Nomination)
  | nominationResolved (id : ℕ) (after : Nomination) (gameId : Option ℕ) (counted : ResolutionResult)
      (voters : List (ℕ × AttendeeStub)) (takenOn : Db)
  | nominationDecided (id : ℕ) (after : Nomination) (gameId : Option ℕ)
  | voteCast (nominationId attendeeId : ℕ) (before : Option GameVote) (after : GameVote)
  | gameAdded (id : ℕ) (after : EventGame)
  | attendeeAdded (id : ℕ) (after : EventAttendee)
  | attendeeRemoved (id : ℕ) (after : EventAttendee)
  | attendeeStatusUpdated (id : ℕ) (after : EventAttendee)
  | gameAddedToList (id : ℕ) (after : GameListEntry)
  | gameRemovedFromList (id : ℕ) (after : GameListEntry)

abbrev EventProgram := Program Mutation

abbrev Ceiling := Db → Bool

section Locks

def refuse : EventProgram := .rollback .halt

/-- `new Date()`. -/
def now (next : ℕ → EventProgram) : EventProgram := .query fun clock _ => next clock

/-- `SELECT id FROM events WHERE id = … FOR NO KEY UPDATE`, or `FOR SHARE`. A
    write that goes on without the row fails on its key into it. -/
def lockEvent (exclusive : Bool) (next : EventProgram) : EventProgram :=
  .lock (fun v => if (event? v).isSome then [⟨.row .event, exclusive⟩] else [])
    fun _ v => if (event? v).isSome then next else refuse

/-- `lockLiveEvent`. -/
def lockLiveEvent (next : Event → EventProgram) : EventProgram :=
  lockEvent true <| .query fun _ v =>
    (((event? v).filter (·.deletedAt.isNone)).map next).getD refuse

/-- `assertEventNotCancelled`, under the event's lock. -/
def assertEventNotCancelled (next : EventProgram) : EventProgram :=
  .lock (fun v => if (event? v).isSome then [⟨.row .event, false⟩] else [])
    fun _ v => if (event? v).any (·.cancelledAt.isSome) then refuse else next

/-- The lineup games ahead at the instant whose supplier is out, or whose entry came
    off the list. -/
def unsuppliedGames (instant : ℕ) (v : Db) : List (ℕ × EventGame) :=
  (lineup v).filter fun game => lineupStillAhead instant v game.2 &&
   (gameList? v game.2.suppliedById).any fun entry =>
    entry.removedAt.isSome || (attendee? v entry.attendeeId).any isOutOfEvent

def deleteAll : RowChange Row := fun _ _ => some none

/-- `writeEventDates`. -/
def writeEventDates {α : Type} (initiatedAt : ℕ) (write : (α → EventProgram) → EventProgram)
    (next : α → List (ℕ × EventGame) → EventProgram) : EventProgram :=
  lockEvent true <| write fun written => .query fun _ v =>
    Code.eachRow deleteAll ((unsuppliedGames initiatedAt v).map fun game => .game game.1)
      (next written (unsuppliedGames initiatedAt v))

end Locks

section Transitions

/-- `transition`: the row under its lock, the grant, then the dates. -/
def transition (ceiling : Ceiling) (write : Event → List EventOccurrence → EventProgram) : EventProgram :=
  lockLiveEvent fun existing => .query fun _ v =>
    if ceiling v then .query fun _ v => write existing ((occurrences v).map (·.2)) else refuse

def cascade (status : OccurrenceStatus) (data : EventOccurrence → EventOccurrence) : RowChange Row
  | .date _, row => if row.status = status then some (some (data row)) else none
  | _, _ => none

def cancelEvent (userId : ℕ) (ceiling : Ceiling) (reason : Option Text) : EventProgram :=
  now fun initiatedAt => transition ceiling fun existing _ =>
    if existing.cancelledAt.isSome then .commit .unchanged .halt
    else if existing.archivedAt.isSome then refuse
    else
      Code.updateRow .event (fun v row => row.cancelledAt.isNone && ceiling v)
        (fun row => { row with
          cancelledAt := some initiatedAt, cancelledById := some userId, cancelReason := reason })
        fun cancelled =>
          Code.updateMany
            (cascade .confirmed fun date => { date with
              status := .cancelled
              cancelledAt := some initiatedAt
              cancelledById := some userId
              cancelReason := reason })
            (Code.updateMany
              (cascade .proposed fun date =>
               { date with status := .declined, declinedAt := some initiatedAt })
              (.commit (.eventCancelled existing cancelled userId) .halt))

def reopenEvent (userId : ℕ) (ceiling : Ceiling) : EventProgram :=
  now fun _ => transition ceiling fun existing _ =>
    if existing.cancelledAt.isNone then .commit .unchanged .halt
    else if existing.archivedAt.isSome then refuse
    else
      Code.updateRow .event (fun v row => row.cancelledAt.isSome && row.archivedAt.isNone && ceiling v)
        (fun row => { row with cancelledAt := none, cancelledById := none, cancelReason := none })
        fun reopened => .commit (.eventReopened existing reopened userId) .halt

def archivable : List EventStatus := [.cancelled, .completed]

def archiveEvent (ceiling : Ceiling) : EventProgram :=
  now fun initiatedAt => transition ceiling fun existing dates =>
    if existing.archivedAt.isSome then .commit .unchanged .halt
    else if archivable.contains (deriveEventStatus existing dates initiatedAt) then
      Code.updateRow .event (fun v row => row.archivedAt.isNone && ceiling v)
        (fun row => { row with archivedAt := some initiatedAt })
        fun archived => .commit (.eventArchived existing archived) .halt
    else refuse

def unarchiveEvent (ceiling : Ceiling) : EventProgram :=
  now fun _ => transition ceiling fun existing _ =>
    if existing.archivedAt.isNone then .commit .unchanged .halt
    else
      Code.updateRow .event (fun v row => row.archivedAt.isSome && ceiling v)
        (fun row => { row with archivedAt := none })
        fun unarchived => .commit (.eventUnarchived existing unarchived) .halt

end Transitions

section Events

structure CreateOccurrence where
  label : Option Text
  startDate : Option ℕ
  endDate : Option ℕ
  location : Option Text
  sortOrder : Option ℕ

structure CreateEvent where
  householdId : Option ℕ
  title : Text
  schedulingMode : Option SchedulingMode
  image : Option Text
  description : Option Text
  location : Option Text
  url : Option Text
  type : Option EventType
  reach : Option Reach
  inviteUserIds : List ℕ
  occurrences : List CreateOccurrence
  policy : EventPolicy

/-- `validateOccurrencesForMode`. -/
def occurrencesFitMode (mode : SchedulingMode) (count : ℕ) : Bool :=
    !(mode == .fixed && decide (1 < count))

def emptyPolicy : EventOccurrencePolicy := ⟨none, none, none, none, none, none, none, none⟩

/-- A date made with the event: a proposal of a poll, else confirmed at once. -/
def createdOccurrence (poll : Bool) (index clock : ℕ) (dto : CreateOccurrence) : EventOccurrence where
  label := dto.label
  startDate := dto.startDate
  endDate := dto.endDate
  location := dto.location
  status := if poll then .proposed else .confirmed
  sortOrder := dto.sortOrder.getD index
  confirmedAt := if poll then none else some clock
  declinedAt := none
  cancelledAt := none
  cancelledById := none
  cancelReason := none

def createOccurrences (poll : Bool) : ℕ → List CreateOccurrence → EventProgram → EventProgram
  | _, [], next => next
  | index, dto :: rest, next =>
    Code.insertRow Key.date (fun clock => createdOccurrence poll index clock dto) fun id =>
      if poll then createOccurrences poll (index + 1) rest next
      else Code.insertRow (fun _ => .datePolicy id) (fun _ => emptyPolicy) fun _ =>
        createOccurrences poll (index + 1) rest next

def createAttendees : List (ℕ × ParticipationStatus × EventRole) → EventProgram → EventProgram
  | [], next => next
  | (userId, status, role) :: rest, next =>
    Code.insertRow Key.attendee
      (fun _ => ⟨some userId, none, none, status, none, none, none, none⟩) fun id =>
        Code.insertRow (fun _ => .attendeeRole id) (fun _ => role) fun _ => createAttendees rest next

def createdEvent (userId : ℕ) (dto : CreateEvent) : Event where
  householdId := dto.householdId
  createdById := userId
  title := dto.title
  schedulingMode := dto.schedulingMode.getD .fixed
  image := dto.image
  description := dto.description
  location := dto.location
  url := dto.url
  type := dto.type.getD .casualGathering
  reach := dto.reach.getD .friends
  cancelledAt := none
  cancelledById := none
  cancelReason := none
  archivedAt := none
  deletedAt := none
  deletedById := none

/-- The one create that makes this event; a row that is there already is a
    replay. `invitable` is what the household and the invitees allow. -/
def createEvent (userId : ℕ) (mayCreate : Option ℕ → Bool) (invitable : Ceiling) (dto : CreateEvent) :
    EventProgram :=
  let invitees := (dto.inviteUserIds.filter (· ≠ userId)).dedup
  if mayCreate dto.householdId &&
      occurrencesFitMode (dto.schedulingMode.getD .fixed) dto.occurrences.length then
    .query fun _ v => if invitable v then
      Code.insertRow (fun _ => .event) (fun _ => createdEvent userId dto) fun _ =>
        createOccurrences (dto.schedulingMode == some .poll) 0 dto.occurrences <|
          Code.insertRow (fun _ => .eventPolicy) (fun _ => dto.policy) fun _ =>
            createAttendees
              ((userId, .attending, .host) :: invitees.map fun id => (id, .invited, .participant)) <|
                .commit (.eventCreated (createdEvent userId dto) invitees) .halt
      else refuse
  else refuse

/-- The columns a patch of an event names. A text but the title may be set to
    null; the database refuses a null in another column. -/
structure UpdateEvent where
  title : Option Text
  schedulingMode : Option SchedulingMode
  image : Option (Option Text)
  description : Option (Option Text)
  location : Option (Option Text)
  url : Option (Option Text)
  type : Option EventType
  reach : Option Reach

def UpdateEvent.named (dto : UpdateEvent) : Bool :=
  dto.title.isSome || dto.schedulingMode.isSome || dto.image.isSome || dto.description.isSome ||
    dto.location.isSome || dto.url.isSome || dto.type.isSome || dto.reach.isSome

def UpdateEvent.apply (dto : UpdateEvent) (row : Event) : Event :=
  { row with
    title := dto.title.getD row.title
    schedulingMode := dto.schedulingMode.getD row.schedulingMode
    image := dto.image.getD row.image
    description := dto.description.getD row.description
    location := dto.location.getD row.location
    url := dto.url.getD row.url
    type := dto.type.getD row.type
    reach := dto.reach.getD row.reach }

/-- `relations`: the patch also names an input that is no column of the event,
    which is left aside. -/
def updateEvent (ceiling : Ceiling) (dto : UpdateEvent) (relations : Bool) : EventProgram :=
  if dto.named || relations then
    lockLiveEvent fun existing =>
      Code.updateRow .event (fun v row => row.deletedAt.isNone && ceiling v) dto.apply fun updated =>
        .commit (.eventUpdated existing updated dto.named) .halt
  else refuse

def deleteEvent (userId : ℕ) (ceiling : Ceiling) : EventProgram :=
  lockLiveEvent fun _ => now fun deletedAt =>
    Code.updateRow .event (fun v row => row.deletedAt.isNone && ceiling v)
      (fun row => { row with deletedAt := some deletedAt, deletedById := some userId })
      fun deleted => .commit (.eventDeleted deleted userId) .halt

end Events

section Dates

structure AddOccurrence where
  label : Option Text
  startDate : Option ℕ
  endDate : Option ℕ
  location : Option Text
  status : Option OccurrenceStatus
  sortOrder : Option ℕ

def addedOccurrence (mode : SchedulingMode) (dto : AddOccurrence) : EventOccurrence where
  label := dto.label
  startDate := dto.startDate
  endDate := dto.endDate
  location := dto.location
  status := dto.status.getD (if mode = .poll then .proposed else .confirmed)
  sortOrder := dto.sortOrder.getD 0
  confirmedAt := none
  declinedAt := none
  cancelledAt := none
  cancelledById := none
  cancelReason := none

def addOccurrence (mayCreate : Option ℕ → Bool) (dto : AddOccurrence) : EventProgram :=
  now fun initiatedAt => .query fun _ v =>
    (((event? v).filter (·.deletedAt.isNone)).map fun event =>
      let write : EventProgram :=
        writeEventDates initiatedAt
          (fun next => assertEventNotCancelled <|
            Code.insertRow Key.date (fun _ => addedOccurrence event.schedulingMode dto) next)
          fun id removed =>
           .commit (.occurrenceAdded id (addedOccurrence event.schedulingMode dto) removed) .halt
      if mayCreate event.householdId then
        if event.schedulingMode = .fixed then
          .query fun _ v => if 1 ≤ (occurrences v).length then refuse else write
        else write
      else refuse).getD refuse

/-- The columns a patch of a date names; a date or a text may be set to null. -/
structure UpdateOccurrence where
  label : Option (Option Text)
  startDate : Option (Option ℕ)
  endDate : Option (Option ℕ)
  location : Option (Option Text)
  sortOrder : Option ℕ

def UpdateOccurrence.named (dto : UpdateOccurrence) : Bool :=
  dto.label.isSome || dto.startDate.isSome || dto.endDate.isSome || dto.location.isSome
   || dto.sortOrder.isSome

def UpdateOccurrence.apply (dto : UpdateOccurrence) (row : EventOccurrence) : EventOccurrence :=
  { row with
    label := dto.label.getD row.label
    startDate := dto.startDate.getD row.startDate
    endDate := dto.endDate.getD row.endDate
    location := dto.location.getD row.location
    sortOrder := dto.sortOrder.getD row.sortOrder }

def updateOccurrence (ceiling : Ceiling) (id : ℕ) (dto : UpdateOccurrence) : EventProgram :=
  now fun initiatedAt =>
    if dto.named then
      .query fun _ v => ((date? v id).map fun existing =>
        writeEventDates initiatedAt
          (fun next => Code.updateRow (.date id) (fun v _ => ceiling v) dto.apply next)
          fun updated removed => .commit (.occurrenceUpdated id existing updated removed)
           .halt).getD refuse
    else refuse

def cascadeDate (id : ℕ) : RowChange Row
  | .datePolicy occurrenceId, _ => if occurrenceId = id then some none else none
  | .game _, row => if row.occurrenceId = some id then some none else none
  | _, _ => none

def clearDate (id : ℕ) : RowChange Row
  | .nomination _, row => if row.occurrenceId = some id then some
   (some { row with occurrenceId := none }) else none
  | _, _ => none

def removeOccurrence (ceiling : Ceiling) (id : ℕ) : EventProgram :=
  now fun initiatedAt => .query fun _ v =>
    if (date? v id).isSome then
      writeEventDates initiatedAt
        (fun next => .query fun _ v =>
          (((date? v id).filter fun _ => ceiling v).map fun current =>
            if current.status = .confirmed then refuse
            else .lock (fun _ => [⟨.advisory (.dateExists id), true⟩]) fun _ _ =>
              Code.deleteRow (.date id) (fun v _ => ceiling v) fun deleted =>
                Code.updateMany (cascadeDate id)
                 (Code.updateMany (clearDate id) (next deleted))).getD refuse)
        fun deleted removed => .commit (.occurrenceRemoved id deleted removed) .halt
    else refuse

/-- `transitionStatus`. -/
def transitionStatus (ceiling : Ceiling) (id : ℕ) (allowedFrom newStatus : OccurrenceStatus)
    (extraData : EventOccurrence → EventOccurrence) (refuseOnCancelledEvent : Bool) : EventProgram :=
  .query fun _ v =>
    if (date? v id).any (·.status = allowedFrom) then
      lockEvent true <|
        (if refuseOnCancelledEvent then assertEventNotCancelled else fun next => next) <| .query fun _ v =>
          (((date? v id).filter (·.status = allowedFrom)).map fun current =>
            Code.updateRow (.date id) (fun v row => row.status == current.status && ceiling v)
              (fun row : EventOccurrence => extraData { row with status := newStatus })
              fun written => .commit (.occurrenceStatusChanged id current.status written)
               .halt).getD refuse
    else refuse

def confirmOccurrence (ceiling : Ceiling) (id : ℕ) : EventProgram :=
  now fun confirmedAt =>
    transitionStatus ceiling id .proposed .confirmed
     (fun row => { row with confirmedAt := some confirmedAt }) true

def declineOccurrence (ceiling : Ceiling) (id : ℕ) : EventProgram :=
  now fun declinedAt =>
    transitionStatus ceiling id .proposed .declined
     (fun row => { row with declinedAt := some declinedAt }) false

def cancelOccurrence (userId : ℕ) (ceiling : Ceiling) (id : ℕ) (reason : Option Text) : EventProgram :=
  now fun cancelledAt =>
    transitionStatus ceiling id .confirmed .cancelled
      (fun row => { row with
        cancelledAt := some cancelledAt, cancelledById := some userId, cancelReason := reason }) false

end Dates

end BoardGamesEmpire.EventPlanning
