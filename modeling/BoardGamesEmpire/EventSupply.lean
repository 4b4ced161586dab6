import BoardGamesEmpire.EventLifecycle

set_option autoImplicit false

/-!
# Nominations, the lineup and who supplies it

`EventGameNominationService` and `EventAttendeeService`, statement by statement,
with the locks and the supplier sync they share.
-/
namespace BoardGamesEmpire.EventPlanning
open JsText ReadCommitted ReadCommittedProtocol

section Shared

/-- `lockSupplier`: the entry and its attendee, `FOR SHARE`. -/
def lockSupplier (gameListId : ℕ) (next : Option LockedSupplier → EventProgram) : EventProgram :=
  .lock (fun v => if (lockedSupplier v gameListId).isSome then
      ((gameList? v gameListId).map fun entry =>
        [⟨.row (.entry gameListId), false⟩, ⟨.row (.attendee entry.attendeeId), false⟩]).getD []
    else [])
    fun _ v => next (lockedSupplier v gameListId)

/-- `lockEventDates`. -/
def lockEventDates (next : EventProgram) : EventProgram := lockEvent false next

/-- The key of a row into a date: the date is there, and stays until the end. -/
def referDate (occurrenceId : Option ℕ) (next : EventProgram) : EventProgram :=
  match occurrenceId with
  | none => next
  | some id =>
    .lock (fun _ => [⟨.advisory (.dateExists id), false⟩])
      fun _ v => if (date? v id).isSome then next else refuse

/-- `requireEvent`. -/
def requireEvent (next : Event → EventProgram) : EventProgram :=
  .query fun _ v => (((event? v).filter (·.deletedAt.isNone)).map next).getD refuse

/-- `resolveActingAttendeeId`. -/
def resolveActingAttendeeId (userId : ℕ) (next : ℕ → EventProgram) : EventProgram :=
  .query fun _ v =>
    (((attendees v).find? fun a => a.2.userId == some userId && a.2.removedAt.isNone).map fun a =>
     next a.1).getD
      refuse

def getEffectivePolicy (occurrenceId : Option ℕ) (next : EventPolicy → EventProgram) : EventProgram :=
  .query fun _ v => .query fun _ v' =>
    next (effectivePolicy (eventPolicy? v) (occurrenceId.bind (datePolicy? v')))

/-- The nominations of an attendee's list in one status, moved to another. -/
def moveNominations (attendeeId : ℕ) (selects : Nomination → Bool) (data : Nomination →
    Nomination) (v : Db) :
    RowChange Row
  | .nomination _, row =>
    if (gameList? v row.suppliedFromId).any (·.attendeeId = attendeeId) && selects row then
      some (some (data row))
    else none
  | _, _ => none

def pauseFrom (attendeeId : ℕ) (status : NominationStatus) : Db → RowChange Row :=
  moveNominations attendeeId (fun row => row.status == status)
    fun row => { row with status := .paused, pausedFrom := some status }

def resumeTo (attendeeId : ℕ) (status : NominationStatus) : Db → RowChange Row :=
  moveNominations attendeeId (fun row => row.status == .paused && row.pausedFrom == some status)
    fun row => { row with status := status, pausedFrom := none }

def suppliedAhead (initiatedAt attendeeId : ℕ) (v : Db) : List (ℕ × EventGame) :=
  (lineup v).filter fun game => lineupStillAhead initiatedAt v game.2 &&
    (gameList? v game.2.suppliedById).any (·.attendeeId = attendeeId)

/-- An `updateManyAndReturn` whose selection joins other rows. -/
def updateManyWith (change : Db → RowChange Row) (next : EventProgram) : EventProgram :=
  .query fun _ v => Code.eachRow (change v) (matching (change v) v) next

/-- `syncSuppliedGames`. -/
def syncSuppliedGames (attendeeId : ℕ) (attendee : EventAttendee) (initiatedAt : ℕ) (next : EventProgram) :
    EventProgram :=
  lockEventDates <|
    if isOutOfEvent attendee then
      updateManyWith (pauseFrom attendeeId .open) <|
        updateManyWith (pauseFrom attendeeId .awaitingApproval) <| .query fun _ v =>
          Code.eachRow deleteAll
           ((suppliedAhead initiatedAt attendeeId v).map fun game => .game game.1) next
    else
      updateManyWith (resumeTo attendeeId .open) <| updateManyWith
       (resumeTo attendeeId .awaitingApproval) next

end Shared

section Nominations

structure NominateGame where
  platformGameId : ℕ
  suppliedFromId : ℕ
  occurrenceId : Option ℕ

def initialStatus : GameAdditionMode → NominationStatus
  | .requiresVote => .open
  | .hostApproval => .awaitingApproval
  | .direct => .passed
  | .hostOnly => .open

def hourMs : ℕ := 60 * 60 * 1000

def votingDeadline (policy : EventPolicy) (clock : ℕ) : Option ℕ :=
  if policy.gameAdditionMode = .requiresVote then
    (policy.votingWindowHours.filter (0 < ·)).map fun hours => clock + hours * hourMs
  else none

/-- `elevateToEventGame`. -/
def elevatedGame (nominationId : ℕ) (nomination : Nomination) (occurrenceId : Option ℕ) : EventGame :=
  ⟨occurrenceId, nomination.platformGameId, .primary, nomination.suppliedFromId, some nominationId, none⟩

def elevateToEventGame (nominationId : ℕ) (nomination : Nomination) (occurrenceId : Option ℕ)
    (next : ℕ → EventProgram) : EventProgram :=
  referDate occurrenceId <| Code.insertRow Key.game
   (fun _ => elevatedGame nominationId nomination occurrenceId) next

def nominate (userId : ℕ) (mayCreate : Option ℕ → Bool) (dto : NominateGame) : EventProgram :=
  requireEvent fun event => .query fun _ v =>
    if dto.occurrenceId.all (fun id => (date? v id).isSome) && mayCreate event.householdId then
      resolveActingAttendeeId userId fun attendeeId => getEffectivePolicy dto.occurrenceId fun policy =>
        if policy.gameAdditionMode = .hostOnly then refuse
        else now fun clock =>
          let nomination : Nomination :=
           ⟨dto.occurrenceId, dto.platformGameId, votingDeadline policy clock,
            attendeeId, dto.suppliedFromId, initialStatus policy.gameAdditionMode, none⟩
          lockSupplier dto.suppliedFromId fun supplier =>
            if supplies supplier dto.platformGameId then
              referDate dto.occurrenceId <| Code.insertRow Key.nomination (fun _ => nomination) fun id =>
                if policy.gameAdditionMode = .direct then
                  elevateToEventGame id nomination dto.occurrenceId fun gameId =>
                    .commit (.nominationCreated id nomination (some gameId)) .halt
                else .commit (.nominationCreated id nomination none) .halt
            else refuse
    else refuse

def withdrawable : List NominationStatus := [.open, .awaitingApproval, .paused]

def withdraw (userId : ℕ) (ceiling : Ceiling) (id : ℕ) : EventProgram :=
  resolveActingAttendeeId userId fun attendeeId => .query fun _ v =>
    if (nomination? v id).any fun row => row.nominatedById == attendeeId && withdrawable.contains
     row.status then
      .lock (fun v => if (nomination? v id).isSome then [⟨.row (.nomination id), true⟩] else []) fun _ v =>
        (((nomination? v id).filter fun current => withdrawable.contains current.status).map fun current =>
          Code.updateRow (Key.nomination id) (fun v row => row.status == current.status && ceiling v)
            (fun row : Nomination => { row with status := .withdrawn, pausedFrom := none })
            fun written => .commit (.nominationWithdrawn id current.status written) .halt).getD refuse
    else refuse

/-- A vote as it is sent; a rank or a comment may be null. -/
structure CastVote where
  voteType : VoteType
  priority : Option (Option ℤ)
  comment : Option (Option Text)

def castOver (dto : CastVote) : Option GameVote → GameVote
  | none => ⟨dto.voteType, dto.priority.join, dto.comment.join⟩
  | some old => ⟨dto.voteType, dto.priority.getD old.priority, dto.comment.getD old.comment⟩

def castVote (userId : ℕ) (mayVote : ℕ → Bool) (nominationId : ℕ) (dto : CastVote) : EventProgram :=
  resolveActingAttendeeId userId fun attendeeId =>
    if mayVote attendeeId then
      .query fun _ v => if (nomination? v nominationId).any (·.status = .open) then
        .lock (fun v => if (nomination? v nominationId).isSome then
         [⟨.row (.nomination nominationId), false⟩] else [])
          fun _ v => if (nomination? v nominationId).any (·.status = .open) then
            .query fun _ before => .execute
              (fun _ v => [⟨.vote nominationId attendeeId,
               some (castOver dto (vote? v nominationId attendeeId))⟩])
              fun _ v => .commit (.voteCast nominationId attendeeId (vote? before nominationId attendeeId)
                (castOver dto (vote? v nominationId attendeeId))) .halt
          else refuse
      else refuse
    else refuse

/-- `settle`: the supplier, the event's dates, then the nomination. `takenOn` is
    the store when the nomination's lock was taken. -/
def settle (ceiling : Ceiling) (id : ℕ) (nomination : Nomination) (expected : NominationStatus)
    (decide : Option ℕ → Db →
     (NominationStatus → (Nomination → Option ℕ → Mutation) → EventProgram) → EventProgram) :
    EventProgram :=
  lockSupplier nomination.suppliedFromId fun supplier => lockEventDates <|
    .lock (fun v => if (nomination? v id).isSome then [⟨.row (.nomination id), true⟩] else [])
     fun _ takenOn =>
      (((nomination? takenOn id).filter (·.status = expected)).map fun current =>
        decide current.occurrenceId takenOn fun outcome mutation =>
          let elevates := outcome == .passed || outcome == .approved
          if elevates && !supplies supplier nomination.platformGameId then refuse
          else
            Code.updateRow (Key.nomination id) (fun v _ => ceiling v)
             (fun row : Nomination => { row with status := outcome })
              fun updated =>
                if elevates then
                  elevateToEventGame id nomination current.occurrenceId fun gameId =>
                    .commit (mutation updated (some gameId)) .halt
                else .commit (mutation updated none) .halt).getD refuse

def resolveNomination (percentOf : ℕ → ℕ → ℕ) (ceiling : Ceiling) (id : ℕ) : EventProgram :=
  .query fun _ v => (((nomination? v id).filter (·.status = .open)).map fun nomination =>
    settle ceiling id nomination .open fun occurrenceId takenOn next =>
      getEffectivePolicy occurrenceId fun policy => .query fun _ voted => .query fun _ v =>
        let resolution := countVotes percentOf (votesOn voted id) (eventAttendees v) policy
        next resolution.status fun updated gameId =>
          .nominationResolved id updated gameId resolution (eventAttendees v) takenOn).getD refuse

/-- `handleHostDecision`. -/
def handleHostDecision (ceiling : Ceiling) (id : ℕ) (decision : NominationStatus) : EventProgram :=
  if decision = .approved ∨ decision = .rejected then
    .query fun _ v => (((nomination? v id).filter (·.status = .awaitingApproval)).map fun nomination =>
      settle ceiling id nomination .awaitingApproval fun _ _ next =>
        next decision fun updated gameId => .nominationDecided id updated gameId).getD refuse
  else refuse

def hostApprove (ceiling : Ceiling) (id : ℕ) : EventProgram := handleHostDecision ceiling id .approved

def hostReject (ceiling : Ceiling) (id : ℕ) : EventProgram := handleHostDecision ceiling id .rejected

structure DirectAddGame where
  platformGameId : ℕ
  suppliedById : ℕ
  occurrenceId : Option ℕ
  role : Option ScheduledGameRole

def directAddGame (userId : ℕ) (mayCreate : Option ℕ → Option ℕ → Bool) (dto : DirectAddGame) :
    EventProgram :=
  requireEvent fun event => .query fun _ v =>
    if dto.occurrenceId.all (fun id => (date? v id).isSome) && mayCreate dto.occurrenceId
     event.householdId then
      resolveActingAttendeeId userId fun attendeeId => getEffectivePolicy dto.occurrenceId fun policy =>
        if policy.gameAdditionMode = .direct ∨ policy.gameAdditionMode = .hostOnly then
          let game : EventGame :=
           ⟨dto.occurrenceId, dto.platformGameId, dto.role.getD .primary, dto.suppliedById,
            none, some attendeeId⟩
          lockSupplier dto.suppliedById fun supplier =>
            if supplies supplier dto.platformGameId then
              referDate dto.occurrenceId <| Code.insertRow Key.game (fun _ => game) fun id =>
                .commit (.gameAdded id game) .halt
            else refuse
        else refuse
    else refuse

end Nominations

section Attendees

structure AddAttendee where
  userId : Option ℕ
  guestName : Option Text
  guestEmail : Option Text
  role : Option EventRole
  status : Option ParticipationStatus
  notes : Option Text

def addedAttendee (dto : AddAttendee) (inviterId : Option ℕ) : EventAttendee :=
  ⟨dto.userId, dto.guestName, dto.guestEmail, dto.status.getD .invited, inviterId, dto.notes, none, none⟩

def revivedAttendee (dto : AddAttendee) (inviterId : Option ℕ) (row : EventAttendee) : EventAttendee :=
  { row with
    guestName := dto.guestName <|> row.guestName
    guestEmail := dto.guestEmail <|> row.guestEmail
    status := dto.status.getD .invited
    notes := dto.notes <|> row.notes
    removedAt := none
    rsvpDate := none
    invitedById := inviterId }

def reserveUser (userId : Option ℕ) (next : EventProgram) : EventProgram :=
  match userId with
  | none => next
  | some user =>
    .lock (fun _ => [⟨.advisory (.attendeeUser user), true⟩]) fun _ v =>
      if (attendees v).any (·.2.userId == some user) then refuse else next

def findAttendeeOf (v : Db) (userId : Option ℕ) : Option (ℕ × EventAttendee) :=
  userId.bind fun user => (attendees v).find? (·.2.userId == some user)

/-- `invitable` is what the invite settings allow of the user named. -/
def addAttendee (userId : ℕ) (mayCreate : Option ℕ → EventRole → Bool) (invitable : Ceiling)
    (dto : AddAttendee) :
    EventProgram :=
  now fun initiatedAt => requireEvent fun event =>
    if mayCreate event.householdId (dto.role.getD .participant) &&
     (dto.userId.isSome || dto.guestName.isSome) then
      .query fun _ v =>
        let inviterId :=
         ((attendees v).find? fun a => a.2.userId == some userId && a.2.removedAt.isNone).map (·.1)
        .query fun _ v =>
          match findAttendeeOf v dto.userId with
          | none => .query fun _ v => if dto.userId.isNone || invitable v then
              reserveUser dto.userId <| Code.insertRow Key.attendee
               (fun _ => addedAttendee dto inviterId) fun id =>
                Code.insertRow (fun _ => .attendeeRole id) (fun _ => dto.role.getD .participant) fun _ =>
                  .commit (.attendeeAdded id (addedAttendee dto inviterId)) .halt
            else refuse
          | some (id, existing) => if existing.removedAt.isNone then refuse else
              .query fun _ v => if invitable v then
                Code.updateRow (Key.attendee id) (fun _ row => row.removedAt.isSome)
                 (revivedAttendee dto inviterId)
                  fun attendee =>
                    .execute (fun _ _ => [⟨.attendeeRole id, some (dto.role.getD .participant)⟩])
                     fun _ _ =>
                      syncSuppliedGames id attendee initiatedAt <| .commit
                       (.attendeeAdded id attendee) .halt
              else refuse
    else refuse

def removeAttendee (ceiling : Ceiling) (id : ℕ) : EventProgram :=
  now fun initiatedAt => requireEvent fun _ => .query fun _ v =>
    if (attendee? v id).any (·.removedAt.isNone) then
      now fun removedAt =>
        Code.updateRow (Key.attendee id) (fun v row => row.removedAt.isNone && ceiling v)
          (fun row : EventAttendee => { row with removedAt := some removedAt }) fun removed =>
            .execute (fun _ v => rowWrites deleteAll v (.attendeeRole id)) fun _ _ =>
              syncSuppliedGames id removed initiatedAt <| .commit (.attendeeRemoved id removed) .halt
    else refuse

structure UpdateAttendeeStatus where
  status : ParticipationStatus
  notes : Option Text

def answeredAttendee (dto : UpdateAttendeeStatus) (clock : ℕ) (row : EventAttendee) : EventAttendee :=
  { row with
    status := dto.status
    notes := dto.notes <|> row.notes
    rsvpDate := if dto.status = .attending ∨ dto.status = .notAttending then some clock else row.rsvpDate }

def updateStatus (ceiling : Ceiling) (id : ℕ) (dto : UpdateAttendeeStatus) : EventProgram :=
  now fun initiatedAt => requireEvent fun _ => .query fun _ v =>
    if (attendee? v id).any (·.removedAt.isNone) then
      now fun rsvpDate =>
        .lock (fun v => if (attendee? v id).isSome then [⟨.row (.attendee id), true⟩] else []) fun _ _ =>
          Code.updateRow (Key.attendee id) (fun v row => row.removedAt.isNone && ceiling v)
            (answeredAttendee dto rsvpDate) fun updated =>
              syncSuppliedGames id updated initiatedAt <| .commit (.attendeeStatusUpdated id updated) .halt
    else refuse

/-- `assertAttendeeExists`. -/
def assertAttendeeExists (id : ℕ) (next : EventAttendee → EventProgram) : EventProgram :=
  .query fun _ v => (((attendee? v id).filter (·.removedAt.isNone)).map next).getD refuse

/-- The game is in the collection of the attendee's own account, if they have one. -/
def fromOwnCollection (userId : Option ℕ) (collectionId : ℕ) (v : Db) : Bool :=
  userId.all fun user => (collection? v collectionId).any fun collection =>
    collection.userId == user && collection.deletedAt.isNone

def listEntry (v : Db) (attendeeId collectionId : ℕ) : Option (ℕ × GameListEntry) :=
  (gameLists v).find? fun entry => entry.2.attendeeId == attendeeId && entry.2.collectionId == collectionId

def addGameToList (mayCreate : Option ℕ → Option ℕ → Bool) (attendeeId collectionId : ℕ) : EventProgram :=
  requireEvent fun event => assertAttendeeExists attendeeId fun attendee =>
    if mayCreate attendee.userId event.householdId then
      .query fun _ v => if fromOwnCollection attendee.userId collectionId v then
        .query fun _ v =>
          match (listEntry v attendeeId collectionId).filter (·.2.removedAt.isSome) with
          | some (id, _) =>
            Code.updateRow (Key.entry id) (fun _ row => row.removedAt.isSome)
             (fun row : GameListEntry => { row with removedAt := none })
              fun entry => .commit (.gameAddedToList id entry) .halt
          | none =>
            .lock (fun _ => [⟨.advisory (.listedGame attendeeId collectionId), true⟩]) fun _ v =>
              if (listEntry v attendeeId collectionId).isSome then refuse
              else Code.insertRow Key.entry (fun _ => ⟨attendeeId, collectionId, none⟩) fun id =>
                .commit (.gameAddedToList id ⟨attendeeId, collectionId, none⟩) .halt
      else refuse
    else refuse

def activeNominationStatuses : List NominationStatus := [.open, .awaitingApproval, .paused]

/-- Whether an entry supplies the event: an active nomination, or a game of the
    lineup still ahead. -/
def stillNominated (v : Db) (gameListId : ℕ) : Bool :=
  (nominations v).any fun nomination => nomination.2.suppliedFromId == gameListId &&
    activeNominationStatuses.contains nomination.2.status

def stillScheduled (initiatedAt : ℕ) (v : Db) (gameListId : ℕ) : Bool :=
  (lineup v).any fun game => game.2.suppliedById == gameListId && lineupStillAhead initiatedAt v game.2

def removeGameFromList (ceiling : Ceiling) (attendeeId gameListId : ℕ) : EventProgram :=
  now fun initiatedAt => assertAttendeeExists attendeeId fun _ => .query fun _ v =>
    if (gameList? v gameListId).any fun entry =>
     entry.attendeeId == attendeeId && entry.removedAt.isNone then
      .lock (fun v => if (gameList? v gameListId).isSome then
       [⟨.row (.entry gameListId), true⟩] else []) fun _ v =>
        if (gameList? v gameListId).any (·.removedAt.isNone) then
          .query fun _ v => if ceiling v then
            lockEventDates <| .query fun _ nominated => .query fun _ scheduled =>
              if stillNominated nominated gameListId || stillScheduled initiatedAt scheduled
               gameListId then refuse
              else now fun removedAt =>
                Code.updateRow (Key.entry gameListId) (fun v row => row.removedAt.isNone && ceiling v)
                  (fun row : GameListEntry => { row with removedAt := some removedAt })
                  fun removed => .commit (.gameRemovedFromList gameListId removed) .halt
          else refuse
        else refuse
    else refuse

end Attendees

section System

inductive Request where
  | createEvent (userId : ℕ) (mayCreate : Option ℕ → Bool) (invitable : Ceiling) (dto : CreateEvent)
  | updateEvent (ceiling : Ceiling) (dto : UpdateEvent) (relations : Bool)
  | deleteEvent (userId : ℕ) (ceiling : Ceiling)
  | cancelEvent (userId : ℕ) (ceiling : Ceiling) (reason : Option Text)
  | reopenEvent (userId : ℕ) (ceiling : Ceiling)
  | archiveEvent (ceiling : Ceiling)
  | unarchiveEvent (ceiling : Ceiling)
  | addOccurrence (mayCreate : Option ℕ → Bool) (dto : AddOccurrence)
  | updateOccurrence (ceiling : Ceiling) (id : ℕ) (dto : UpdateOccurrence)
  | removeOccurrence (ceiling : Ceiling) (id : ℕ)
  | confirmOccurrence (ceiling : Ceiling) (id : ℕ)
  | declineOccurrence (ceiling : Ceiling) (id : ℕ)
  | cancelOccurrence (userId : ℕ) (ceiling : Ceiling) (id : ℕ) (reason : Option Text)
  | nominate (userId : ℕ) (mayCreate : Option ℕ → Bool) (dto : NominateGame)
  | withdraw (userId : ℕ) (ceiling : Ceiling) (id : ℕ)
  | castVote (userId : ℕ) (mayVote : ℕ → Bool) (nominationId : ℕ) (dto : CastVote)
  | resolveNomination (ceiling : Ceiling) (id : ℕ)
  | hostApprove (ceiling : Ceiling) (id : ℕ)
  | hostReject (ceiling : Ceiling) (id : ℕ)
  | directAddGame (userId : ℕ) (mayCreate : Option ℕ → Option ℕ → Bool) (dto : DirectAddGame)
  | addAttendee (userId : ℕ) (mayCreate : Option ℕ → EventRole → Bool) (invitable : Ceiling) (dto : AddAttendee)
  | removeAttendee (ceiling : Ceiling) (id : ℕ)
  | updateStatus (ceiling : Ceiling) (id : ℕ) (dto : UpdateAttendeeStatus)
  | addGameToList (mayCreate : Option ℕ → Option ℕ → Bool) (attendeeId collectionId : ℕ)
  | removeGameFromList (ceiling : Ceiling) (attendeeId gameListId : ℕ)

def program (percentOf : ℕ → ℕ → ℕ) : Request → EventProgram
  | .createEvent userId mayCreate invitable dto => createEvent userId mayCreate invitable dto
  | .updateEvent ceiling dto relations => updateEvent ceiling dto relations
  | .deleteEvent userId ceiling => deleteEvent userId ceiling
  | .cancelEvent userId ceiling reason => cancelEvent userId ceiling reason
  | .reopenEvent userId ceiling => reopenEvent userId ceiling
  | .archiveEvent ceiling => archiveEvent ceiling
  | .unarchiveEvent ceiling => unarchiveEvent ceiling
  | .addOccurrence mayCreate dto => addOccurrence mayCreate dto
  | .updateOccurrence ceiling id dto => updateOccurrence ceiling id dto
  | .removeOccurrence ceiling id => removeOccurrence ceiling id
  | .confirmOccurrence ceiling id => confirmOccurrence ceiling id
  | .declineOccurrence ceiling id => declineOccurrence ceiling id
  | .cancelOccurrence userId ceiling id reason => cancelOccurrence userId ceiling id reason
  | .nominate userId mayCreate dto => nominate userId mayCreate dto
  | .withdraw userId ceiling id => withdraw userId ceiling id
  | .castVote userId mayVote nominationId dto => castVote userId mayVote nominationId dto
  | .resolveNomination ceiling id => resolveNomination percentOf ceiling id
  | .hostApprove ceiling id => hostApprove ceiling id
  | .hostReject ceiling id => hostReject ceiling id
  | .directAddGame userId mayCreate dto => directAddGame userId mayCreate dto
  | .addAttendee userId mayCreate invitable dto => addAttendee userId mayCreate invitable dto
  | .removeAttendee ceiling id => removeAttendee ceiling id
  | .updateStatus ceiling id dto => updateStatus ceiling id dto
  | .addGameToList mayCreate attendeeId collectionId => addGameToList mayCreate attendeeId collectionId
  | .removeGameFromList ceiling attendeeId gameListId => removeGameFromList ceiling attendeeId gameListId

abbrev EventReachable (percentOf : ℕ → ℕ → ℕ) (s : Sys Row Advisory Mutation) : Prop :=
  Reachable (program percentOf) outside ∅ s

end System

end BoardGamesEmpire.EventPlanning
