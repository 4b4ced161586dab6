import BoardGamesEmpire.JsText
import BoardGamesEmpire.ReadCommittedSection

set_option autoImplicit false

/-!
# The rows of an event

The tables one event's requests read and write: the event, its dates, its
attendees and their offered games, nominations, votes and the lineup. What the
services work out from them, the status and the count of a vote, is here too.
-/
namespace BoardGamesEmpire.EventPlanning
open JsText ReadCommitted ReadCommittedProtocol

section Rows

inductive SchedulingMode where
  | fixed | poll | multiDay
deriving DecidableEq

inductive OccurrenceStatus where
  | proposed | confirmed | declined | cancelled
deriving DecidableEq

inductive ParticipationStatus where
  | invited | attending | maybe | notAttending
deriving DecidableEq

inductive NominationStatus where
  | open | awaitingApproval | approved | passed | failed | quorumNotMet | rejected | withdrawn | paused
deriving DecidableEq

inductive GameAdditionMode where
  | direct | requiresVote | hostApproval | hostOnly
deriving DecidableEq

inductive VoteType where
  | inFavour | against | interested
deriving DecidableEq

inductive VoteThresholdType where
  | simpleMajority | supermajority | unanimous | fixedCount
deriving DecidableEq

inductive VoteQuorumType where
  | none | percentOfAttendees | fixedCount
deriving DecidableEq

inductive VoteEligibility where
  | allAttendees | confirmedOnly | poolParticipants
deriving DecidableEq

inductive InterestedWeight where
  | asFor | asAbstain | asAgainst
deriving DecidableEq

inductive ScheduledGameRole where
  | primary | filler
deriving DecidableEq

inductive EventRole where
  | host | coHost | organizer | moderator | participant | guest | spectator
deriving DecidableEq

inductive Reach where
  | privateReach | friends | friendsOfFriends | publicReach
deriving DecidableEq

inductive EventType where
  | adultsOnly | casualGathering | competitivePlay | familyNight | kidFriendly | learningSession | longGameDay
  | mixedAges | partyGames | strategyNight
deriving DecidableEq

structure Event where
  householdId : Option ℕ
  createdById : ℕ
  title : Text
  schedulingMode : SchedulingMode
  image : Option Text
  description : Option Text
  location : Option Text
  url : Option Text
  type : EventType
  reach : Reach
  cancelledAt : Option ℕ
  cancelledById : Option ℕ
  cancelReason : Option Text
  archivedAt : Option ℕ
  deletedAt : Option ℕ
  deletedById : Option ℕ
deriving DecidableEq

structure EventOccurrence where
  label : Option Text
  startDate : Option ℕ
  endDate : Option ℕ
  location : Option Text
  status : OccurrenceStatus
  sortOrder : ℕ
  confirmedAt : Option ℕ
  declinedAt : Option ℕ
  cancelledAt : Option ℕ
  cancelledById : Option ℕ
  cancelReason : Option Text
deriving DecidableEq

structure EventAttendee where
  userId : Option ℕ
  guestName : Option Text
  guestEmail : Option Text
  status : ParticipationStatus
  invitedById : Option ℕ
  notes : Option Text
  rsvpDate : Option ℕ
  removedAt : Option ℕ
deriving DecidableEq

structure GameListEntry where
  attendeeId : ℕ
  collectionId : ℕ
  removedAt : Option ℕ
deriving DecidableEq

structure Nomination where
  occurrenceId : Option ℕ
  platformGameId : ℕ
  votingDeadline : Option ℕ
  nominatedById : ℕ
  suppliedFromId : ℕ
  status : NominationStatus
  pausedFrom : Option NominationStatus
deriving DecidableEq

structure GameVote where
  voteType : VoteType
  priority : Option ℤ
  comment : Option Text
deriving DecidableEq

structure EventGame where
  occurrenceId : Option ℕ
  platformGameId : ℕ
  role : ScheduledGameRole
  suppliedById : ℕ
  nominationId : Option ℕ
  addedById : Option ℕ
deriving DecidableEq

structure EventPolicy where
  gameAdditionMode : GameAdditionMode
  voteThresholdType : VoteThresholdType
  voteThresholdValue : Option ℕ
  voteQuorumType : VoteQuorumType
  voteQuorumValue : Option ℕ
  voteEligibility : VoteEligibility
  interestedWeight : InterestedWeight
  votingWindowHours : Option ℕ
deriving DecidableEq

structure EventOccurrencePolicy where
  gameAdditionMode : Option GameAdditionMode
  voteThresholdType : Option VoteThresholdType
  voteThresholdValue : Option ℕ
  voteQuorumType : Option VoteQuorumType
  voteQuorumValue : Option ℕ
  voteEligibility : Option VoteEligibility
  interestedWeight : Option InterestedWeight
  votingWindowHours : Option ℕ
deriving DecidableEq

structure GameCollection where
  userId : ℕ
  platformGameId : ℕ
  deletedAt : Option ℕ
deriving DecidableEq

inductive Key where
  | event
  | date (id : ℕ)
  | attendee (id : ℕ)
  | attendeeRole (attendeeId : ℕ)
  | entry (id : ℕ)
  | nomination (id : ℕ)
  | vote (nominationId attendeeId : ℕ)
  | game (id : ℕ)
  | eventPolicy
  | datePolicy (occurrenceId : ℕ)
  | collection (id : ℕ)
  | voteGrant (role : EventRole)
deriving DecidableEq

abbrev Row : Key → Type
  | .event => Event
  | .date _ => EventOccurrence
  | .attendee _ => EventAttendee
  | .attendeeRole _ => EventRole
  | .entry _ => GameListEntry
  | .nomination _ => Nomination
  | .vote _ _ => GameVote
  | .game _ => EventGame
  | .eventPolicy => EventPolicy
  | .datePolicy _ => EventOccurrencePolicy
  | .collection _ => GameCollection
  | .voteGrant _ => Unit

abbrev Db := AList Row

/-- The rows other services write: collections, and the catalog's grant of the
    game vote to an event role. -/
def outside : Key → Bool
  | .collection _ | .voteGrant _ => true
  | .event | .date _ | .attendee _ | .attendeeRole _ | .entry _ | .nomination _ | .vote _ _ | .game _
  | .eventPolicy | .datePolicy _ => false

/-- What the indexes lock: a date named by another row, held against its
    removal, and the unique keys of attendees and list entries. -/
inductive Advisory where
  | dateExists (id : ℕ)
  | attendeeUser (userId : ℕ)
  | listedGame (attendeeId collectionId : ℕ)
deriving DecidableEq

abbrev Program (E : Type) := Code Row Advisory E

end Rows

section Reads

abbrev event? (v : Db) : Option Event := v.lookup .event

abbrev date? (v : Db) (id : ℕ) : Option EventOccurrence := v.lookup (.date id)

abbrev attendee? (v : Db) (id : ℕ) : Option EventAttendee := v.lookup (.attendee id)

abbrev attendeeRole? (v : Db) (attendeeId : ℕ) : Option EventRole := v.lookup (.attendeeRole attendeeId)

abbrev gameList? (v : Db) (id : ℕ) : Option GameListEntry := v.lookup (.entry id)

abbrev nomination? (v : Db) (id : ℕ) : Option Nomination := v.lookup (.nomination id)

abbrev vote? (v : Db) (nominationId attendeeId : ℕ) : Option GameVote :=
    v.lookup (.vote nominationId attendeeId)

abbrev game? (v : Db) (id : ℕ) : Option EventGame := v.lookup (.game id)

abbrev eventPolicy? (v : Db) : Option EventPolicy := v.lookup .eventPolicy

abbrev datePolicy? (v : Db) (occurrenceId : ℕ) : Option EventOccurrencePolicy :=
  v.lookup (.datePolicy occurrenceId)

abbrev collection? (v : Db) (id : ℕ) : Option GameCollection := v.lookup (.collection id)

def asDate : (k : Key) → Row k → Option (ℕ × EventOccurrence)
  | .date id, row => some (id, row)
  | _, _ => none

def asAttendee : (k : Key) → Row k → Option (ℕ × EventAttendee)
  | .attendee id, row => some (id, row)
  | _, _ => none

def asEntry : (k : Key) → Row k → Option (ℕ × GameListEntry)
  | .entry id, row => some (id, row)
  | _, _ => none

def asNomination : (k : Key) → Row k → Option (ℕ × Nomination)
  | .nomination id, row => some (id, row)
  | _, _ => none

def asVoteOn (nominationId : ℕ) : (k : Key) → Row k → Option (ℕ × GameVote)
  | .vote n attendeeId, row => if n = nominationId then some (attendeeId, row) else none
  | _, _ => none

def asGame : (k : Key) → Row k → Option (ℕ × EventGame)
  | .game id, row => some (id, row)
  | _, _ => none

def occurrences (v : Db) : List (ℕ × EventOccurrence) := select asDate v

def attendees (v : Db) : List (ℕ × EventAttendee) := select asAttendee v

def gameLists (v : Db) : List (ℕ × GameListEntry) := select asEntry v

def nominations (v : Db) : List (ℕ × Nomination) := select asNomination v

def votesOn (v : Db) (nominationId : ℕ) : List (ℕ × GameVote) := select (asVoteOn nominationId) v

def lineup (v : Db) : List (ℕ × EventGame) := select asGame v

end Reads

section Status

inductive EventStatus where
  | planning | scheduled | ongoing | completed | cancelled | archived
deriving DecidableEq

def window (date : EventOccurrence) : Option (ℕ × ℕ) :=
  if date.status = .confirmed then
    date.startDate.map fun start => (start, max start (date.endDate.getD start))
  else none

def widen (sofar : Option (ℕ × ℕ)) (w : ℕ × ℕ) : Option (ℕ × ℕ) :=
  some (match sofar with
    | none => w
    | some (earliest, latest) => (min earliest w.1, max latest w.2))

/-- `deriveEventStatus`. -/
def deriveEventStatus (event : Event) (dates : List EventOccurrence) (now : ℕ) : EventStatus :=
  if event.archivedAt.isSome then .archived
  else if event.cancelledAt.isSome then .cancelled
  else
    match (dates.filterMap window).foldl widen none with
    | none => .planning
    | some (earliest, latest) =>
      if now < earliest then .scheduled else if now < latest then .ongoing else .completed

end Status

section Supply

/-- `isOutOfEvent`. -/
def isOutOfEvent (attendee : EventAttendee) : Bool :=
  attendee.removedAt.isSome || attendee.status == .notAttending

def dateAhead (now : ℕ) (date : EventOccurrence) : Bool :=
  (date.status == .proposed || date.status == .confirmed) && (date.startDate.all fun start => now < start)

/-- `lineupStillAhead`. -/
def lineupStillAhead (now : ℕ) (v : Db) (game : EventGame) : Bool :=
  match game.occurrenceId with
  | some id => (date? v id).any (dateAhead now)
  | none => ((occurrences v).any fun date => dateAhead now date.2) || (occurrences v).isEmpty

structure LockedSupplier where
  platformGameId : ℕ
  status : ParticipationStatus
  attendeeRemovedAt : Option ℕ
  entryRemovedAt : Option ℕ
deriving DecidableEq

def lockedSupplier (v : Db) (gameListId : ℕ) : Option LockedSupplier := do
  let entry ← gameList? v gameListId
  let attendee ← attendee? v entry.attendeeId
  let collection ← collection? v entry.collectionId
  return ⟨collection.platformGameId, attendee.status, attendee.removedAt, entry.removedAt⟩

/-- `assertSupplies`. -/
def supplies (supplier : Option LockedSupplier) (platformGameId : ℕ) : Bool :=
  supplier.any fun s => s.attendeeRemovedAt.isNone && s.entryRemovedAt.isNone &&
    s.platformGameId == platformGameId && s.status != .notAttending

end Supply

end BoardGamesEmpire.EventPlanning
