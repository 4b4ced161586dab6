import BoardGamesEmpire.EventRows

set_option autoImplicit false

/-!
# The count of a vote

The policy a nomination is held to, and `VoteResolver`. `percentOf n p` stands
for `Math.ceil(n * (p / 100))` in double arithmetic.
-/
namespace BoardGamesEmpire.EventPlanning
open ReadCommitted ReadCommittedProtocol

section Policy

/-- `effectivePolicy`: the date's, where the date sets a field, else the event's. -/
def effectivePolicy (eventPolicy : Option EventPolicy) (occPolicy : Option EventOccurrencePolicy) :
    EventPolicy :=
  let base := eventPolicy.getD
    ⟨.direct, .simpleMajority, none, .none, none, .confirmedOnly, .asAbstain, none⟩
  match occPolicy with
  | none => base
  | some own =>
    { gameAdditionMode := own.gameAdditionMode.getD base.gameAdditionMode
      voteThresholdType := own.voteThresholdType.getD base.voteThresholdType
      voteThresholdValue := own.voteThresholdValue <|> base.voteThresholdValue
      voteQuorumType := own.voteQuorumType.getD base.voteQuorumType
      voteQuorumValue := own.voteQuorumValue <|> base.voteQuorumValue
      voteEligibility := own.voteEligibility.getD base.voteEligibility
      interestedWeight := own.interestedWeight.getD base.interestedWeight
      votingWindowHours := own.votingWindowHours <|> base.votingWindowHours }

/-- `getEffectivePolicy`, on the rows of one view. -/
def policyOf (v : Db) (occurrenceId : Option ℕ) : EventPolicy :=
  effectivePolicy (eventPolicy? v) (occurrenceId.bind (datePolicy? v))

end Policy

section Voters

structure AttendeeStub where
  status : ParticipationStatus
  removedAt : Option ℕ
  userId : Option ℕ
  availableGames : List ℕ
  holdsGrant : Bool
deriving DecidableEq

structure VoteStub where
  voteType : VoteType
  voter : AttendeeStub
deriving DecidableEq

/-- The rows `VOTER_SELECT` reads of an attendee. -/
def stubOf (v : Db) (id : ℕ) (attendee : EventAttendee) : AttendeeStub where
  status := attendee.status
  removedAt := attendee.removedAt
  userId := attendee.userId
  availableGames :=
    (((gameLists v).filter fun entry => entry.2.attendeeId == id && entry.2.removedAt.isNone).map
     (·.1)).take 1
  holdsGrant := (attendeeRole? v id).any fun role => (v.lookup (.voteGrant role)).isSome

/-- `getEventAttendees`: removed attendees are no part of the pool. -/
def eventAttendees (v : Db) : List (ℕ × AttendeeStub) :=
  ((attendees v).filter fun a => a.2.removedAt.isNone).map fun a => (a.1, stubOf v a.1 a.2)

/-- `countsAsVoter`. -/
def countsAsVoter (attendee : AttendeeStub) : Bool :=
  !(attendee.removedAt.isSome || attendee.status == .notAttending) &&
    (attendee.userId.isSome && attendee.holdsGrant)

def isEligibleVoter (eligibility : VoteEligibility) (attendee : AttendeeStub) : Bool :=
  countsAsVoter attendee &&
    match eligibility with
    | .allAttendees => true
    | .confirmedOnly => attendee.status == .attending
    | .poolParticipants => !attendee.availableGames.isEmpty

end Voters

section Resolver

variable (percentOf : ℕ → ℕ → ℕ)

structure VoteTally where
  forCount : ℕ
  againstCount : ℕ
  interestedCount : ℕ
  totalVotes : ℕ
deriving DecidableEq

structure ResolutionResult where
  status : NominationStatus
  tally : VoteTally
  quorumMet : Bool
  thresholdMet : Bool
  eligibleVoterCount : ℕ
deriving DecidableEq

def countType (votes : List VoteStub) (voteType : VoteType) : ℕ :=
    votes.countP fun vote => vote.voteType == voteType

def tally (votes : List VoteStub) (interestedWeight : InterestedWeight) : VoteTally :=
  let forCount := countType votes .inFavour
  let againstCount := countType votes .against
  let interestedCount := countType votes .interested
  match interestedWeight with
  | .asFor => ⟨forCount + interestedCount, againstCount, interestedCount,
   forCount + interestedCount + againstCount⟩
  | .asAgainst => ⟨forCount, againstCount + interestedCount, interestedCount,
   forCount + (againstCount + interestedCount)⟩
  | .asAbstain => ⟨forCount, againstCount, interestedCount, forCount + againstCount⟩

def checkQuorum (totalVotes eligibleCount : ℕ) (policy : EventPolicy) : Bool :=
  match policy.voteQuorumType with
  | .none => true
  | .fixedCount => policy.voteQuorumValue.getD 1 ≤ totalVotes
  | .percentOfAttendees =>
    eligibleCount != 0 && percentOf eligibleCount (policy.voteQuorumValue.getD 50) ≤ totalVotes

def checkThreshold (tally : VoteTally) (eligibleCount : ℕ) (policy : EventPolicy) : Bool :=
  match policy.voteThresholdType with
  | .simpleMajority => 0 < tally.totalVotes && tally.totalVotes < 2 * tally.forCount
  | .supermajority =>
    0 < tally.totalVotes && percentOf tally.totalVotes (policy.voteThresholdValue.getD 66) ≤ tally.forCount
  | .unanimous => tally.againstCount == 0 && tally.forCount == eligibleCount
  | .fixedCount => policy.voteThresholdValue.getD 1 ≤ tally.forCount

/-- `VoteResolver.resolve`. -/
def resolve (votes : List VoteStub) (policy : EventPolicy) (attendees : List AttendeeStub) :
    ResolutionResult :=
  let eligibleCount := attendees.countP (isEligibleVoter policy.voteEligibility)
  let counted := votes.filter fun vote => isEligibleVoter policy.voteEligibility vote.voter
  let tally := tally counted policy.interestedWeight
  let quorumMet := checkQuorum percentOf tally.totalVotes eligibleCount policy
  let thresholdMet := checkThreshold percentOf tally eligibleCount policy
  ⟨if !quorumMet then .quorumNotMet else if thresholdMet then .passed else .failed,
    tally, quorumMet, thresholdMet, eligibleCount⟩

/-- `countVotes`, on the votes and the attendees it read: a voter missing from
    the attendees was removed. -/
def countVotes (votes : List (ℕ × GameVote)) (attendees : List (ℕ × AttendeeStub)) (policy : EventPolicy) :
    ResolutionResult :=
  resolve percentOf
    (votes.filterMap fun vote => (attendees.lookup vote.1).map fun voter => ⟨vote.2.voteType, voter⟩)
    policy (attendees.map (·.2))

theorem resolve_perm {votes votes' : List VoteStub} (h : votes.Perm votes') (policy : EventPolicy)
  (attendees : List AttendeeStub) :
   resolve percentOf votes policy attendees = resolve percentOf votes' policy attendees := by
 have htally : tally (votes.filter fun vote => isEligibleVoter policy.voteEligibility vote.voter)
  policy.interestedWeight =
   tally (votes'.filter fun vote => isEligibleVoter policy.voteEligibility vote.voter)
    policy.interestedWeight := by
  unfold tally countType
  rw [(h.filter _).countP_eq, (h.filter _).countP_eq, (h.filter _).countP_eq]
 simp only [resolve, htally]

theorem countVotes_perm {votes votes' : List (ℕ × GameVote)} (h : votes.Perm votes')
  (attendees : List (ℕ × AttendeeStub)) (policy : EventPolicy) :
   countVotes percentOf votes attendees policy = countVotes percentOf votes' attendees policy :=
 resolve_perm percentOf (h.filterMap _) policy _

end Resolver

end BoardGamesEmpire.EventPlanning
