import BoardGamesEmpire.BinaryRounding
import BoardGamesEmpire.EventVotes

set_option autoImplicit false

/-!
# The rules of a vote

`VoteResolver` over the policies the columns can hold: a threshold or quorum
value is any integer there, since the controls are checked only under the rules
that use them, and a date's policy may put an event's value under another rule.
-/
namespace BoardGamesEmpire.VoteResolver
open BinaryRounding EventPlanning

section Policies

structure VotingPolicy where
  voteThresholdType : VoteThresholdType
  voteThresholdValue : Option ℤ
  voteQuorumType : VoteQuorumType
  voteQuorumValue : Option ℤ
  voteEligibility : VoteEligibility
  interestedWeight : InterestedWeight
deriving DecidableEq

/-- The columns of an event's policy row that `effectivePolicy` reads. -/
structure EventPolicyRow extends VotingPolicy where
  gameAdditionMode : GameAdditionMode
  votingWindowHours : Option ℤ
deriving DecidableEq

structure OccurrencePolicyRow where
  gameAdditionMode : Option GameAdditionMode
  voteThresholdType : Option VoteThresholdType
  voteThresholdValue : Option ℤ
  voteQuorumType : Option VoteQuorumType
  voteQuorumValue : Option ℤ
  voteEligibility : Option VoteEligibility
  interestedWeight : Option InterestedWeight
  votingWindowHours : Option ℤ
deriving DecidableEq

abbrev EffectivePolicy := EventPolicyRow

def effectivePolicy (eventPolicy : Option EventPolicyRow) (occPolicy : Option OccurrencePolicyRow) :
    EffectivePolicy :=
  let base := eventPolicy.getD
    ⟨⟨.simpleMajority, none, .none, none, .confirmedOnly, .asAbstain⟩, .direct, none⟩
  match occPolicy with
  | none => base
  | some own =>
    { gameAdditionMode := own.gameAdditionMode.getD base.gameAdditionMode
      voteThresholdType := own.voteThresholdType.getD base.voteThresholdType
      voteThresholdValue := own.voteThresholdValue <|> base.voteThresholdValue
      voteQuorumType := own.voteQuorumType.getD base.voteQuorumType
      voteQuorumValue := own.voteQuorumValue <|> base.voteQuorumValue
      voteEligibility := own.voteEligibility.getD base.voteEligibility
      interestedWeight := own.interestedWeight.getD base.interestedWeight
      votingWindowHours := own.votingWindowHours <|> base.votingWindowHours }

/-- The voting controls of `CreateEventPolicyDto`. -/
structure CreateEventPolicyDto where
  gameAdditionMode : Option GameAdditionMode
  voteThresholdType : Option VoteThresholdType
  voteThresholdValue : Option ℤ
  voteQuorumType : Option VoteQuorumType
  voteQuorumValue : Option ℤ
  voteEligibility : Option VoteEligibility
  interestedWeight : Option InterestedWeight
  votingWindowHours : Option ℤ
deriving DecidableEq

/-- The checks on the controls: a value is looked at only when the rule that
    uses it is named. -/
def CreateEventPolicyDto.admitted (dto : CreateEventPolicyDto) : Bool :=
  (!(dto.voteThresholdType == some .supermajority || dto.voteThresholdType == some .fixedCount) ||
      dto.voteThresholdValue.any (1 ≤ ·)) &&
    (!(dto.voteQuorumType == some .percentOfAttendees || dto.voteQuorumType == some .fixedCount) ||
      dto.voteQuorumValue.any (1 ≤ ·)) &&
    dto.votingWindowHours.all (1 ≤ ·)

def CreateEventPolicyDto.row (dto : CreateEventPolicyDto) : EventPolicyRow :=
  { gameAdditionMode := dto.gameAdditionMode.getD .direct
    voteThresholdType := dto.voteThresholdType.getD .simpleMajority
    voteThresholdValue := dto.voteThresholdValue
    voteQuorumType := dto.voteQuorumType.getD .none
    voteQuorumValue := dto.voteQuorumValue
    voteEligibility := dto.voteEligibility.getD .confirmedOnly
    interestedWeight := dto.interestedWeight.getD .asAbstain
    votingWindowHours := dto.votingWindowHours }

end Policies

section Resolver

/-- `Math.ceil(count * (percent / 100))` in double arithmetic. -/
def doublePercentOf (count : ℕ) (percent : ℤ) : ℤ :=
  ⌈round 53 ((count : ℚ) * round 53 ((percent : ℚ) / 100))⌉

def exactPercentOf (count : ℕ) (percent : ℤ) : ℤ := ⌈(count : ℚ) * ((percent : ℚ) / 100)⌉

theorem doublePercentOf_nonpos_iff (count : ℕ) (percent : ℤ) :
  doublePercentOf count percent ≤ 0 ↔ count = 0 ∨ percent ≤ 0 := by
 have hpositive : ∀ x : ℚ, ⌈round 53 x⌉ ≤ 0 ↔ x ≤ 0 := by
  intro x
  rw [Int.ceil_le, Int.cast_zero, ← not_lt, ← not_lt, round_pos_iff (by norm_num)]
 rw [doublePercentOf, hpositive]
 rcases Nat.eq_zero_or_pos count with rfl | hcount
 · simp
 have hcast : (0 : ℚ) < count := by exact_mod_cast hcount
 have hcancel : (count : ℚ) * round 53 ((percent : ℚ) / 100) ≤ 0 ↔ round 53 ((percent : ℚ) / 100) ≤ 0 := by
  rw [← not_lt, mul_pos_iff_of_pos_left hcast, not_lt]
 rw [or_iff_right (by omega), hcancel, ← not_lt, round_pos_iff (by norm_num), not_lt,
  div_le_iff₀ (by norm_num),
  zero_mul]
 exact_mod_cast Iff.rfl

variable (percentOf : ℕ → ℤ → ℤ)

def checkQuorum (totalVotes eligibleCount : ℕ) (policy : VotingPolicy) : Bool :=
  match policy.voteQuorumType with
  | .none => true
  | .fixedCount => policy.voteQuorumValue.getD 1 ≤ totalVotes
  | .percentOfAttendees =>
    eligibleCount != 0 && percentOf eligibleCount (policy.voteQuorumValue.getD 50) ≤ totalVotes

def checkThreshold (tally : VoteTally) (eligibleCount : ℕ) (policy : VotingPolicy) : Bool :=
  match policy.voteThresholdType with
  | .simpleMajority => 0 < tally.totalVotes && tally.totalVotes < 2 * tally.forCount
  | .supermajority =>
    0 < tally.totalVotes && percentOf tally.totalVotes (policy.voteThresholdValue.getD 66) ≤ tally.forCount
  | .unanimous => tally.againstCount == 0 && tally.forCount == eligibleCount
  | .fixedCount => policy.voteThresholdValue.getD 1 ≤ tally.forCount

def resolve (votes : List VoteStub) (policy : VotingPolicy) (attendees : List AttendeeStub) :
    ResolutionResult :=
  let eligibleCount := attendees.countP (isEligibleVoter policy.voteEligibility)
  let counted := votes.filter fun vote => isEligibleVoter policy.voteEligibility vote.voter
  let tally := tally counted policy.interestedWeight
  let quorumMet := checkQuorum percentOf tally.totalVotes eligibleCount policy
  let thresholdMet := checkThreshold percentOf tally eligibleCount policy
  ⟨if !quorumMet then .quorumNotMet else if thresholdMet then .passed else .failed,
    tally, quorumMet, thresholdMet, eligibleCount⟩

end Resolver

section Elections

structure Roster where
  attendees : List (ℕ × AttendeeStub)
  distinct : (attendees.map Prod.fst).Nodup

def Roster.stubs (roster : Roster) : List AttendeeStub := roster.attendees.map Prod.snd

structure Ballots (roster : Roster) where
  votes : List (ℕ × VoteType)
  distinct : (votes.map Prod.fst).Nodup
  voters : ∀ vote ∈ votes, vote.1 ∈ roster.attendees.map Prod.fst

variable {roster : Roster}

def Ballots.cast (ballots : Ballots roster) : List (ℕ × VoteStub) :=
  ballots.votes.filterMap fun vote => (roster.attendees.lookup vote.1).map fun voter =>
   (vote.1, ⟨vote.2, voter⟩)

def Ballots.stubs (ballots : Ballots roster) : List VoteStub := ballots.cast.map Prod.snd

def Ballots.result (percentOf : ℕ → ℤ → ℤ) (ballots : Ballots roster) (policy : VotingPolicy) :
    ResolutionResult :=
  resolve percentOf ballots.stubs policy roster.stubs

def supports (weight : InterestedWeight) (voteType : VoteType) : Bool :=
  voteType == .inFavour || (weight == .asFor && voteType == .interested)

def opposes (weight : InterestedWeight) (voteType : VoteType) : Bool :=
  voteType == .against || (weight == .asAgainst && voteType == .interested)

def Roster.eligibleCount (roster : Roster) (eligibility : VoteEligibility) : ℕ :=
  roster.stubs.countP (isEligibleVoter eligibility)

def Ballots.countOf (ballots : Ballots roster) (eligibility : VoteEligibility) (kind : VoteType →
    Bool) : ℕ :=
  ballots.cast.countP fun vote => isEligibleVoter eligibility vote.2.voter && kind vote.2.voteType

theorem lookup_attendee {id : ℕ} {stub : AttendeeStub} :
  roster.attendees.lookup id = some stub ↔ (id, stub) ∈ roster.attendees := by
 obtain ⟨attendees, hdistinct⟩ := roster
 dsimp only
 induction attendees with
 | nil => simp
 | cons entry rest ih =>
  rw [List.map_cons, List.nodup_cons] at hdistinct
  rw [List.lookup_cons]
  by_cases hid : id = entry.1
  · subst hid
    simp only [beq_self_eq_true, List.mem_cons]
    constructor
    · exact fun h => .inl (Prod.ext rfl (Option.some.inj h).symm)
    · rintro (h | h)
      · exact congrArg (some ·.2) h.symm
      · exact absurd (List.mem_map_of_mem (f := Prod.fst) h) hdistinct.1
  · have hne : ¬ (id, stub) = entry := fun h => hid (h ▸ rfl)
    simp only [beq_eq_false_iff_ne.2 hid, ih hdistinct.2, List.mem_cons, or_iff_right hne]

theorem mem_cast {ballots : Ballots roster} {id : ℕ} {vote : VoteStub} :
  (id, vote) ∈ ballots.cast ↔ (id, vote.voteType) ∈ ballots.votes ∧
   (id, vote.voter) ∈ roster.attendees := by
 simp only [Ballots.cast, List.mem_filterMap, Option.map_eq_some_iff, lookup_attendee, Prod.mk.injEq]
 constructor
 · rintro ⟨⟨_, voteType⟩, hvote, voter, hvoter, rfl, rfl⟩
   exact ⟨hvote, hvoter⟩
 · rintro ⟨hvote, hvoter⟩
   exact ⟨_, hvote, vote.voter, hvoter, rfl, rfl⟩

theorem cast_ids (ballots : Ballots roster) :
  ballots.cast.map Prod.fst = ballots.votes.map Prod.fst := by
 have hfound : ∀ votes : List (ℕ × VoteType), (∀ vote ∈ votes, vote.1 ∈ roster.attendees.map Prod.fst) →
   (votes.filterMap fun vote => (roster.attendees.lookup vote.1).map fun voter =>
    (vote.1, (⟨vote.2, voter⟩ : VoteStub))).map Prod.fst = votes.map Prod.fst := by
  intro votes hvoters
  induction votes with
  | nil => rfl
  | cons vote rest ih =>
   obtain ⟨entry, hentry, hid⟩ := List.mem_map.1 (hvoters vote List.mem_cons_self)
   have hlookup : roster.attendees.lookup vote.1 = some entry.2 := lookup_attendee.2 (hid ▸ hentry)
   rw [List.filterMap_cons, hlookup, Option.map_some, List.map_cons, List.map_cons,
    ih fun v hv => hvoters v (List.mem_cons_of_mem _ hv)]
 exact hfound ballots.votes ballots.voters

theorem tally_counts (ballots : Ballots roster) (eligibility : VoteEligibility)
  (weight : InterestedWeight) :
  tally (ballots.stubs.filter fun vote => isEligibleVoter eligibility vote.voter) weight =
   ⟨ballots.countOf eligibility (supports weight), ballots.countOf eligibility (opposes weight),
    ballots.countOf eligibility (· == .interested),
    ballots.countOf eligibility (supports weight) + ballots.countOf eligibility (opposes weight)⟩ := by
 -- two kinds of votes that do not meet are counted apart
 have hcount : ∀ kind : VoteType → Bool, ballots.countOf eligibility kind =
   (ballots.stubs.filter fun vote => isEligibleVoter eligibility vote.voter).countP fun vote =>
    kind vote.voteType := by
  intro kind
  rw [Ballots.countOf, Ballots.stubs, List.countP_filter, List.countP_map]
  refine List.countP_congr fun vote _ => ?_
  simp [and_comm]
 have hsum : ∀ (votes : List VoteStub) (kind : VoteType → Bool), kind .interested = false →
   votes.countP (fun vote => kind vote.voteType || vote.voteType == .interested) =
    votes.countP (fun vote => kind vote.voteType) + countType votes .interested := by
  intro votes kind hkind
  induction votes with
  | nil => rfl
  | cons vote rest ih =>
   simp only [List.countP_cons, countType] at ih ⊢
   rw [ih]
   cases hvote : vote.voteType <;> simp [hkind] <;> omega
 simp only [hcount]
 generalize ballots.stubs.filter (fun vote => isEligibleVoter eligibility vote.voter) = counted
 cases weight with
 | asFor =>
  have hsupports : supports .asFor = fun voteType => voteType == .inFavour || voteType == .interested := by
   funext voteType
   cases voteType <;> rfl
  have hopposes : opposes .asFor = fun voteType => voteType == .against := by
   funext voteType
   cases voteType <;> rfl
  rw [hsupports, hopposes, hsum counted (· == .inFavour) rfl]
  rfl
 | asAgainst =>
  have hsupports : supports .asAgainst = fun voteType => voteType == .inFavour := by
   funext voteType
   cases voteType <;> rfl
  have hopposes :
   opposes .asAgainst = fun voteType => voteType == .against || voteType == .interested := by
   funext voteType
   cases voteType <;> rfl
  rw [hsupports, hopposes, hsum counted (· == .against) rfl]
  rfl
 | asAbstain =>
  have hsupports : supports .asAbstain = fun voteType => voteType == .inFavour := by
   funext voteType
   cases voteType <;> rfl
  have hopposes : opposes .asAbstain = fun voteType => voteType == .against := by
   funext voteType
   cases voteType <;> rfl
  rw [hsupports, hopposes]
  rfl

theorem countOf_le (ballots : Ballots roster) (eligibility : VoteEligibility)
  (kind : VoteType → Bool) :
  ballots.countOf eligibility kind ≤ roster.eligibleCount eligibility := by
 have hids : (ballots.cast.map fun vote => (vote.1, vote.2.voter)).Nodup := by
  apply List.Nodup.of_map Prod.fst
  rw [List.map_map]
  exact cast_ids ballots ▸ ballots.distinct
 have hsub : (ballots.cast.map fun vote => (vote.1, vote.2.voter)) ⊆ roster.attendees := by
  intro entry hentry
  obtain ⟨vote, hvote, rfl⟩ := List.mem_map.1 hentry
  exact (mem_cast.1 hvote).2
 have hvoters := (hids.subperm hsub).countP_le fun entry => isEligibleVoter eligibility entry.2
 rw [List.countP_map] at hvoters
 calc ballots.countOf eligibility kind
     ≤ ballots.cast.countP ((fun entry => isEligibleVoter eligibility entry.2) ∘ fun vote =>
      (vote.1, vote.2.voter)) :=
       List.countP_mono_left fun vote _ h => (Bool.and_eq_true_iff.1 h).1
  _ ≤ roster.attendees.countP fun entry => isEligibleVoter eligibility entry.2 := hvoters
  _ = roster.eligibleCount eligibility := by rw [Roster.eligibleCount, Roster.stubs, List.countP_map]; rfl

end Elections

end BoardGamesEmpire.VoteResolver
