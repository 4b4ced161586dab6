import BoardGamesEmpire.VoteResolver

set_option autoImplicit false

/-!
# What a vote's result depends on

Which rules can pass a game that nobody backs, and how the result moves when
votes and attendees are reordered, left out, or turned in a game's favour.
-/
namespace BoardGamesEmpire.VoteResolver
open BinaryRounding EventPlanning

section Results

variable {roster : Roster} {percentOf : ℕ → ℤ → ℤ} {policy : VotingPolicy}

theorem result_quorumMet (ballots : Ballots roster) (percentOf : ℕ → ℤ → ℤ) (policy : VotingPolicy) :
  (ballots.result percentOf policy).quorumMet = checkQuorum percentOf
   (ballots.countOf policy.voteEligibility (supports policy.interestedWeight) +
    ballots.countOf policy.voteEligibility (opposes policy.interestedWeight))
   (roster.eligibleCount policy.voteEligibility) policy := by
 rw [Ballots.result, resolve]
 dsimp only
 rw [tally_counts]
 rfl

theorem result_passed_iff (ballots : Ballots roster) (percentOf : ℕ → ℤ → ℤ) (policy : VotingPolicy) :
  (ballots.result percentOf policy).status = .passed ↔
   (ballots.result percentOf policy).quorumMet = true ∧
    checkThreshold percentOf
     ⟨ballots.countOf policy.voteEligibility (supports policy.interestedWeight),
      ballots.countOf policy.voteEligibility (opposes policy.interestedWeight),
      ballots.countOf policy.voteEligibility (· == .interested),
      ballots.countOf policy.voteEligibility (supports policy.interestedWeight) +
       ballots.countOf policy.voteEligibility (opposes policy.interestedWeight)⟩
     (roster.eligibleCount policy.voteEligibility) policy = true := by
 rw [Ballots.result, resolve]
 dsimp only
 rw [tally_counts, Roster.eligibleCount]
 generalize checkQuorum percentOf _ _ policy = quorumMet
 generalize checkThreshold percentOf _ _ policy = thresholdMet
 cases quorumMet <;> cases thresholdMet <;> simp

theorem checkQuorum_mono {total total' eligibleCount : ℕ} (h : total ≤ total')
  (hmet : checkQuorum percentOf total eligibleCount policy = true) :
  checkQuorum percentOf total' eligibleCount policy = true := by
 unfold checkQuorum at hmet ⊢
 split at hmet
 · rfl
 · simp only [decide_eq_true_eq] at hmet ⊢
   omega
 · simp only [Bool.and_eq_true, decide_eq_true_eq] at hmet ⊢
   exact ⟨hmet.1, by omega⟩

end Results

section Support

variable {roster : Roster}

def Supported (ballots : Ballots roster) (policy : VotingPolicy) : Prop :=
  ∃ vote ∈ ballots.cast, isEligibleVoter policy.voteEligibility vote.2.voter = true ∧
    supports policy.interestedWeight vote.2.voteType = true

/-- Either not even the votes of every eligible attendee meet the quorum, or
    the rule asks for someone in favour. -/
def AsksForSupport (percentOf : ℕ → ℤ → ℤ) (policy : VotingPolicy) (eligibleCount : ℕ) : Prop :=
  checkQuorum percentOf eligibleCount eligibleCount policy = false ∨
    match policy.voteThresholdType with
    | .simpleMajority => True
    | .supermajority => 0 < policy.voteThresholdValue.getD 66 ∨ eligibleCount = 0
    | .unanimous => 0 < eligibleCount
    | .fixedCount => 0 < policy.voteThresholdValue.getD 1

theorem countOf_pos_iff (ballots : Ballots roster) (policy : VotingPolicy) :
  0 < ballots.countOf policy.voteEligibility (supports policy.interestedWeight) ↔
   Supported ballots policy := by
 simp only [Ballots.countOf, List.countP_pos_iff, Bool.and_eq_true, Supported]

def Roster.allAgainst (roster : Roster) (eligibility : VoteEligibility) : Ballots roster where
  votes := (roster.attendees.filter fun entry => isEligibleVoter eligibility entry.2).map
   fun entry => (entry.1, .against)
  distinct := by
    rw [List.map_map]
    exact roster.distinct.sublist (List.filter_sublist.map _)
  voters := by
    intro vote hvote
    obtain ⟨entry, hentry, rfl⟩ := List.mem_map.1 hvote
    exact List.mem_map_of_mem (List.mem_filter.1 hentry).1

theorem allAgainst_counts (eligibility : VoteEligibility) (weight : InterestedWeight) :
  (roster.allAgainst eligibility).countOf eligibility (supports weight) = 0 ∧
   (roster.allAgainst eligibility).countOf eligibility (opposes weight) = roster.eligibleCount
    eligibility := by
 have hagainst : ∀ vote ∈ (roster.allAgainst eligibility).cast,
   vote.2.voteType = .against ∧ isEligibleVoter eligibility vote.2.voter = true := by
  intro vote hvote
  obtain ⟨hcast, hvoter⟩ := mem_cast.1 hvote
  obtain ⟨entry, hentry, heq⟩ := List.mem_map.1 hcast
  obtain ⟨hid, htype⟩ := Prod.mk.inj heq
  obtain ⟨hmem, heligible⟩ := List.mem_filter.1 hentry
  refine ⟨htype.symm, ?_⟩
  have hsame : roster.attendees.lookup vote.1 = some entry.2 := lookup_attendee.2 (hid ▸ hmem)
  rw [lookup_attendee.2 hvoter] at hsame
  rw [Option.some.inj hsame]
  exact heligible
 constructor
 · rw [Ballots.countOf, List.countP_eq_zero]
   intro vote hvote
   simp [(hagainst vote hvote).1, supports]
 · have hall : (roster.allAgainst eligibility).countOf eligibility (opposes weight) =
     (roster.allAgainst eligibility).cast.length := by
    rw [Ballots.countOf, List.countP_eq_length]
    intro vote hvote
    simp [hagainst vote hvote, opposes]
   rw [hall, ← List.length_map (f := Prod.fst), cast_ids, Roster.allAgainst, Roster.eligibleCount,
    Roster.stubs,
    List.countP_map, List.countP_eq_length_filter, List.length_map, List.length_map]
   rfl

theorem checkThreshold_unsupported {percentOf : ℕ → ℤ → ℤ}
  (hpercent : ∀ count percent, percentOf count percent ≤ 0 ↔ count = 0 ∨ percent ≤ 0)
  (policy : VotingPolicy) (against interested eligibleCount : ℕ) :
  checkThreshold percentOf ⟨0, against, interested, 0 + against⟩ eligibleCount policy = true ↔
   match policy.voteThresholdType with
   | .simpleMajority => False
   | .supermajority => policy.voteThresholdValue.getD 66 ≤ 0 ∧ 0 < against
   | .unanimous => against = 0 ∧ eligibleCount = 0
   | .fixedCount => policy.voteThresholdValue.getD 1 ≤ 0 := by
 unfold checkThreshold
 cases policy.voteThresholdType with
 | simpleMajority => simp
 | supermajority =>
  simp only [Bool.and_eq_true, decide_eq_true_eq, zero_add, Nat.cast_zero, hpercent]
  omega
 | unanimous =>
  simp only [Bool.and_eq_true, beq_iff_eq]
  omega
 | fixedCount => simp

/-- A game passes unbacked under a policy exactly when the policy asks for no
    backing of the attendees who may vote. -/
theorem passed_supported_iff (eventPolicy : Option EventPolicyRow)
    (occPolicy : Option OccurrencePolicyRow) (roster : Roster) :
    (∀ ballots : Ballots roster,
      (ballots.result doublePercentOf (effectivePolicy eventPolicy occPolicy).toVotingPolicy).status
       = .passed →
        Supported ballots (effectivePolicy eventPolicy occPolicy).toVotingPolicy) ↔
      AsksForSupport doublePercentOf (effectivePolicy eventPolicy occPolicy).toVotingPolicy
        (roster.eligibleCount (effectivePolicy eventPolicy occPolicy).voteEligibility) := by
 generalize (effectivePolicy eventPolicy occPolicy).toVotingPolicy = policy
 constructor
 · intro hsupported
   by_contra hnone
   have hcounts : (roster.allAgainst policy.voteEligibility).countOf policy.voteEligibility
      (supports policy.interestedWeight) = 0 ∧
     (roster.allAgainst policy.voteEligibility).countOf policy.voteEligibility
      (opposes policy.interestedWeight) =
      roster.eligibleCount policy.voteEligibility := allAgainst_counts _ _
   have hnot : ¬ Supported (roster.allAgainst policy.voteEligibility) policy := by
    rw [← countOf_pos_iff, hcounts.1]
    exact lt_irrefl 0
   apply hnot
   apply hsupported
   rw [AsksForSupport, not_or, Bool.not_eq_false] at hnone
   rw [result_passed_iff, result_quorumMet, hcounts.1, hcounts.2, zero_add]
   refine ⟨hnone.1, ?_⟩
   have hthreshold := checkThreshold_unsupported doublePercentOf_nonpos_iff policy
    (roster.eligibleCount policy.voteEligibility)
    ((roster.allAgainst policy.voteEligibility).countOf policy.voteEligibility (· == .interested))
    (roster.eligibleCount policy.voteEligibility)
   rw [zero_add] at hthreshold
   rw [hthreshold]
   obtain ⟨-, hrule⟩ := hnone
   cases hkind : policy.voteThresholdType with
   | simpleMajority => simp [hkind] at hrule
   | supermajority =>
    simp only [hkind] at hrule ⊢
    omega
   | unanimous =>
    simp only [hkind] at hrule ⊢
    omega
   | fixedCount =>
    simp only [hkind] at hrule ⊢
    omega
 · intro hasks ballots hpassed
   rw [← countOf_pos_iff]
   by_contra hnone
   have hzero : ballots.countOf policy.voteEligibility (supports policy.interestedWeight) = 0 := by omega
   obtain ⟨hquorum, hthreshold⟩ := (result_passed_iff ballots doublePercentOf policy).1 hpassed
   have hle := countOf_le ballots policy.voteEligibility (opposes policy.interestedWeight)
   rw [result_quorumMet, hzero, zero_add] at hquorum
   rw [hzero, checkThreshold_unsupported doublePercentOf_nonpos_iff] at hthreshold
   rcases hasks with hunmet | hrule
   · rw [checkQuorum_mono hle hquorum] at hunmet
     cases hunmet
   · cases hkind : policy.voteThresholdType with
     | simpleMajority =>
      simp only [hkind] at hthreshold
     | supermajority =>
      simp only [hkind] at hrule hthreshold
      omega
     | unanimous =>
      simp only [hkind] at hrule hthreshold
      omega
     | fixedCount =>
      simp only [hkind] at hrule hthreshold
      omega

/-- A unanimous vote of nobody: the one attendee has not confirmed, so nobody may vote. -/
theorem unanimous_of_nobody :
    ¬ ∀ (dto : CreateEventPolicyDto) (occPolicy : Option OccurrencePolicyRow) (roster : Roster) (ballots : Ballots roster),
      dto.admitted = true →
      (ballots.result doublePercentOf
       (effectivePolicy (some dto.row) occPolicy).toVotingPolicy).status = .passed →
        Supported ballots (effectivePolicy (some dto.row) occPolicy).toVotingPolicy := by
 intro h
 obtain ⟨vote, hvote, -⟩ :=
  h ⟨some .requiresVote, some .unanimous, none, none, none, none, none, none⟩ none
  ⟨[(1, ⟨.invited, none, some 7, [], true⟩)], by decide⟩ ⟨[], by decide, by decide⟩ (by decide) (by decide)
 exact absurd hvote (List.not_mem_nil (a := vote))

end Support

section Electorates

variable {roster roster' : Roster} {percentOf : ℕ → ℤ → ℤ} {policy : VotingPolicy}

def Ballots.counted (ballots : Ballots roster) (eligibility : VoteEligibility) : List (ℕ × VoteStub) :=
  ballots.cast.filter fun vote => isEligibleVoter eligibility vote.2.voter

def Roster.voters (roster : Roster) : List (ℕ × AttendeeStub) :=
  roster.attendees.filter fun entry => countsAsVoter entry.2

theorem eligibleCount_voters (roster : Roster) (eligibility : VoteEligibility) :
  roster.eligibleCount eligibility = roster.voters.countP fun entry =>
   isEligibleVoter eligibility entry.2 := by
 rw [Roster.eligibleCount, Roster.stubs, List.countP_map, Roster.voters, List.countP_filter]
 refine List.countP_congr fun entry _ => ?_
 simp only [Function.comp_apply, isEligibleVoter, Bool.and_eq_true]
 tauto

theorem result_congr (ballots : Ballots roster) (ballots' : Ballots roster')
  (hvotes : (ballots.counted policy.voteEligibility).Perm (ballots'.counted policy.voteEligibility))
  (hvoters : roster.voters.Perm roster'.voters) :
  ballots.result percentOf policy = ballots'.result percentOf policy := by
 have hstubs : ∀ {r : Roster} (b : Ballots r),
   (b.stubs.filter fun vote => isEligibleVoter policy.voteEligibility vote.voter) =
    (b.counted policy.voteEligibility).map Prod.snd := by
  intro r b
  rw [Ballots.stubs, Ballots.counted, List.filter_map]
  rfl
 have heligible :
  roster.eligibleCount policy.voteEligibility = roster'.eligibleCount policy.voteEligibility := by
  rw [eligibleCount_voters, eligibleCount_voters, hvoters.countP_eq]
 have htally : tally ((ballots.counted policy.voteEligibility).map Prod.snd) policy.interestedWeight =
   tally ((ballots'.counted policy.voteEligibility).map Prod.snd) policy.interestedWeight := by
  unfold tally countType
  rw [(hvotes.map _).countP_eq, (hvotes.map _).countP_eq, (hvotes.map _).countP_eq]
 rw [Roster.eligibleCount, Roster.eligibleCount] at heligible
 simp only [Ballots.result, resolve, hstubs, htally, heligible]

theorem lookup_perm (h : roster.attendees.Perm roster'.attendees) (id : ℕ) :
  roster.attendees.lookup id = roster'.attendees.lookup id := by
 apply Option.ext
 intro stub
 rw [lookup_attendee, lookup_attendee, h.mem_iff]

theorem cast_perm {ballots : Ballots roster} {ballots' : Ballots roster'}
  (hvotes : ballots.votes.Perm ballots'.votes)
  (hattendees : roster.attendees.Perm roster'.attendees) : ballots.cast.Perm ballots'.cast := by
 simp only [Ballots.cast, lookup_perm hattendees]
 exact hvotes.filterMap _

end Electorates

section Monotone

variable {roster : Roster} {policy : VotingPolicy}

/-- One eligible attendee's vote is turned to For, or a For vote of theirs is added. -/
def TurnsInFavour (policy : VotingPolicy) (ballots ballots' : Ballots roster) : Prop :=
  ∃ id voter before after, (id, voter) ∈ roster.attendees ∧
   isEligibleVoter policy.voteEligibility voter = true ∧
    ballots'.votes = before ++ (id, .inFavour) :: after ∧
    (ballots.votes = before ++ after ∨
      ∃ voteType, voteType ≠ .inFavour ∧ ballots.votes = before ++ (id, voteType) :: after)

def countIn (roster : Roster) (eligibility : VoteEligibility) (kind : VoteType → Bool)
    (votes : List (ℕ × VoteType)) : ℕ :=
  (votes.filterMap fun vote => (roster.attendees.lookup vote.1).map fun voter =>
   (vote.1, (⟨vote.2, voter⟩ : VoteStub))).countP
    fun vote => isEligibleVoter eligibility vote.2.voter && kind vote.2.voteType

theorem countIn_append (eligibility : VoteEligibility) (kind : VoteType → Bool)
  (votes more : List (ℕ × VoteType)) :
  countIn roster eligibility kind (votes ++ more) =
   countIn roster eligibility kind votes + countIn roster eligibility kind more := by
 rw [countIn, List.filterMap_append, List.countP_append]
 rfl

theorem countIn_cons {eligibility : VoteEligibility} (kind : VoteType → Bool) {id : ℕ}
  {voter : AttendeeStub} (hvoter : (id, voter) ∈ roster.attendees)
  (heligible : isEligibleVoter eligibility voter = true) (voteType : VoteType)
  (votes : List (ℕ × VoteType)) :
  countIn roster eligibility kind ((id, voteType) :: votes) =
   countIn roster eligibility kind votes + (kind voteType).toNat := by
 rw [countIn, List.filterMap_cons, lookup_attendee.2 hvoter, Option.map_some, List.countP_cons]
 cases hkind : kind voteType <;> simp [heligible, countIn]

theorem TurnsInFavour.counts {ballots ballots' : Ballots roster}
  (h : TurnsInFavour policy ballots ballots') :
  let supporting := supports policy.interestedWeight
  let opposing := opposes policy.interestedWeight
  (ballots'.countOf policy.voteEligibility supporting = ballots.countOf policy.voteEligibility supporting ∧
   ballots'.countOf policy.voteEligibility opposing = ballots.countOf policy.voteEligibility opposing) ∨
  (ballots'.countOf policy.voteEligibility supporting = ballots.countOf policy.voteEligibility
   supporting + 1 ∧
   ballots'.countOf policy.voteEligibility opposing ≤ ballots.countOf policy.voteEligibility opposing ∧
   ballots.countOf policy.voteEligibility opposing ≤
    ballots'.countOf policy.voteEligibility opposing + 1) := by
 intro supporting opposing
 obtain ⟨id, voter, before, after, hvoter, heligible, hafter, hbefore⟩ := h
 have hcount : ∀ (b : Ballots roster) (kind : VoteType → Bool),
   b.countOf policy.voteEligibility kind = countIn roster policy.voteEligibility kind b.votes := fun _ _ => rfl
 have hfavour : supporting .inFavour = true ∧ opposing .inFavour = false := by
  simp [supporting, opposing, supports, opposes]
 simp only [hcount, hafter, countIn_append, countIn_cons _ hvoter heligible, hfavour, Bool.toNat_true,
  Bool.toNat_false]
 rcases hbefore with hbefore | ⟨voteType, hother, hbefore⟩
 · rw [hbefore, countIn_append, countIn_append]
   right
   omega
 · rw [hbefore, countIn_append, countIn_append, countIn_cons _ hvoter heligible,
    countIn_cons _ hvoter heligible]
   -- an Interested vote may have counted as For already; no vote counts both ways
   have hkinds : (supporting voteType = true ∧ opposing voteType = false) ∨
    supporting voteType = false := by
    cases voteType with
    | inFavour => exact absurd rfl hother
    | against => exact .inr (by simp [supporting, supports])
    | interested => cases hweight :
     policy.interestedWeight <;> simp [supporting, opposing, supports, opposes, hweight]
   rcases hkinds with ⟨hyes, hno⟩ | hno
   · left
     simp only [hyes, hno, Bool.toNat_true, Bool.toNat_false, and_self]
   · right
     simp only [hno, Bool.toNat_false]
     have hone := Bool.toNat_le (opposing voteType)
     omega

theorem exactPercentOf_le_iff (count : ℕ) (percent : ℤ) (votes : ℕ) :
  exactPercentOf count percent ≤ votes ↔ percent * count ≤ 100 * votes := by
 have hscale : (count : ℚ) * ((percent : ℚ) / 100) = (percent * count : ℚ) / 100 := by ring
 rw [exactPercentOf, Int.ceil_le, hscale, div_le_iff₀ (by norm_num), mul_comm (((votes : ℤ) : ℚ))]
 exact_mod_cast Iff.rfl

theorem checkThreshold_interested {percentOf : ℕ → ℤ → ℤ}
  {supporting against interested interested' total eligibleCount : ℕ}
  (h : checkThreshold percentOf ⟨supporting, against, interested, total⟩ eligibleCount policy = true) :
  checkThreshold percentOf ⟨supporting, against, interested', total⟩ eligibleCount policy = true := h

theorem share_mono {percent : ℤ} (hpercent : percent ≤ 100) {votes votes' total total' : ℕ}
  (hvotes : votes' = votes + 1) (htotal : total ≤ total') (htotal' : total' ≤ total + 1)
  (h : percent * total ≤ 100 * votes) : percent * total' ≤ 100 * votes' := by
 subst hvotes
 obtain rfl | rfl : total' = total ∨ total' = total + 1 := by omega
 · push_cast
   omega
 · push_cast
   rw [mul_add, mul_one, mul_add]
   omega

theorem checkThreshold_mono
  (hpercent : policy.voteThresholdType = .supermajority → policy.voteThresholdValue.getD 66 ≤ 100)
  {supporting against interested interested' supporting' against' : ℕ} {eligibleCount : ℕ}
  (hsupporting : supporting' = supporting + 1) (hagainst : against' ≤ against)
   (hone : against ≤ against' + 1)
  (hle : supporting' ≤ eligibleCount)
  (h : checkThreshold exactPercentOf ⟨supporting, against, interested, supporting + against⟩
   eligibleCount policy = true) :
  checkThreshold exactPercentOf ⟨supporting', against', interested', supporting' + against'⟩
   eligibleCount policy = true := by
 unfold checkThreshold at h ⊢
 cases hkind : policy.voteThresholdType with
 | simpleMajority =>
  simp only [hkind, Bool.and_eq_true, decide_eq_true_eq] at h ⊢
  omega
 | supermajority =>
  simp only [hkind, Bool.and_eq_true, decide_eq_true_eq, exactPercentOf_le_iff] at h ⊢
  exact ⟨by omega, share_mono (hpercent hkind) hsupporting (by omega) (by omega) h.2⟩
 | unanimous =>
  -- everyone eligible was in favour already
  simp only [hkind, Bool.and_eq_true, beq_iff_eq] at h
  omega
 | fixedCount =>
  simp only [hkind, decide_eq_true_eq] at h ⊢
  omega

theorem TurnsInFavour.keeps {ballots ballots' : Ballots roster}
  (hpercent : policy.voteThresholdType = .supermajority → policy.voteThresholdValue.getD 66 ≤ 100)
  (h : TurnsInFavour policy ballots ballots') :
  ((ballots.result exactPercentOf policy).status = .passed →
   (ballots'.result exactPercentOf policy).status = .passed) ∧
  ((ballots.result exactPercentOf policy).quorumMet = true →
   (ballots'.result exactPercentOf policy).quorumMet = true) := by
 have hcounts := h.counts
 have hle := countOf_le ballots' policy.voteEligibility (supports policy.interestedWeight)
 have hquorum : (ballots.result exactPercentOf policy).quorumMet = true →
   (ballots'.result exactPercentOf policy).quorumMet = true := by
  rw [result_quorumMet, result_quorumMet]
  apply checkQuorum_mono
  omega
 refine ⟨?_, hquorum⟩
 rw [result_passed_iff, result_passed_iff]
 intro hpassed
 refine ⟨hquorum hpassed.1, ?_⟩
 rcases hcounts with ⟨hsupporting, hopposing⟩ | ⟨hsupporting, hopposing, hone⟩
 · rw [hsupporting, hopposing]
   exact checkThreshold_interested hpassed.2
 · exact checkThreshold_mono hpercent hsupporting hopposing hone hle hpassed.2

/-- The result does not depend on the order of votes and attendees, nor on
    those who have no say; a vote turned in a game's favour never hurts it. -/
theorem resolve_anonymous_monotone (policy : VotingPolicy)
    (hpercent : policy.voteThresholdType = .supermajority → policy.voteThresholdValue.getD 66 ≤ 100) :
    (∀ (roster roster' : Roster) (ballots : Ballots roster) (ballots' : Ballots roster'),
      ballots.votes.Perm ballots'.votes → roster.attendees.Perm roster'.attendees →
        ballots.result exactPercentOf policy = ballots'.result exactPercentOf policy) ∧
    (∀ (roster roster' : Roster) (ballots : Ballots roster) (ballots' : Ballots roster'),
      (ballots.counted policy.voteEligibility).Perm (ballots'.counted policy.voteEligibility) →
      roster.voters.Perm roster'.voters →
        ballots.result exactPercentOf policy = ballots'.result exactPercentOf policy) ∧
    (∀ (roster : Roster) (ballots ballots' : Ballots roster), TurnsInFavour policy ballots ballots' →
      ((ballots.result exactPercentOf policy).status = .passed →
       (ballots'.result exactPercentOf policy).status = .passed) ∧
      ((ballots.result exactPercentOf policy).quorumMet = true →
       (ballots'.result exactPercentOf policy).quorumMet = true)) := by
 refine ⟨?_, ?_, ?_⟩
 · intro roster roster' ballots ballots' hvotes hattendees
   exact result_congr ballots ballots' ((cast_perm hvotes hattendees).filter _) (hattendees.filter _)
 · intro roster roster' ballots ballots' hvotes hvoters
   exact result_congr ballots ballots' hvotes hvoters
 · intro roster ballots ballots' h
   exact h.keeps hpercent

theorem resolve_anonymous_monotone_turned :
    ((⟨[(1, .inFavour), (2, .inFavour), (3, .inFavour)], by decide, by decide⟩ :
      Ballots ⟨[(1, ⟨.attending, none, some 7, [], true⟩), (2, ⟨.attending, none, some 8, [], true⟩),
        (3, ⟨.attending, none, some 9, [], true⟩)], by decide⟩).result exactPercentOf
          ⟨.supermajority, some 66, .none, none, .confirmedOnly, .asAbstain⟩).status = .passed :=
 ((resolve_anonymous_monotone _ (by decide)).2.2 _
  ⟨[(1, .inFavour), (2, .inFavour), (3, .against)], by decide, by decide⟩ _
  ⟨3, ⟨.attending, none, some 9, [], true⟩, [(1, .inFavour), (2, .inFavour)],
   [], by decide, by decide, rfl,
   .inr ⟨.against, by decide, rfl⟩⟩).1 (by decide +kernel)

end Monotone

end BoardGamesEmpire.VoteResolver
