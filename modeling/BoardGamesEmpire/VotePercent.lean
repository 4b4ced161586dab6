import BoardGamesEmpire.VoteResolver

set_option autoImplicit false

/-!
# Percentages of a count

A percentage is asked for as the ceiling of a rounded product of a rounded
quotient. Where the product is lifted past the number of votes, or falls back
onto it, a percentage that is met is refused, or one that is not is granted.
-/
namespace BoardGamesEmpire.VoteResolver
open BinaryRounding EventPlanning

/-- The double nearest `percent / 100`. -/
def nearestShare (percent : ℤ) : ℚ := round 53 ((percent : ℚ) / 100)

/-- The votes are on the wrong side of the rounded product: a percentage they
    meet lies past the half-way point above them, or one they miss does not. -/
def Miscounted (percent : ℤ) (count votes : ℕ) : Prop :=
  0 < votes ∧
    ((percent * count ≤ 100 * votes ∧ ¬ RoundsUpTo 53 (count * nearestShare percent) (votes : ℚ)) ∨
      (100 * votes < percent * count ∧ RoundsUpTo 53 (count * nearestShare percent) (votes : ℚ)))

variable {percent : ℤ}

theorem nearestShare_pos (hpercent : 1 ≤ percent) : 0 < nearestShare percent := by
 have hcast : (1 : ℚ) ≤ percent := by exact_mod_cast hpercent
 exact round_pos (by norm_num) (by linarith)

theorem doublePercentOf_le_iff (hpercent : 1 ≤ percent) {count votes : ℕ} (hcount : 0 < count)
  (hvotes : 0 < votes) :
  doublePercentOf count percent ≤ votes ↔ RoundsUpTo 53 (count * nearestShare percent) (votes : ℚ) := by
 have hproduct : 0 < (count : ℚ) * nearestShare percent :=
  mul_pos (by exact_mod_cast hcount) (nearestShare_pos hpercent)
 rw [doublePercentOf, Int.ceil_le, Int.cast_natCast]
 exact round_le_iff (by norm_num) hproduct (by exact_mod_cast hvotes)

theorem halfway_pos (t : ℚ) (ht : 0 ≤ t) : 0 < halfway 53 t := by
 have hu := ulp_pos 53 t
 have hfloor : (0 : ℚ) ≤ ⌊t / ulp 53 t⌋ := by exact_mod_cast Int.floor_nonneg.2 (div_nonneg ht hu.le)
 exact mul_pos (by linarith) hu

theorem percent_decided_iff (hpercent : 1 ≤ percent) (count votes : ℕ) :
  (doublePercentOf count percent ≤ votes ↔ percent * count ≤ 100 * votes) ↔
   ¬ Miscounted percent count votes := by
 rcases Nat.eq_zero_or_pos count with rfl | hcount
 · -- nothing is asked of an empty count
   have hzero : doublePercentOf 0 percent ≤ 0 := (doublePercentOf_nonpos_iff 0 percent).2 (.inl rfl)
   have hroom : RoundsUpTo 53 (((0 : ℕ) : ℚ) * nearestShare percent) (votes : ℚ) := by
    rw [Nat.cast_zero, zero_mul]
    exact .inl (halfway_pos _ (Nat.cast_nonneg votes))
   refine iff_of_true (iff_of_true (by omega) (by simp)) ?_
   rintro ⟨-, ⟨-, hnot⟩ | ⟨hlt, -⟩⟩
   · exact hnot hroom
   · simp at hlt
     omega
 rcases Nat.eq_zero_or_pos votes with rfl | hvotes
 · have hasked : ¬ doublePercentOf count percent ≤ ((0 : ℕ) : ℤ) := by
    rw [Nat.cast_zero, doublePercentOf_nonpos_iff]
    omega
   have hexact : ¬ percent * count ≤ 100 * ((0 : ℕ) : ℤ) := by
    have hproduct : 0 < percent * count := mul_pos (by omega) (by omega)
    simpa using hproduct
   exact iff_of_true (iff_of_false hasked hexact) fun h => absurd h.1 (lt_irrefl 0)
 rw [doublePercentOf_le_iff hpercent hcount hvotes, Miscounted]
 by_cases hmet : percent * count ≤ 100 * votes <;>
  by_cases hbelow : RoundsUpTo 53 (count * nearestShare percent) (votes : ℚ) <;>
  simp [hmet, hbelow, hvotes, not_le.1, not_lt.2]

theorem nearestShare_error (hpercent : 1 ≤ percent) :
  |(percent : ℚ) / 100 - nearestShare percent| ≤ (percent : ℚ) / 100 / 2 ^ 53 := by
 have hcast : (1 : ℚ) ≤ percent := by exact_mod_cast hpercent
 exact round_error_le (by linarith)

/-- Below `2 ^ 52` a percentage is miscounted only where the votes meet it exactly. -/
theorem miscounted_iff (hpercent : 1 ≤ percent) {count votes : ℕ} (hsize : percent * count < 2 ^ 52)
  (hrange : votes < 2 ^ 53) :
  Miscounted percent count votes ↔ 0 < votes ∧ percent * count = 100 * votes ∧
   ¬ RoundsUpTo 53 (count * nearestShare percent) (votes : ℚ) := by
 have herror := abs_le.1 (nearestShare_error hpercent)
 have hcount : (0 : ℚ) ≤ count := Nat.cast_nonneg count
 have hsizeQ : (percent : ℚ) * count < 2 ^ 52 := by exact_mod_cast hsize
 -- the rounded share is off by less than one part in two to the 53rd
 have hproduct :
  (percent : ℚ) * count / 100 - percent * count / 100 / 2 ^ 53 ≤ count * nearestShare percent ∧
   count * nearestShare percent ≤ (percent : ℚ) * count / 100 + percent * count / 100 / 2 ^ 53 := by
  have hlow := mul_le_mul_of_nonneg_left herror.1 hcount
  have hhigh := mul_le_mul_of_nonneg_left herror.2 hcount
  constructor <;> linarith
 have hstrict : 0 < votes → percent * count < 100 * votes →
   RoundsUpTo 53 (count * nearestShare percent) (votes : ℚ) := by
  intro hvotes hmore
  have hgap : (percent : ℚ) * count + 1 ≤ 100 * votes := by exact_mod_cast hmore
  have hu := ulp_pos 53 (votes : ℚ)
  left
  rw [halfway_natCast hvotes hrange]
  linarith
 have hshort : 0 < votes → 100 * votes < percent * count →
   ¬ RoundsUpTo 53 (count * nearestShare percent) (votes : ℚ) := by
  intro hvotes hless
  have hgap : 100 * (votes : ℚ) + 1 ≤ percent * count := by exact_mod_cast hless
  have hu := ulp_le 53 (show (0 : ℚ) < votes by exact_mod_cast hvotes)
  have hbelow : halfway 53 (votes : ℚ) < count * nearestShare percent := by
   rw [halfway_natCast hvotes hrange]
   linarith
  rintro (hlt | ⟨heq, -⟩)
  · exact lt_asymm hlt hbelow
  · exact absurd heq hbelow.ne'
 constructor
 · rintro ⟨hvotes, ⟨hmet, hnot⟩ | ⟨hless, hbelow⟩⟩
   · refine ⟨hvotes, le_antisymm hmet ?_, hnot⟩
     by_contra hmore
     exact hnot (hstrict hvotes (by omega))
   · exact absurd hbelow (hshort hvotes hless)
 · rintro ⟨hvotes, hexact, hnot⟩
   exact ⟨hvotes, .inl ⟨hexact.le, hnot⟩⟩

/-- The double product errs only against votes that meet the percentage exactly. -/
theorem percentage_refused_only_exact (hpercent : 1 ≤ percent) {count votes : ℕ}
    (hsize : percent * count < 2 ^ 52) (hrange : votes < 2 ^ 53) :
    (doublePercentOf count percent ≤ votes ↔ percent * count ≤ 100 * votes) ∨
      (percent * count = 100 * votes ∧ ¬ doublePercentOf count percent ≤ votes) := by
 by_cases hmiscounted : Miscounted percent count votes
 · obtain ⟨-, hexact, -⟩ := (miscounted_iff hpercent hsize hrange).1 hmiscounted
   refine .inr ⟨hexact, fun hgranted => ?_⟩
   exact (percent_decided_iff hpercent count votes).1 (iff_of_true hgranted hexact.le) hmiscounted
 · exact .inl ((percent_decided_iff hpercent count votes).2 hmiscounted)

theorem percentage_refused_only_exact_seven :
  (7 : ℤ) * (100 : ℕ) = 100 * (7 : ℕ) ∧ ¬ doublePercentOf 100 7 ≤ (7 : ℕ) :=
 (percentage_refused_only_exact (by norm_num) (by norm_num) (by norm_num)).resolve_left
  fun hdecided => absurd (hdecided.2 (by norm_num)) (by decide +kernel)

/-- `checkQuorum` and `checkThreshold` decide a percentage exactly unless the
    votes are miscounted. -/
theorem percentages_decided_iff (percent : ℤ) (hpercent : 1 ≤ percent) (policy : VotingPolicy)
    (totalVotes forCount againstCount interestedCount eligible : ℕ) :
    ((checkQuorum doublePercentOf totalVotes eligible
          { policy with voteQuorumType := .percentOfAttendees, voteQuorumValue := some percent } = true ↔
        0 < eligible ∧ percent * eligible ≤ 100 * totalVotes) ↔ ¬ Miscounted percent eligible totalVotes) ∧
    ((checkThreshold doublePercentOf ⟨forCount, againstCount, interestedCount, totalVotes⟩ eligible
          { policy with voteThresholdType := .supermajority, voteThresholdValue := some percent } = true ↔
        0 < totalVotes ∧
         percent * totalVotes ≤ 100 * forCount) ↔ ¬ Miscounted percent totalVotes forCount) := by
 -- with nothing to count both sides refuse, and nothing is miscounted
 have hguarded : ∀ count votes : ℕ,
   ((0 < count ∧ doublePercentOf count percent ≤ votes ↔ 0 < count ∧ percent * count ≤ 100 * votes) ↔
    ¬ Miscounted percent count votes) := by
  intro count votes
  rw [← percent_decided_iff hpercent count votes]
  rcases Nat.eq_zero_or_pos count with rfl | hcount
  · have hzero : doublePercentOf 0 percent ≤ 0 := (doublePercentOf_nonpos_iff 0 percent).2 (.inl rfl)
    exact iff_of_true (by simp) (iff_of_true (by omega) (by simp))
  · simp [hcount]
 constructor
 · rw [← hguarded]
   simp only [checkQuorum, Option.getD_some, Bool.and_eq_true, bne_iff_ne, ne_eq, decide_eq_true_eq,
    Nat.pos_iff_ne_zero]
 · rw [← hguarded]
   simp only [checkThreshold, Option.getD_some, Bool.and_eq_true, decide_eq_true_eq]


theorem half_of_ten_counted : ¬ Miscounted 50 10 5 :=
 (percentages_decided_iff 50 (by norm_num) ⟨.simpleMajority, none, .none, none, .confirmedOnly, .asAbstain⟩
  5 0 0 0 10).1.1 (by decide +kernel)

/-- Seven of a hundred are seven percent, and are refused. -/
theorem seven_of_a_hundred :
    ¬ ∀ (percent : ℤ) (policy : VotingPolicy) (totalVotes forCount againstCount interestedCount eligible : ℕ),
      1 ≤ percent → percent ≤ 100 →
      (checkQuorum doublePercentOf totalVotes eligible
            { policy with voteQuorumType := .percentOfAttendees, voteQuorumValue := some percent } = true ↔
          0 < eligible ∧ percent * eligible ≤ 100 * totalVotes) ∧
      (checkThreshold doublePercentOf ⟨forCount, againstCount, interestedCount, totalVotes⟩ eligible
            { policy with voteThresholdType := .supermajority, voteThresholdValue := some percent }
             = true ↔
          0 < totalVotes ∧ percent * totalVotes ≤ 100 * forCount) := by
 intro h
 have hquorum := (h 7 ⟨.simpleMajority, none, .none, none, .confirmedOnly, .asAbstain⟩ 7 0 0 0 100
  (by norm_num) (by norm_num)).1
 have hrefused : checkQuorum doublePercentOf 7 100
   ⟨.simpleMajority, none, .percentOfAttendees, some 7, .confirmedOnly, .asAbstain⟩
    = false := by decide +kernel
 exact absurd (hquorum.2 (by norm_num)) (by rw [hrefused]; simp)

end BoardGamesEmpire.VoteResolver
