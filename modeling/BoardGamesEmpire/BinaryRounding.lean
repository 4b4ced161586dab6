import Mathlib

set_option autoImplicit false

/-!
# Rounding to a binary precision

The nearest number with `p` binary digits, ties to the even last digit, of a
number of any size: the arithmetic of a floating-point format away from its
overflow and underflow.
-/
namespace BoardGamesEmpire.BinaryRounding

variable {K : Type} [Field K] [LinearOrder K] [IsStrictOrderedRing K] [FloorRing K]

section Integers

def nearestEven (x : K) : ℤ :=
  if Int.fract x < 1 / 2 then ⌊x⌋
  else if 1 / 2 < Int.fract x then ⌊x⌋ + 1
  else if Even ⌊x⌋ then ⌊x⌋ else ⌊x⌋ + 1

theorem nearestEven_le_iff (x : K) (m : ℤ) :
  nearestEven x ≤ m ↔ x < m + 1 / 2 ∨ (x = m + 1 / 2 ∧ Even m) := by
 have hsplit : (⌊x⌋ : K) + Int.fract x = x := Int.floor_add_fract x
 have hnonneg := Int.fract_nonneg x
 have hlt := Int.fract_lt_one x
 rcases lt_trichotomy ⌊x⌋ m with hbelow | heq | habove
 · -- both neighbours of `x` are at most `m`
   have hcast : (⌊x⌋ : K) + 1 ≤ m := by exact_mod_cast hbelow
   refine iff_of_true ?_ (.inl (by linarith))
   unfold nearestEven
   split_ifs <;> omega
 · -- `m` is the lower neighbour, which a tie takes only when it is even
   subst heq
   unfold nearestEven
   split_ifs with hlow hhigh heven
   · exact iff_of_true le_rfl (.inl (by linarith))
   · refine iff_of_false (by omega) ?_
     rintro (h | ⟨h, -⟩) <;> linarith
   · exact iff_of_true le_rfl (.inr ⟨by linarith, heven⟩)
   · refine iff_of_false (by omega) ?_
     rintro (h | ⟨-, h⟩)
     · linarith
     · exact heven h
 · have hcast : (m : K) + 1 ≤ ⌊x⌋ := by exact_mod_cast habove
   refine iff_of_false ?_ ?_
   · unfold nearestEven
     split_ifs <;> omega
   · rintro (h | ⟨h, -⟩) <;> linarith

theorem nearestEven_le {x : K} {m : ℤ} (h : x ≤ m) : nearestEven x ≤ m :=
 (nearestEven_le_iff x m).2 (.inl (by linarith))

theorem le_nearestEven {x : K} {m : ℤ} (h : (m : K) ≤ x) : m ≤ nearestEven x := by
 by_contra hlt
 have hle : nearestEven x ≤ m - 1 := by omega
 have hcast : ((m - 1 : ℤ) : K) = m - 1 := by push_cast; ring
 rcases (nearestEven_le_iff x (m - 1)).1 hle with hx | ⟨hx, -⟩ <;> rw [hcast] at hx <;> linarith

theorem nearestEven_error (x : K) : |x - nearestEven x| ≤ 1 / 2 := by
 have hsplit : (⌊x⌋ : K) + Int.fract x = x := Int.floor_add_fract x
 have hnonneg := Int.fract_nonneg x
 have hlt := Int.fract_lt_one x
 rw [abs_le]
 unfold nearestEven
 split_ifs <;> push_cast <;> constructor <;> linarith

end Integers

section Significands

/-- The unit in the last of the `p` places of `x`. -/
def ulp (p : ℕ) (x : K) : K := 2 ^ (Int.log 2 |x| + 1 - p)

/-- `x` to `p` binary digits. -/
def round (p : ℕ) (x : K) : K := if x = 0 then 0 else nearestEven (x / ulp p x) * ulp p x

/-- Half way from the last number of `p` digits up to `t` to the next one. -/
def halfway (p : ℕ) (t : K) : K := (⌊t / ulp p t⌋ + 1 / 2) * ulp p t

/-- `x` rounds to `t` or below: it lies under the half-way point above `t`, or
    on it where the tie goes down. -/
def RoundsUpTo (p : ℕ) (x t : K) : Prop :=
  x < halfway p t ∨ (x = halfway p t ∧ Even ⌊t / ulp p t⌋)

instance (p : ℕ) (x t : K) : Decidable (RoundsUpTo p x t) := inferInstanceAs (Decidable (_ ∨ _))

variable {p : ℕ} {x t : K}

theorem ulp_pos (p : ℕ) (x : K) : 0 < ulp p x := by
 unfold ulp
 positivity

omit [IsStrictOrderedRing K] in
theorem ulp_mul_pow (p : ℕ) (x : K) (k : ℤ) :
  ulp p x * 2 ^ k = 2 ^ (Int.log 2 |x| + 1 - p + k) := by
 rw [ulp, ← zpow_add₀ (by norm_num)]

theorem significand_bounds (p : ℕ) (hx : 0 < x) :
  (2 : K) ^ ((p : ℤ) - 1) * ulp p x ≤ x ∧ x < 2 ^ (p : ℤ) * ulp p x := by
 have hlow : ((2 : ℕ) : K) ^ Int.log 2 x ≤ x := Int.zpow_log_le_self (by norm_num) hx
 have hhigh : x < ((2 : ℕ) : K) ^ (Int.log 2 x + 1) := Int.lt_zpow_succ_log_self (by norm_num) x
 rw [mul_comm, ulp_mul_pow, mul_comm, ulp_mul_pow, abs_of_pos hx]
 have hleft : Int.log 2 x + 1 - (p : ℤ) + ((p : ℤ) - 1) = Int.log 2 x := by ring
 have hright : Int.log 2 x + 1 - (p : ℤ) + (p : ℤ) = Int.log 2 x + 1 := by ring
 rw [hleft, hright]
 exact ⟨by exact_mod_cast hlow, by exact_mod_cast hhigh⟩

theorem significand_floor (hp : 0 < p) (ht : 0 < t) :
  2 ^ (p - 1) ≤ ⌊t / ulp p t⌋ ∧ ⌊t / ulp p t⌋ + 1 ≤ 2 ^ p := by
 obtain ⟨hlow, hhigh⟩ := significand_bounds p ht
 constructor
 · rw [Int.le_floor, le_div_iff₀ (ulp_pos p t)]
   have hcast : ((p : ℤ) - 1) = ((p - 1 : ℕ) : ℤ) := by omega
   rw [hcast, zpow_natCast] at hlow
   exact_mod_cast hlow
 · rw [Int.add_one_le_iff, Int.floor_lt, div_lt_iff₀ (ulp_pos p t)]
   rw [zpow_natCast] at hhigh
   exact_mod_cast hhigh

omit [IsStrictOrderedRing K] in
theorem round_of_pos (hx : 0 < x) : round p x = nearestEven (x / ulp p x) * ulp p x :=
 if_neg hx.ne'

theorem round_lt_binade (hp : 0 < p) (hx : 0 < x) (ht : 0 < t) (hlog : Int.log 2 x < Int.log 2 t) :
  round p x ≤ t ∧ x < halfway p t := by
 have hpow : (2 : K) ^ (Int.log 2 x + 1) ≤ 2 ^ Int.log 2 t := zpow_le_zpow_right₀ (by norm_num) (by omega)
 have hlow := (significand_bounds p ht).1
 have hhigh := (significand_bounds p hx).2
 have hfloor := (significand_floor hp ht).1
 have hpred : (2 : K) ^ ((p : ℤ) - 1) * ulp p t = 2 ^ Int.log 2 t := by
  rw [mul_comm, ulp_mul_pow, abs_of_pos ht]
  congr 1
  ring
 have htop : (2 : K) ^ (p : ℤ) * ulp p x = 2 ^ (Int.log 2 x + 1) := by
  rw [mul_comm, ulp_mul_pow, abs_of_pos hx]
  congr 1
  ring
 have hu := ulp_pos p t
 constructor
 · have hnearest : nearestEven (x / ulp p x) ≤ 2 ^ p := by
    apply nearestEven_le
    rw [div_le_iff₀ (ulp_pos p x)]
    rw [zpow_natCast] at hhigh
    push_cast
    exact hhigh.le
   have hcast : (nearestEven (x / ulp p x) : K) ≤ 2 ^ (p : ℤ) := by
    rw [zpow_natCast]
    exact_mod_cast hnearest
   calc round p x = nearestEven (x / ulp p x) * ulp p x := round_of_pos hx
    _ ≤ 2 ^ (p : ℤ) * ulp p x := mul_le_mul_of_nonneg_right hcast (ulp_pos p x).le
    _ ≤ 2 ^ Int.log 2 t := htop.trans_le hpow
    _ ≤ t := hpred ▸ hlow
 · have hcast : (2 : K) ^ ((p : ℤ) - 1) ≤ ⌊t / ulp p t⌋ := by
    have hsub : ((p : ℤ) - 1) = ((p - 1 : ℕ) : ℤ) := by omega
    rw [hsub, zpow_natCast]
    exact_mod_cast hfloor
   calc x < 2 ^ (p : ℤ) * ulp p x := hhigh
    _ ≤ 2 ^ Int.log 2 t := htop.trans_le hpow
    _ = 2 ^ ((p : ℤ) - 1) * ulp p t := hpred.symm
    _ ≤ ⌊t / ulp p t⌋ * ulp p t := mul_le_mul_of_nonneg_right hcast hu.le
    _ ≤ halfway p t := mul_le_mul_of_nonneg_right (by linarith) hu.le

theorem round_gt_binade (hp : 0 < p) (hx : 0 < x) (ht : 0 < t) (hlog : Int.log 2 t < Int.log 2 x) :
  t < round p x ∧ halfway p t < x := by
 have hpow : (2 : K) ^ (Int.log 2 t + 1) ≤ 2 ^ Int.log 2 x := zpow_le_zpow_right₀ (by norm_num) (by omega)
 have hlow := (significand_bounds p hx).1
 have hhigh := (significand_bounds p ht).2
 have hfloor := (significand_floor hp ht).2
 have hpred : (2 : K) ^ ((p : ℤ) - 1) * ulp p x = 2 ^ Int.log 2 x := by
  rw [mul_comm, ulp_mul_pow, abs_of_pos hx]
  congr 1
  ring
 have htop : (2 : K) ^ (p : ℤ) * ulp p t = 2 ^ (Int.log 2 t + 1) := by
  rw [mul_comm, ulp_mul_pow, abs_of_pos ht]
  congr 1
  ring
 have hu := ulp_pos p t
 constructor
 · have hnearest : 2 ^ (p - 1) ≤ nearestEven (x / ulp p x) := by
    apply le_nearestEven
    rw [le_div_iff₀ (ulp_pos p x)]
    have hsub : ((p : ℤ) - 1) = ((p - 1 : ℕ) : ℤ) := by omega
    rw [hsub, zpow_natCast] at hlow
    exact_mod_cast hlow
   have hcast : (2 : K) ^ ((p : ℤ) - 1) ≤ nearestEven (x / ulp p x) := by
    have hsub : ((p : ℤ) - 1) = ((p - 1 : ℕ) : ℤ) := by omega
    rw [hsub, zpow_natCast]
    exact_mod_cast hnearest
   calc t < 2 ^ (p : ℤ) * ulp p t := hhigh
    _ ≤ 2 ^ Int.log 2 x := htop.trans_le hpow
    _ = 2 ^ ((p : ℤ) - 1) * ulp p x := hpred.symm
    _ ≤ nearestEven (x / ulp p x) * ulp p x := mul_le_mul_of_nonneg_right hcast (ulp_pos p x).le
    _ = round p x := (round_of_pos hx).symm
 · have hcast : (⌊t / ulp p t⌋ : K) + 1 ≤ 2 ^ (p : ℤ) := by
    rw [zpow_natCast]
    exact_mod_cast hfloor
   calc halfway p t < (⌊t / ulp p t⌋ + 1) * ulp p t := mul_lt_mul_of_pos_right (by linarith) hu
    _ ≤ 2 ^ (p : ℤ) * ulp p t := mul_le_mul_of_nonneg_right hcast hu.le
    _ ≤ 2 ^ Int.log 2 x := htop.trans_le hpow
    _ = 2 ^ ((p : ℤ) - 1) * ulp p x := hpred.symm
    _ ≤ x := hlow

/-- Whether a rounded number is at most `t` is decided at the half-way point above `t`. -/
theorem round_le_iff (hp : 0 < p) (hx : 0 < x) (ht : 0 < t) : round p x ≤ t ↔ RoundsUpTo p x t := by
 rcases lt_trichotomy (Int.log 2 x) (Int.log 2 t) with hless | heq | hmore
 · have h := round_lt_binade hp hx ht hless
   exact iff_of_true h.1 (.inl h.2)
 · have hulp : ulp p x = ulp p t := by rw [ulp, ulp, abs_of_pos hx, abs_of_pos ht, heq]
   have hu := ulp_pos p t
   rw [round_of_pos hx, hulp, ← le_div_iff₀ hu, ← Int.le_floor, nearestEven_le_iff, RoundsUpTo, halfway,
    div_lt_iff₀ hu, div_eq_iff hu.ne']
 · have h := round_gt_binade hp hx ht hmore
   refine iff_of_false (not_le.2 h.1) ?_
   rintro (hlt | ⟨heq, -⟩)
   · exact lt_asymm h.2 hlt
   · exact absurd heq h.2.ne'

theorem round_pos (hp : 0 < p) (hx : 0 < x) : 0 < round p x := by
 have hone : (1 : ℤ) ≤ nearestEven (x / ulp p x) := by
  apply le_nearestEven
  rw [le_div_iff₀ (ulp_pos p x), Int.cast_one]
  refine le_trans ?_ (significand_bounds p hx).1
  exact mul_le_mul_of_nonneg_right (one_le_zpow₀ (by norm_num) (by omega)) (ulp_pos p x).le
 rw [round_of_pos hx]
 exact mul_pos (by exact_mod_cast hone) (ulp_pos p x)

theorem round_nonpos (hx : x ≤ 0) : round p x ≤ 0 := by
 unfold round
 split_ifs with h0
 · exact le_rfl
 · refine mul_nonpos_of_nonpos_of_nonneg ?_ (ulp_pos p x).le
   have hle : nearestEven (x / ulp p x) ≤ 0 :=
    nearestEven_le (by simpa using div_nonpos_of_nonpos_of_nonneg hx (ulp_pos p x).le)
   exact_mod_cast hle

theorem round_pos_iff (hp : 0 < p) : 0 < round p x ↔ 0 < x := by
 constructor
 · intro h
   by_contra hx
   exact absurd (round_nonpos (not_lt.1 hx)) (not_le.2 h)
 · exact round_pos hp

theorem round_error (hx : 0 < x) : |x - round p x| ≤ ulp p x / 2 := by
 have hu := ulp_pos p x
 have hscaled : x - round p x = (x / ulp p x - nearestEven (x / ulp p x)) * ulp p x := by
  rw [round_of_pos hx, sub_mul, div_mul_cancel₀ _ hu.ne']
 rw [hscaled, abs_mul, abs_of_pos hu]
 calc |x / ulp p x - nearestEven (x / ulp p x)| * ulp p x ≤ 1 / 2 * ulp p x :=
       mul_le_mul_of_nonneg_right (nearestEven_error _) hu.le
  _ = ulp p x / 2 := by ring

theorem ulp_le (p : ℕ) (hx : 0 < x) : ulp p x ≤ 2 * x / 2 ^ p := by
 have hlow := (significand_bounds p hx).1
 rw [zpow_sub₀ (by norm_num), zpow_natCast, zpow_one] at hlow
 rw [le_div_iff₀ (by positivity)]
 calc ulp p x * 2 ^ p = 2 * (2 ^ p / 2 * ulp p x) := by ring
  _ ≤ 2 * x := by linarith

theorem round_error_le (hx : 0 < x) : |x - round p x| ≤ x / 2 ^ p := by
 refine (round_error hx).trans ?_
 rw [div_le_iff₀ (by norm_num)]
 calc ulp p x ≤ 2 * x / 2 ^ p := ulp_le p hx
  _ = x / 2 ^ p * 2 := by ring

theorem halfway_natCast {n : ℕ} (hn : 0 < n) (hlt : n < 2 ^ p) :
  halfway p (n : K) = n + ulp p (n : K) / 2 := by
 have hlog : Nat.log 2 n < p := (Nat.log_lt_iff_lt_pow (by omega) (by omega)).2 hlt
 have hulp : (n : K) / ulp p (n : K) = ((n * 2 ^ (p - 1 - Nat.log 2 n) : ℕ) : K) := by
  have hcast : |(n : K)| = ((n : ℕ) : K) := abs_of_nonneg (Nat.cast_nonneg n)
  have hexponent : (Nat.log 2 n : ℤ) + 1 - p = -((p - 1 - Nat.log 2 n : ℕ) : ℤ) := by omega
  rw [ulp, hcast, Int.log_natCast, hexponent, zpow_neg, zpow_natCast, div_inv_eq_mul]
  push_cast
  ring
 have hwhole : ((⌊(n : K) / ulp p (n : K)⌋ : ℤ) : K) * ulp p (n : K) = n := by
  rw [hulp, Int.floor_natCast, Int.cast_natCast, ← hulp, div_mul_cancel₀ _ (ulp_pos p _).ne']
 rw [halfway, add_mul, hwhole]
 ring

end Significands

end BoardGamesEmpire.BinaryRounding
