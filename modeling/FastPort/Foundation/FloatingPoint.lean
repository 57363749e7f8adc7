import FastPort.Foundation.RoundedSums
import Mathlib.Algebra.Order.Round
import Mathlib.Data.Int.Log
import Mathlib.Tactic.Linarith
import Mathlib.Tactic.Ring

/-! Binary floating-point numbers with `p` bits behind the leading one, and rounding to the
nearest of them, ties to even. Exponents are unbounded: there is neither overflow nor
underflow. -/
namespace FastPort.Foundation.FloatingPoint

open FastPort.Foundation.RoundedSums

variable {K : Type*} [Field K] [LinearOrder K] [FloorRing K]

def roundHalfEven (x : K) : ℤ :=
  if Int.fract x < 1 / 2 then ⌊x⌋
  else if 1 / 2 < Int.fract x then ⌊x⌋ + 1
  else if Even ⌊x⌋ then ⌊x⌋
  else ⌊x⌋ + 1

def ulp (p : Nat) (x : K) : K := 2 ^ (Int.log 2 |x| - p)

def nearest (p : Nat) (x : K) : K := roundHalfEven (x / ulp p x) * ulp p x

def unitRoundoff (K : Type*) [Field K] (p : Nat) : K := 1 / 2 ^ (p + 1)

/-! ### Rounding to an integer -/

variable {x y : K} {p : Nat}

theorem roundHalfEven_cases (x : K) :
    roundHalfEven x = ⌊x⌋ ∧ Int.fract x ≤ 1 / 2 ∨
      roundHalfEven x = ⌊x⌋ + 1 ∧ 1 / 2 ≤ Int.fract x := by
  unfold roundHalfEven
  split_ifs with hbelow habove heven
  · exact .inl ⟨rfl, hbelow.le⟩
  · exact .inr ⟨rfl, habove.le⟩
  · exact .inl ⟨rfl, not_lt.mp habove⟩
  · exact .inr ⟨rfl, not_lt.mp hbelow⟩

variable [IsStrictOrderedRing K]

@[simp] theorem roundHalfEven_intCast (n : ℤ) : roundHalfEven (n : K) = n := by
  simp [roundHalfEven]

theorem abs_roundHalfEven_sub_le (x : K) : |(roundHalfEven x : K) - x| ≤ 1 / 2 := by
  have hsplit := Int.floor_add_fract x
  rw [abs_le]
  rcases roundHalfEven_cases x with ⟨hround, hfract⟩ | ⟨hround, hfract⟩
  · have hnonneg := Int.fract_nonneg x
    rw [hround]
    constructor <;> linarith
  · have hlt := Int.fract_lt_one x
    rw [hround, Int.cast_add, Int.cast_one]
    constructor <;> linarith

theorem roundHalfEven_mono (h : x ≤ y) : roundHalfEven x ≤ roundHalfEven y := by
  rcases (Int.floor_mono h).eq_or_lt with hsame | hlt
  · have hfract : Int.fract x ≤ Int.fract y := by
      have hx := Int.floor_add_fract x
      have hy := Int.floor_add_fract y
      rw [hsame] at hx
      linarith
    unfold roundHalfEven
    rw [hsame]
    split_ifs <;> first | omega | linarith
  · have hx : roundHalfEven x ≤ ⌊x⌋ + 1 := by
      rcases roundHalfEven_cases x with ⟨hround, -⟩ | ⟨hround, -⟩ <;> omega
    have hy : ⌊y⌋ ≤ roundHalfEven y := by
      rcases roundHalfEven_cases y with ⟨hround, -⟩ | ⟨hround, -⟩ <;> omega
    omega

/-! ### The scale of a number -/

theorem ulp_pos (p : Nat) (x : K) : 0 < ulp p x := zpow_pos two_pos _

theorem two_pow_mul_ulp (p : Nat) (x : K) : 2 ^ p * ulp p x = 2 ^ Int.log 2 |x| := by
  rw [ulp, ← zpow_natCast, ← zpow_add₀ two_ne_zero, add_sub_cancel]

theorem le_of_pos (hx : 0 < x) : 2 ^ p * ulp p x ≤ x := by
  rw [two_pow_mul_ulp, abs_of_pos hx]
  exact_mod_cast Int.zpow_log_le_self Nat.one_lt_two hx

theorem lt_of_nonneg (hx : 0 ≤ x) : x < 2 ^ (p + 1) * ulp p x := by
  rw [pow_succ', mul_assoc, two_pow_mul_ulp, abs_of_nonneg hx, ← zpow_one_add₀ two_ne_zero,
    add_comm]
  exact_mod_cast Int.lt_zpow_succ_log_self Nat.one_lt_two x

theorem nearest_of_mul_ulp {k : ℤ} (h : x = k * ulp p x) : nearest p x = x := by
  have hdiv : x / ulp p x = k := (div_eq_iff (ulp_pos p x).ne').mpr h
  rw [nearest, hdiv, roundHalfEven_intCast, ← h]

@[simp] theorem nearest_zero (p : Nat) : nearest p (0 : K) = 0 :=
  nearest_of_mul_ulp (k := 0) (by simp)

theorem significand_mem (hx : 0 < x) :
    (2 : K) ^ p ≤ roundHalfEven (x / ulp p x) ∧
      (roundHalfEven (x / ulp p x) : K) ≤ 2 ^ (p + 1) := by
  have hulp := ulp_pos p x
  have hlow : ((2 ^ p : ℤ) : K) ≤ x / ulp p x := by
    rw [le_div_iff₀ hulp]
    exact_mod_cast le_of_pos hx
  have hhigh : x / ulp p x ≤ ((2 ^ (p + 1) : ℤ) : K) := by
    rw [div_le_iff₀ hulp]
    exact_mod_cast (lt_of_nonneg hx.le).le
  have hlow' := roundHalfEven_mono hlow
  have hhigh' := roundHalfEven_mono hhigh
  rw [roundHalfEven_intCast] at hlow' hhigh'
  exact ⟨by exact_mod_cast hlow', by exact_mod_cast hhigh'⟩

theorem two_pow_le_nearest (hx : 0 < x) : 2 ^ Int.log 2 |x| ≤ nearest p x := by
  rw [← two_pow_mul_ulp p]
  exact mul_le_mul_of_nonneg_right (significand_mem hx).1 (ulp_pos p x).le

theorem nearest_le_two_pow (hx : 0 < x) : nearest p x ≤ 2 ^ (Int.log 2 |x| + 1) := by
  rw [add_comm, zpow_one_add₀ two_ne_zero, ← two_pow_mul_ulp p, ← mul_assoc, ← pow_succ']
  exact mul_le_mul_of_nonneg_right (significand_mem hx).2 (ulp_pos p x).le

theorem nearest_nonneg (hx : 0 ≤ x) : 0 ≤ nearest p x := by
  rcases hx.eq_or_lt with rfl | hpos
  · rw [nearest_zero]
  · exact (zpow_pos two_pos _).le.trans (two_pow_le_nearest hpos)

theorem nearest_mono (hx : 0 ≤ x) (h : x ≤ y) : nearest p x ≤ nearest p y := by
  rcases hx.eq_or_lt with rfl | hpos
  · rw [nearest_zero]
    exact nearest_nonneg h
  · have hpos' : 0 < y := hpos.trans_le h
    have hlog : Int.log 2 |x| ≤ Int.log 2 |y| := by
      rw [abs_of_pos hpos, abs_of_pos hpos']
      exact Int.log_mono_right hpos h
    rcases hlog.eq_or_lt with hsame | hlt
    · -- on one scale it is the rounding to an integer that is monotone
      have hulp : ulp p x = ulp p y := by rw [ulp, ulp, hsame]
      rw [nearest, nearest, hulp]
      have hdiv : x / ulp p y ≤ y / ulp p y := div_le_div_of_nonneg_right h (ulp_pos p y).le
      exact mul_le_mul_of_nonneg_right (Int.cast_le.mpr (roundHalfEven_mono hdiv))
        (ulp_pos p y).le
    · -- on different scales there is a power of two between them
      calc
        nearest p x ≤ 2 ^ (Int.log 2 |x| + 1) := nearest_le_two_pow hpos
        _ ≤ 2 ^ Int.log 2 |y| := zpow_le_zpow_right₀ one_le_two hlt
        _ ≤ nearest p y := two_pow_le_nearest hpos'

/-! ### The numbers that are not rounded -/

/-- A number whose significand has no more than `p + 1` bits. -/
theorem nearest_of_representable {m : Nat} (hm : m ≤ 2 ^ (p + 1)) (e : ℤ) :
    nearest p ((m : K) * 2 ^ e) = m * 2 ^ e := by
  rcases Nat.eq_zero_or_pos m with rfl | hpos
  · rw [Nat.cast_zero, zero_mul, nearest_zero]
  · have hx : (0 : K) < m * 2 ^ e := mul_pos (Nat.cast_pos.mpr hpos) (zpow_pos two_pos e)
    have htop : (m : K) * 2 ^ e ≤ 2 ^ ((p + 1 : Nat) + e) := by
      rw [zpow_add₀ two_ne_zero, zpow_natCast]
      exact mul_le_mul_of_nonneg_right (by exact_mod_cast hm) (zpow_pos two_pos e).le
    have hlow : (2 : K) ^ Int.log 2 |(m : K) * 2 ^ e| ≤ m * 2 ^ e := by
      rw [abs_of_pos hx]
      exact_mod_cast Int.zpow_log_le_self Nat.one_lt_two hx
    have hle : Int.log 2 |(m : K) * 2 ^ e| ≤ (p + 1 : Nat) + e :=
      (zpow_le_zpow_iff_right₀ one_lt_two).mp (hlow.trans htop)
    rcases hle.eq_or_lt with heq | hlt
    · -- the significand is the power of two itself
      have hulp : ulp p ((m : K) * 2 ^ e) = 2 ^ (1 + e) := by
        rw [ulp, heq]
        congr 1
        omega
      have hm' : (m : K) * 2 ^ e = 2 ^ ((p + 1 : Nat) + e) := by
        rw [heq] at hlow
        exact htop.antisymm hlow
      apply nearest_of_mul_ulp (k := 2 ^ p)
      rw [hulp, hm', Int.cast_pow, Int.cast_ofNat, ← zpow_natCast, ← zpow_add₀ two_ne_zero]
      congr 1
      push_cast
      ring
    · obtain ⟨n, hn⟩ : ∃ n : Nat, e - (Int.log 2 |(m : K) * 2 ^ e| - p) = n :=
        ⟨_, (Int.toNat_of_nonneg (by omega)).symm⟩
      apply nearest_of_mul_ulp (k := m * 2 ^ n)
      rw [ulp, Int.cast_mul, Int.cast_pow, Int.cast_ofNat, Int.cast_natCast, mul_assoc,
        ← zpow_natCast, ← hn, ← zpow_add₀ two_ne_zero, sub_add_cancel]

theorem nearest_natCast {n : Nat} (hn : n ≤ 2 ^ (p + 1)) : nearest p (n : K) = n := by
  simpa using nearest_of_representable (K := K) hn 0

theorem nearest_nearest (hx : 0 ≤ x) : nearest p (nearest p x) = nearest p x := by
  rcases hx.eq_or_lt with rfl | hpos
  · rw [nearest_zero, nearest_zero]
  · obtain ⟨hlow, hhigh⟩ := significand_mem (p := p) hpos
    obtain ⟨m, hm⟩ : ∃ m : Nat, roundHalfEven (x / ulp p x) = m := by
      refine ⟨_, (Int.toNat_of_nonneg ?_).symm⟩
      exact Int.cast_nonneg_iff.mp ((pow_pos two_pos p).le.trans hlow)
    rw [hm, Int.cast_natCast] at hhigh
    have hrepresentable := nearest_of_representable (K := K) (p := p) (m := m)
      (by exact_mod_cast hhigh) (Int.log 2 |x| - p)
    rwa [← Int.cast_natCast (n := m), ← hm] at hrepresentable

/-! ### The error -/

theorem abs_nearest_sub_le (p : Nat) (x : K) : |nearest p x - x| ≤ ulp p x / 2 := by
  have hulp := ulp_pos p x
  have hsplit : nearest p x - x = (roundHalfEven (x / ulp p x) - x / ulp p x) * ulp p x := by
    rw [sub_mul, div_mul_cancel₀ x hulp.ne', nearest]
  rw [hsplit, abs_mul, abs_of_pos hulp]
  calc
    |(roundHalfEven (x / ulp p x) : K) - x / ulp p x| * ulp p x ≤ 1 / 2 * ulp p x :=
      mul_le_mul_of_nonneg_right (abs_roundHalfEven_sub_le _) hulp.le
    _ = ulp p x / 2 := by ring

theorem ulp_div_two (p : Nat) (x : K) : ulp p x / 2 = 2 ^ Int.log 2 |x| * unitRoundoff K p := by
  rw [← two_pow_mul_ulp p, unitRoundoff, pow_succ]
  field_simp

theorem rounding_nearest (p : Nat) : Rounding (nearest p : K → K) (unitRoundoff K p) := by
  have hu : 0 < unitRoundoff K p := div_pos one_pos (pow_pos two_pos _)
  have hone : unitRoundoff K p ≤ 1 := by
    rw [unitRoundoff, div_le_one (pow_pos two_pos _)]
    exact one_le_pow₀ one_le_two
  have herror : ∀ {x : K}, 0 < x → |nearest p x - x| ≤ x * unitRoundoff K p ∧
      |nearest p x - x| ≤ nearest p x * unitRoundoff K p := by
    intro x hx
    have hle := abs_nearest_sub_le p x
    rw [ulp_div_two] at hle
    have hlog : 2 ^ Int.log 2 |x| ≤ x := by
      rw [← two_pow_mul_ulp p]
      exact le_of_pos hx
    exact ⟨hle.trans (mul_le_mul_of_nonneg_right hlog hu.le),
      hle.trans (mul_le_mul_of_nonneg_right (two_pow_le_nearest hx) hu.le)⟩
  refine ⟨hu.le, hone, fun hx => ?_, fun hx => ?_, fun hx => ?_⟩
  all_goals
    rcases hx.eq_or_lt with rfl | hpos
    · simp
    · obtain ⟨hbefore, hafter⟩ := herror hpos
      rw [abs_le] at hbefore hafter
      linarith

end FastPort.Foundation.FloatingPoint
