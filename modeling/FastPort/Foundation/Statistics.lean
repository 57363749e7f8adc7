import Mathlib.Algebra.Order.Field.Basic
import Mathlib.Algebra.Order.Floor.Semiring
import Mathlib.Tactic.Ring

/-! Linear interpolation of a sequence between the two indices around a fractional one. -/
namespace FastPort.Foundation.Statistics

variable {K : Type*} [Field K] [LinearOrder K] [FloorSemiring K]

def interpolate (f : Nat → K) (x : K) : K :=
  f ⌊x⌋₊ * (1 - (x - ⌊x⌋₊)) + f ⌈x⌉₊ * (x - ⌊x⌋₊)

variable {f : Nat → K} {x y : K} {m : Nat}

theorem interpolate_eq_add :
    interpolate f x = f ⌊x⌋₊ + (f ⌈x⌉₊ - f ⌊x⌋₊) * (x - ⌊x⌋₊) := by
  unfold interpolate
  ring

theorem interpolate_eq_sub :
    interpolate f x = f ⌈x⌉₊ - (f ⌈x⌉₊ - f ⌊x⌋₊) * (⌊x⌋₊ + 1 - x) := by
  unfold interpolate
  ring

theorem interpolate_of_floor_eq_ceil (h : ⌊x⌋₊ = ⌈x⌉₊) : interpolate f x = f ⌊x⌋₊ := by
  rw [interpolate_eq_add, ← h, sub_self, zero_mul, add_zero]

theorem interpolate_of_gap (hx : 0 ≤ x) {k : Nat} (hk : ⌊x⌋₊ = k) :
    interpolate f x = f k + (f (k + 1) - f k) * (x - k) := by
  rw [interpolate_eq_add, hk]
  -- At the index itself there is no gap, but the factor is zero.
  rcases (Nat.floor_le hx).eq_or_lt with hzero | hlt
  · rw [← hk, hzero, sub_self, mul_zero, mul_zero]
  · have hceil : ⌈x⌉₊ = ⌊x⌋₊ + 1 :=
      le_antisymm (Nat.ceil_le_floor_add_one x) (Nat.lt_ceil.mpr hlt)
    rw [hceil, hk]

variable [IsStrictOrderedRing K]

@[simp] theorem interpolate_natCast (n : Nat) : interpolate f n = f n := by
  rw [interpolate_of_floor_eq_ceil (by rw [Nat.floor_natCast, Nat.ceil_natCast]),
    Nat.floor_natCast]

theorem floor_le_interpolate (hx : 0 ≤ x) (h : f ⌊x⌋₊ ≤ f ⌈x⌉₊) :
    f ⌊x⌋₊ ≤ interpolate f x := by
  rw [interpolate_eq_add]
  exact le_add_of_nonneg_right
    (mul_nonneg (sub_nonneg.mpr h) (sub_nonneg.mpr (Nat.floor_le hx)))

theorem interpolate_le_ceil (h : f ⌊x⌋₊ ≤ f ⌈x⌉₊) : interpolate f x ≤ f ⌈x⌉₊ := by
  rw [interpolate_eq_sub]
  exact sub_le_self _
    (mul_nonneg (sub_nonneg.mpr h) (sub_nonneg.mpr (Nat.lt_floor_add_one x).le))

theorem interpolate_le_of_floor_eq (hf : MonotoneOn f (Set.Iic m)) (hx : 0 ≤ x) (hxy : x < y)
    (hy : y ≤ m) (hsame : ⌊x⌋₊ = ⌊y⌋₊) : interpolate f x ≤ interpolate f y := by
  have hfloor : (⌊y⌋₊ : K) < y := by
    rw [← hsame]
    exact (Nat.floor_le hx).trans_lt hxy
  have hm : ⌊y⌋₊ + 1 ≤ m := Nat.cast_lt.mp (hfloor.trans_le hy)
  have hstep : f ⌊y⌋₊ ≤ f (⌊y⌋₊ + 1) := hf (Nat.le_of_succ_le hm) hm (Nat.le_succ _)
  rw [interpolate_of_gap hx hsame, interpolate_of_gap (hx.trans hxy.le) rfl]
  exact add_le_add le_rfl
    (mul_le_mul_of_nonneg_left (sub_le_sub_right hxy.le _) (sub_nonneg.mpr hstep))

theorem monotoneOn_interpolate (hf : MonotoneOn f (Set.Iic m)) :
    MonotoneOn (interpolate f) (Set.Icc 0 (m : K)) := by
  rintro x ⟨hx, hxm⟩ y ⟨hy, hym⟩ hxy
  have hends (z : K) (hz : z ≤ m) : f ⌊z⌋₊ ≤ f ⌈z⌉₊ :=
    hf (Nat.floor_le_of_le hz) (Nat.ceil_le.mpr hz) (Nat.floor_le_ceil z)
  rcases (Nat.floor_mono hxy).eq_or_lt with hsame | hlt
  · rcases hxy.eq_or_lt with rfl | hxy
    · exact le_rfl
    · exact interpolate_le_of_floor_eq hf hx hxy hym hsame
  · have hbelow : ⌈x⌉₊ ≤ ⌊y⌋₊ := (Nat.ceil_le_floor_add_one x).trans hlt
    have hm : ⌊y⌋₊ ≤ m := Nat.floor_le_of_le hym
    calc
      interpolate f x ≤ f ⌈x⌉₊ := interpolate_le_ceil (hends x hxm)
      _ ≤ f ⌊y⌋₊ := hf (hbelow.trans hm) hm hbelow
      _ ≤ interpolate f y := floor_le_interpolate hy (hends y hym)

end FastPort.Foundation.Statistics
