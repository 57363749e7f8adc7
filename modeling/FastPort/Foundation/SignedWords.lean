import Mathlib.Algebra.Ring.Int.Defs
import Mathlib.Algebra.Ring.Nat

/-! Signed 64-bit numbers whose operations are undefined where the result does not fit, and
the halves of an unsigned 64-bit number. -/
namespace FastPort.Foundation.SignedWords

def exact (z : Int) : Option Int64 :=
  if h : Int64.minValue.toInt ≤ z ∧ z ≤ Int64.maxValue.toInt then some (Int64.ofIntLE z h.1 h.2)
  else none

def mul (a b : Int64) : Option Int64 := exact (a.toInt * b.toInt)

def div (a b : Int64) : Option Int64 := if b = 0 then none else exact (a.toInt.tdiv b.toInt)

def neg (a : Int64) : Option Int64 := exact (-a.toInt)

def low (x : UInt64) : UInt32 := x.toUInt32

def high (x : UInt64) : UInt32 := (x >>> 32).toUInt32

def join (low high : UInt32) : UInt64 := UInt64.ofNat (high.toNat * 2 ^ 32 + low.toNat)

theorem exact_eq_some {z : Int} {c : Int64} : exact z = some c ↔ c.toInt = z := by
  unfold exact
  split
  · rename_i h
    rw [Option.some.injEq, ← Int64.toInt_inj, Int64.toInt_ofIntLE]
    exact eq_comm
  · rename_i h
    constructor
    · rintro ⟨⟩
    · rintro rfl
      exact absurd ⟨c.minValue_le_toInt, c.toInt_le⟩ h

theorem exists_exact_iff {z : Int} : (∃ c, exact z = some c) ↔ -2 ^ 63 ≤ z ∧ z < 2 ^ 63 := by
  constructor
  · rintro ⟨c, hc⟩
    rw [← exact_eq_some.mp hc]
    exact ⟨c.le_toInt, c.toInt_lt⟩
  · intro h
    have hfits : Int64.minValue.toInt ≤ z ∧ z ≤ Int64.maxValue.toInt := by
      refine ⟨h.1, ?_⟩
      have hmax : Int64.maxValue.toInt = 2 ^ 63 - 1 := rfl
      omega
    exact ⟨_, dif_pos hfits⟩

theorem join_halves (x : UInt64) : join (low x) (high x) = x := by
  have hlt := x.toNat_lt
  apply UInt64.toNat_inj.mp
  simp only [join, low, high, UInt64.toNat_ofNat', UInt64.toNat_toUInt32, UInt64.toNat_shiftRight,
    Nat.shiftRight_eq_div_pow]
  simp
  omega

end FastPort.Foundation.SignedWords
