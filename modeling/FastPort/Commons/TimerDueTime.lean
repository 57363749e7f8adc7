import FastPort.Foundation.SignedWords
import FastPort.Commons.TimerQueue

/-! What `ScheduleImpl` hands to `SetThreadpoolTimer`: the due time in units of 100 ns and the
period in milliseconds. A signed overflow has no result. -/
namespace FastPort.Commons.TimerQueue

open FastPort.Foundation.SignedWords

structure FileTime where
  dwLowDateTime : UInt32
  dwHighDateTime : UInt32
deriving DecidableEq, Repr

/-- How the system reads a due time: a negative one is relative. -/
def FileTime.toInt (ft : FileTime) : Int :=
  (join ft.dwLowDateTime ft.dwHighDateTime).toInt64.toInt

def makeRelativeDueTime (delay : Int64) : Option FileTime :=
  (mul delay 1000000).bind fun nanoseconds =>
    (div nanoseconds 100).bind fun hundreds =>
      (neg hundreds).map fun hundredNs =>
        ⟨low hundredNs.toUInt64, high hundredNs.toUInt64⟩

structure Arming where
  due : Option FileTime
  msPeriod : UInt32
deriving DecidableEq, Repr

def arming (delay : Int64) (isPeriodic : Bool) (interval : Int64) : Arming where
  due := makeRelativeDueTime delay
  msPeriod := if isPeriodic then (max 0 interval).toUInt64.toUInt32 else 0

def scheduleOnce (delay : Int64) : Arming := arming delay false 0

def schedulePeriodic (interval : Int64) : Arming := arming interval true interval

/-- The due time is the delay, relative, and there was no overflow on the way. -/
def DueExact (delay : Int64) (due : Option FileTime) : Prop :=
  ∃ ft, due = some ft ∧ ft.toInt = -(delay.toInt * 10000)

def PeriodExact (interval : Int64) (msPeriod : UInt32) : Prop :=
  0 < interval.toInt → (msPeriod.toNat : Int) = interval.toInt

theorem dueExact_iff (delay : Int64) : DueExact delay (makeRelativeDueTime delay) ↔
    -9223372036854 ≤ delay.toInt ∧ delay.toInt ≤ 9223372036854 := by
  have hmillion : (1000000 : Int64).toInt = 1000000 := rfl
  have hhundred : (100 : Int64).toInt = 100 := rfl
  constructor
  · rintro ⟨ft, hft, -⟩
    obtain ⟨nanoseconds, hns, -⟩ := Option.bind_eq_some_iff.mp hft
    have hfits := exists_exact_iff.mp ⟨nanoseconds, hns⟩
    rw [hmillion] at hfits
    omega
  · intro h
    obtain ⟨nanoseconds, hns⟩ : ∃ c, mul delay 1000000 = some c :=
      exists_exact_iff.mpr (by rw [hmillion]; omega)
    have hnsInt : nanoseconds.toInt = delay.toInt * 10000 * 100 := by
      rw [exact_eq_some.mp hns, hmillion, Int.mul_assoc]
      rfl
    have hquotient : nanoseconds.toInt.tdiv (100 : Int64).toInt = delay.toInt * 10000 := by
      rw [hnsInt, hhundred]
      exact Int.mul_tdiv_cancel _ (by decide)
    obtain ⟨hundreds, hdiv⟩ : ∃ c, div nanoseconds 100 = some c := by
      rw [div, if_neg (by decide), hquotient]
      exact exists_exact_iff.mpr (by omega)
    have hdivInt : hundreds.toInt = delay.toInt * 10000 := by
      rw [div, if_neg (by decide), hquotient] at hdiv
      exact exact_eq_some.mp hdiv
    obtain ⟨hundredNs, hneg⟩ : ∃ c, neg hundreds = some c :=
      exists_exact_iff.mpr (by omega)
    have hnegInt : hundredNs.toInt = -(delay.toInt * 10000) := by
      rw [exact_eq_some.mp hneg, hdivInt]
    refine ⟨⟨low hundredNs.toUInt64, high hundredNs.toUInt64⟩, ?_, ?_⟩
    · rw [makeRelativeDueTime, hns, Option.bind_some, hdiv, Option.bind_some, hneg]
      rfl
    · rw [FileTime.toInt, join_halves, Int64.toInt64_toUInt64, hnegInt]

theorem toInt_max_zero (interval : Int64) : (max 0 interval).toInt = max 0 interval.toInt := by
  have hzero : (0 : Int64).toInt = 0 := rfl
  by_cases h : (0 : Int64) ≤ interval
  · rw [show max 0 interval = interval from if_pos h]
    rw [Int64.le_iff_toInt_le] at h
    omega
  · rw [show max 0 interval = 0 from if_neg h]
    rw [Int64.le_iff_toInt_le] at h
    omega

theorem toNat_msPeriod (interval : Int64) :
    (schedulePeriodic interval).msPeriod.toNat = period true interval.toInt := by
  have hmax := toInt_max_zero interval
  have hpos : (0 : Int64) ≤ max 0 interval := by
    rw [Int64.le_iff_toInt_le, hmax]
    exact Int.le_max_left ..
  have hword : (max 0 interval).toUInt64.toNat = interval.toInt.toNat := by
    rw [Int64.toNat_toUInt64_of_le hpos, Int64.toNatClampNeg, hmax]
    omega
  rw [schedulePeriodic, arming, if_pos rfl, UInt64.toNat_toUInt32, hword]
  rfl

theorem periodExact_iff (interval : Int64) :
    PeriodExact interval (schedulePeriodic interval).msPeriod ↔ interval.toInt < 4294967296 := by
  unfold PeriodExact
  have hsize : UInt32.size = 4294967296 := rfl
  rw [toNat_msPeriod, period, if_pos rfl, hsize]
  constructor
  · intro h
    by_contra hlarge
    have heq := h (by omega)
    omega
  · intro h hpos
    omega

/-- A timer is armed exactly when the delay is less than about 292 years either way, and a
periodic one when the interval is less than about 50 days. -/
theorem armed_exactly_iff (duration : Int64) :
    (DueExact duration (scheduleOnce duration).due ↔
        -9223372036854 ≤ duration.toInt ∧ duration.toInt ≤ 9223372036854) ∧
      (DueExact duration (schedulePeriodic duration).due ∧
          PeriodExact duration (schedulePeriodic duration).msPeriod ↔
        -9223372036854 ≤ duration.toInt ∧ duration.toInt < 4294967296) := by
  refine ⟨dueExact_iff duration, ?_⟩
  have hdue : DueExact duration (schedulePeriodic duration).due ↔ _ := dueExact_iff duration
  rw [hdue, periodExact_iff]
  omega

/-- A millisecond more overflows, and an interval of 2 ^ 32 milliseconds arms a timer without
a period. -/
theorem not_armed_exactly :
    ¬ DueExact 9223372036855 (scheduleOnce 9223372036855).due ∧
      (schedulePeriodic 4294967296).msPeriod = 0 ∧
      ¬ PeriodExact 4294967296 (schedulePeriodic 4294967296).msPeriod := by
  refine ⟨fun h => ?_, by decide, fun h => ?_⟩
  · exact absurd ((dueExact_iff 9223372036855).mp h) (by decide)
  · exact absurd ((periodExact_iff 4294967296).mp h) (by decide)

end FastPort.Commons.TimerQueue
