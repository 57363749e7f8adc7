import FastPort.Foundation.FloatingPoint
import FastPort.Foundation.Statistics
import Mathlib.Algebra.Order.Floor.Semifield
import Mathlib.Data.List.Induction
import Mathlib.Data.List.Sort
import Mathlib.Data.Rat.Floor

/-! `LatencyCollector::Calculate` and `LatencyCollector::Percentile`. The interpolation of
`Percentile` is that of exact rationals; all else that is computed in `double` is rounded after
each operation. -/
namespace FastPort.Benchmark

open FastPort.Foundation.FloatingPoint FastPort.Foundation.RoundedSums
open FastPort.Foundation.Statistics

/-- The fields that `Calculate` fills in. -/
structure BenchmarkStats where
  testName : String
  iterations : Nat := 0
  payloadSize : UInt64 := 0
  avgLatencyNs : ℚ := 0
  minLatencyNs : ℚ := 0
  maxLatencyNs : ℚ := 0
  medianLatencyNs : ℚ := 0
  p50LatencyNs : ℚ := 0
  p90LatencyNs : ℚ := 0
  p95LatencyNs : ℚ := 0
  p99LatencyNs : ℚ := 0
  stdDevNs : ℚ := 0
  packetsPerSecond : ℚ := 0
  megabytesPerSecond : ℚ := 0
  totalBytes : UInt64 := 0
  totalElapsedNs : UInt64 := 0

structure LatencyCollector where
  samples : List UInt64 := []
  totalBytes : UInt64 := 0

namespace LatencyCollector

def clear (_ : LatencyCollector) : LatencyCollector where
  samples := []
  totalBytes := 0

def addSample (c : LatencyCollector) (latencyNs : UInt64) (bytes : UInt64 := 0) :
    LatencyCollector where
  samples := c.samples ++ [latencyNs]
  totalBytes := c.totalBytes + bytes

/-- The collector after it was cleared and the samples, with their bytes, were added. -/
def collect (c : LatencyCollector) (added : List (UInt64 × UInt64)) : LatencyCollector :=
  added.foldl (fun c sample => c.addSample sample.1 sample.2) c.clear

def double (x : ℚ) : ℚ := nearest 52 x

def toDouble (n : UInt64) : ℚ := double n.toNat

def toSeconds (ns : UInt64) : ℚ := double (toDouble ns / 1000000000)

def index (sorted : List UInt64) (percent : ℚ) : ℚ :=
  percent / 100 * (sorted.length - 1 : Nat)

def lower (sorted : List UInt64) (percent : ℚ) : Nat := ⌊index sorted percent⌋₊

def upper (sorted : List UInt64) (percent : ℚ) : Nat := ⌈index sorted percent⌉₊

def percentile (sorted : List UInt64) (percent : ℚ) : Option ℚ :=
  if sorted.isEmpty then some 0
  else if sorted.length = 1 then do
    return toDouble (← sorted[0]?)
  else if lower sorted percent = upper sorted percent then do
    return toDouble (← sorted[lower sorted percent]?)
  else do
    let fraction := index sorted percent - lower sorted percent
    let below ← sorted[lower sorted percent]?
    let above ← sorted[upper sorted percent]?
    return toDouble below * (1 - fraction) + toDouble above * fraction

def sorted (c : LatencyCollector) : List UInt64 := c.samples.mergeSort fun a b => decide (a ≤ b)

def sum (sorted : List UInt64) : ℚ :=
  sorted.foldl (fun sum sample => double (sum + toDouble sample)) 0

def average (sorted : List UInt64) : ℚ := double (sum sorted / double sorted.length)

def sqSum (sorted : List UInt64) (avgLatencyNs : ℚ) : ℚ :=
  sorted.foldl (fun sqSum sample =>
    let diff := double (toDouble sample - avgLatencyNs)
    double (sqSum + double (diff * diff))) 0

-- `std::sqrt`, and what the cast of a `double` past the largest word gives.
variable (sqrt : ℚ → ℚ) (beyond : ℚ → UInt64)

def toUInt64 (x : ℚ) : UInt64 := if x < 2 ^ 64 then UInt64.ofNat ⌊x⌋₊ else beyond x

def calculate (c : LatencyCollector) (testName : String) (payloadSize : UInt64) :
    Option BenchmarkStats :=
  let iterations := c.samples.length
  if c.samples.isEmpty then some { testName, payloadSize, iterations }
  else do
    let sorted := c.sorted
    let minLatencyNs := toDouble (← sorted.head?)
    let maxLatencyNs := toDouble (← sorted.getLast?)
    let avgLatencyNs := average sorted
    let medianLatencyNs ← percentile sorted 50
    let p90LatencyNs ← percentile sorted 90
    let p95LatencyNs ← percentile sorted 95
    let p99LatencyNs ← percentile sorted 99
    let totalElapsedNs := toUInt64 beyond (sum sorted)
    let totalBytes :=
      if 0 < c.totalBytes then c.totalBytes else UInt64.ofNat iterations * payloadSize
    let elapsedSec := toSeconds totalElapsedNs
    return {
      testName, iterations, payloadSize, avgLatencyNs, minLatencyNs, maxLatencyNs, medianLatencyNs
      p50LatencyNs := medianLatencyNs
      p90LatencyNs, p95LatencyNs, p99LatencyNs
      stdDevNs := sqrt (double (sqSum sorted avgLatencyNs / double sorted.length))
      packetsPerSecond :=
        if 0 < elapsedSec then double (double iterations / elapsedSec) else 0
      megabytesPerSecond :=
        if 0 < elapsedSec then double (double (toDouble totalBytes / (1024 * 1024)) / elapsedSec)
        else 0
      totalBytes, totalElapsedNs }

variable {sqrt : ℚ → ℚ} {beyond : ℚ → UInt64} {c : LatencyCollector} {sorted : List UInt64}
  {percent : ℚ}

/-! ### The two indices -/

theorem index_mem (hlow : 0 ≤ percent) (hhigh : percent ≤ 100) :
    index sorted percent ∈ Set.Icc 0 ((sorted.length - 1 : Nat) : ℚ) := by
  have hlength : (0 : ℚ) ≤ (sorted.length - 1 : Nat) := Nat.cast_nonneg _
  refine ⟨mul_nonneg (div_nonneg hlow (by norm_num)) hlength, ?_⟩
  exact mul_le_of_le_one_left hlength ((div_le_one (by norm_num)).mpr hhigh)

theorem index_mono {percent' : ℚ} (h : percent ≤ percent') :
    index sorted percent ≤ index sorted percent' := by
  unfold index
  gcongr

theorem upper_lt (hsome : sorted ≠ []) (hlow : 0 ≤ percent) (hhigh : percent ≤ 100) :
    upper sorted percent < sorted.length := by
  have hle : upper sorted percent ≤ sorted.length - 1 :=
    Nat.ceil_le.mpr (index_mem hlow hhigh).2
  have hpos : 0 < sorted.length := List.length_pos_of_ne_nil hsome
  omega

theorem lower_lt (hsome : sorted ≠ []) (hlow : 0 ≤ percent) (hhigh : percent ≤ 100) :
    lower sorted percent < sorted.length :=
  (Nat.floor_le_ceil _).trans_lt (upper_lt hsome hlow hhigh)

/-! ### A percentile is an interpolated sample -/

def latency (sorted : List UInt64) (i : Nat) : ℚ := toDouble (sorted.getD i 0)

def valueAt (sorted : List UInt64) (percent : ℚ) : ℚ :=
  interpolate (latency sorted) (index sorted percent)

theorem latency_of_lt {i : Nat} (hi : i < sorted.length) : latency sorted i = toDouble sorted[i] :=
  congrArg toDouble (List.getElem_eq_getD 0).symm

theorem percentile_eq (hsome : sorted ≠ []) (hlow : 0 ≤ percent) (hhigh : percent ≤ 100) :
    percentile sorted percent = some (valueAt sorted percent) := by
  have hlower := lower_lt hsome hlow hhigh
  have hupper := upper_lt hsome hlow hhigh
  unfold percentile
  rw [if_neg (by rwa [List.isEmpty_iff])]
  split
  · rename_i hone
    have hindex : index sorted percent = (0 : Nat) := by
      rw [index, hone, Nat.sub_self, Nat.cast_zero, mul_zero]
    rw [valueAt, hindex, interpolate_natCast, latency_of_lt (by omega),
      List.getElem?_eq_getElem (by omega)]
    rfl
  · rw [List.getElem?_eq_getElem hlower, List.getElem?_eq_getElem hupper]
    split
    · rename_i hsame
      have hat : valueAt sorted percent = latency sorted (lower sorted percent) :=
        interpolate_of_floor_eq_ceil hsame
      rw [hat, latency_of_lt hlower]
      rfl
    · have hvalue : valueAt sorted percent =
          latency sorted (lower sorted percent) *
              (1 - (index sorted percent - lower sorted percent)) +
            latency sorted (upper sorted percent) *
              (index sorted percent - lower sorted percent) :=
        rfl
      rw [hvalue, latency_of_lt hlower, latency_of_lt hupper]
      rfl

theorem valueAt_zero : valueAt sorted 0 = latency sorted 0 := by
  have hindex : index sorted 0 = (0 : Nat) := by
    rw [index, zero_div, zero_mul, Nat.cast_zero]
  rw [valueAt, hindex, interpolate_natCast]

theorem valueAt_hundred : valueAt sorted 100 = latency sorted (sorted.length - 1) := by
  have hindex : index sorted 100 = (sorted.length - 1 : Nat) := by
    rw [index, div_self (by norm_num), one_mul]
  rw [valueAt, hindex, interpolate_natCast]

/-! ### The sorted samples -/

theorem sorted_perm (c : LatencyCollector) : c.sorted.Perm c.samples := List.mergeSort_perm _ _

theorem sorted_pairwise (c : LatencyCollector) : c.sorted.Pairwise (· ≤ ·) :=
  List.pairwise_mergeSort' (· ≤ ·) _

theorem sorted_ne_nil (hsome : c.samples ≠ []) : c.sorted ≠ [] := by
  intro hnil
  have hperm := c.sorted_perm
  rw [hnil] at hperm
  exact hsome hperm.nil_eq.symm

theorem sorted_eq_of_perm {c' : LatencyCollector} (h : c.samples.Perm c'.samples) :
    c.sorted = c'.sorted :=
  ((c.sorted_perm.trans h).trans c'.sorted_perm.symm).eq_of_pairwise' c.sorted_pairwise
    c'.sorted_pairwise

theorem toDouble_le {a b : UInt64} (h : a ≤ b) : toDouble a ≤ toDouble b :=
  nearest_mono (Nat.cast_nonneg _) (Nat.cast_le.mpr (UInt64.le_iff_toNat_le.mp h))

theorem monotoneOn_latency (hsome : sorted ≠ []) (hsorted : sorted.Pairwise (· ≤ ·)) :
    MonotoneOn (latency sorted) (Set.Iic (sorted.length - 1)) := by
  intro i hi j hj hij
  rw [Set.mem_Iic] at hi hj
  have hpos : 0 < sorted.length := List.length_pos_of_ne_nil hsome
  rw [latency_of_lt (by omega), latency_of_lt (by omega)]
  rcases hij.eq_or_lt with rfl | hlt
  · exact le_rfl
  · exact toDouble_le (List.pairwise_iff_getElem.mp hsorted i j _ _ hlt)

theorem valueAt_mono (hsome : sorted ≠ []) (hsorted : sorted.Pairwise (· ≤ ·)) {percent' : ℚ}
    (hlow : 0 ≤ percent) (h : percent ≤ percent') (hhigh : percent' ≤ 100) :
    valueAt sorted percent ≤ valueAt sorted percent' :=
  monotoneOn_interpolate (monotoneOn_latency hsome hsorted) (index_mem hlow (h.trans hhigh))
    (index_mem (hlow.trans h) hhigh) (index_mono h)

/-! ### The average -/

theorem sum_eq : sum sorted = accumulate double 0 (sorted.map toDouble) := by
  rw [sum, accumulate, List.foldl_map]

theorem toDouble_mem (hsome : sorted ≠ []) (hsorted : sorted.Pairwise (· ≤ ·)) {sample : UInt64}
    (hsample : sample ∈ sorted) :
    valueAt sorted 0 ≤ toDouble sample ∧ toDouble sample ≤ valueAt sorted 100 := by
  obtain ⟨i, hi, rfl⟩ := List.getElem_of_mem hsample
  have hmono := monotoneOn_latency hsome hsorted
  have hlast : i ≤ sorted.length - 1 := Nat.le_sub_one_of_lt hi
  rw [valueAt_zero, valueAt_hundred, ← latency_of_lt hi]
  exact ⟨hmono (Nat.zero_le _) hlast (Nat.zero_le i), hmono hlast Set.self_mem_Iic hlast⟩

/-- The average of any samples, with a rounding for each addition but the first, for the number
of the samples and for the quotient. -/
theorem average_near (hsome : sorted ≠ []) (hsorted : sorted.Pairwise (· ≤ ·)) :
    valueAt sorted 0 * (1 - 1 / 2 ^ 53) ^ (sorted.length + 1) ≤ average sorted ∧
      average sorted ≤ valueAt sorted 100 * (1 + 1 / 2 ^ 53) ^ (sorted.length + 1) := by
  rw [average, sum_eq, ← List.length_map toDouble]
  apply (rounding_nearest 52).mean_mem
  · rw [valueAt_zero]
    exact nearest_nonneg (Nat.cast_nonneg _)
  · rwa [Ne, List.map_eq_nil_iff]
  · intro x hx
    obtain ⟨sample, hsample, rfl⟩ := List.mem_map.mp hx
    exact toDouble_mem hsome hsorted hsample
  · intro x hx
    obtain ⟨sample, -, rfl⟩ := List.mem_map.mp hx
    exact nearest_nearest (Nat.cast_nonneg _)

theorem average_mem (hsome : sorted ≠ []) (hsorted : sorted.Pairwise (· ≤ ·))
    (hsum : (sorted.map UInt64.toNat).sum ≤ 2 ^ 53) :
    valueAt sorted 0 ≤ average sorted ∧ average sorted ≤ valueAt sorted 100 := by
  have hpos : 0 < sorted.length := List.length_pos_of_ne_nil hsome
  have hlast : sorted.length - 1 < sorted.length := Nat.sub_one_lt_of_lt hpos
  have hle : ∀ sample ∈ sorted, sample.toNat ≤ 2 ^ 53 := fun sample hsample =>
    (List.le_sum_of_mem (List.mem_map_of_mem hsample)).trans hsum
  have hexact : ∀ sample ∈ sorted, toDouble sample = (sample.toNat : ℚ) :=
    fun sample hsample => nearest_natCast (hle sample hsample)
  have hsamples : sorted.map toDouble = (sorted.map UInt64.toNat).map Nat.cast := by
    rw [List.map_map]
    exact List.map_congr_left hexact
  rw [average, sum_eq, hsamples, ← List.length_map UInt64.toNat, valueAt_zero, valueAt_hundred,
    latency_of_lt hpos, latency_of_lt hlast, hexact _ (List.getElem_mem hpos),
    hexact _ (List.getElem_mem hlast)]
  apply mean_natCast_mem (Nat.two_pow_pos 53) (fun n hn => nearest_natCast hn) nearest_mono
    (by rwa [Ne, List.map_eq_nil_iff]) hsum
  · intro n hn
    obtain ⟨sample, hsample, rfl⟩ := List.mem_map.mp hn
    obtain ⟨hlow, hhigh⟩ := toDouble_mem hsome hsorted hsample
    rw [valueAt_zero, latency_of_lt hpos, hexact _ hsample, hexact _ (List.getElem_mem hpos)]
      at hlow
    rw [valueAt_hundred, latency_of_lt hlast, hexact _ hsample,
      hexact _ (List.getElem_mem hlast)] at hhigh
    exact ⟨Nat.cast_le.mp hlow, Nat.cast_le.mp hhigh⟩
  · exact hle _ (List.getElem_mem hlast)

/-! ### The statistics -/

/-- What `Calculate` makes of the sorted samples: the ends, four interpolated values, and the
average. -/
structure Describes (sorted : List UInt64) (stats : BenchmarkStats) : Prop where
  iterations : stats.iterations = sorted.length
  minLatencyNs : stats.minLatencyNs = valueAt sorted 0
  medianLatencyNs : stats.medianLatencyNs = valueAt sorted 50
  p50LatencyNs : stats.p50LatencyNs = valueAt sorted 50
  p90LatencyNs : stats.p90LatencyNs = valueAt sorted 90
  p95LatencyNs : stats.p95LatencyNs = valueAt sorted 95
  p99LatencyNs : stats.p99LatencyNs = valueAt sorted 99
  maxLatencyNs : stats.maxLatencyNs = valueAt sorted 100
  avgLatencyNs : stats.avgLatencyNs = average sorted

theorem calculate_eq (hsome : c.samples ≠ []) (testName : String) (payloadSize : UInt64) :
    ∃ stats, c.calculate sqrt beyond testName payloadSize = some stats ∧
      Describes c.sorted stats := by
  have hsorted := sorted_ne_nil hsome
  have hpos : 0 < c.sorted.length := List.length_pos_of_ne_nil hsorted
  have hhead : c.sorted.head? = some c.sorted[0] := by
    rw [List.head?_eq_getElem?, List.getElem?_eq_getElem hpos]
  have hlast : c.sorted.getLast? = some c.sorted[c.sorted.length - 1] := by
    rw [List.getLast?_eq_getElem?, List.getElem?_eq_getElem (by omega)]
  have hpercentile (percent : ℚ) (hlow : 0 ≤ percent) (hhigh : percent ≤ 100) :=
    percentile_eq hsorted hlow hhigh
  have hmin : toDouble c.sorted[0] = valueAt c.sorted 0 := by
    rw [valueAt_zero, latency_of_lt hpos]
  have hmax : toDouble c.sorted[c.sorted.length - 1] = valueAt c.sorted 100 := by
    rw [valueAt_hundred, latency_of_lt]
  unfold calculate
  rw [if_neg (by rwa [List.isEmpty_iff])]
  simp only [hhead, hlast, hpercentile 50 (by norm_num) (by norm_num),
    hpercentile 90 (by norm_num) (by norm_num), hpercentile 95 (by norm_num) (by norm_num),
    hpercentile 99 (by norm_num) (by norm_num)]
  exact ⟨_, rfl, c.sorted_perm.length_eq.symm, hmin, rfl, rfl, rfl, rfl, rfl, hmax, rfl⟩

theorem calculate_of_perm {c' : LatencyCollector} (hsamples : c.samples.Perm c'.samples)
    (hbytes : c.totalBytes = c'.totalBytes) (testName : String) (payloadSize : UInt64) :
    c.calculate sqrt beyond testName payloadSize =
      c'.calculate sqrt beyond testName payloadSize := by
  unfold calculate
  rw [sorted_eq_of_perm hsamples, hsamples.length_eq, hsamples.isEmpty_eq, hbytes]

theorem collect_append (c : LatencyCollector) (added : List (UInt64 × UInt64))
    (sample : UInt64 × UInt64) :
    c.collect (added ++ [sample]) = (c.collect added).addSample sample.1 sample.2 :=
  List.foldl_concat _ _ _ _

theorem collect_samples (c : LatencyCollector) (added : List (UInt64 × UInt64)) :
    (c.collect added).samples = added.map Prod.fst := by
  induction added using List.reverseRecOn with
  | nil => rfl
  | append_singleton added sample ih => rw [collect_append, addSample, ih, List.map_append]; rfl

theorem collect_totalBytes (c : LatencyCollector) (added : List (UInt64 × UInt64)) :
    (c.collect added).totalBytes = added.foldl (fun bytes sample => bytes + sample.2) 0 := by
  induction added using List.reverseRecOn with
  | nil => rfl
  | append_singleton added sample ih => rw [collect_append, addSample, ih, List.foldl_concat]

theorem calculate_collect_of_perm {added added' : List (UInt64 × UInt64)}
    (h : added.Perm added') (testName : String) (payloadSize : UInt64) :
    (c.collect added).calculate sqrt beyond testName payloadSize =
      (c.collect added').calculate sqrt beyond testName payloadSize := by
  apply calculate_of_perm
  · rw [collect_samples, collect_samples]
    exact h.map _
  · rw [collect_totalBytes, collect_totalBytes]
    refine h.foldl_eq' (fun a _ b _ bytes => ?_) 0
    rw [UInt64.add_assoc, UInt64.add_comm a.2, ← UInt64.add_assoc]

/-- Percentiles are ordered and bounded, no statistic depends on the order of the samples, and
the average is bounded up to one rounding for each addition and two more, exactly so where no
addition rounds. -/
theorem statistics_ordered (sqrt : ℚ → ℚ) (beyond : ℚ → UInt64) (c : LatencyCollector)
    (added : List (UInt64 × UInt64)) (hsome : added ≠ []) (testName : String)
    (payloadSize : UInt64) :
    ∃ sorted stats, sorted.Perm (added.map Prod.fst) ∧ sorted.Pairwise (· ≤ ·) ∧
      (∀ percent, 0 ≤ percent → percent ≤ 100 →
        lower sorted percent < sorted.length ∧ upper sorted percent < sorted.length) ∧
      (∀ added', added.Perm added' →
        (c.collect added').calculate sqrt beyond testName payloadSize = some stats) ∧
      Describes sorted stats ∧
      (stats.minLatencyNs ≤ stats.p50LatencyNs ∧ stats.p50LatencyNs ≤ stats.p90LatencyNs ∧
        stats.p90LatencyNs ≤ stats.p95LatencyNs ∧ stats.p95LatencyNs ≤ stats.p99LatencyNs ∧
        stats.p99LatencyNs ≤ stats.maxLatencyNs) ∧
      (stats.minLatencyNs * (1 - 1 / 2 ^ 53) ^ (added.length + 1) ≤ stats.avgLatencyNs ∧
        stats.avgLatencyNs ≤ stats.maxLatencyNs * (1 + 1 / 2 ^ 53) ^ (added.length + 1)) ∧
      ((added.map fun sample => sample.1.toNat).sum ≤ 2 ^ 53 →
        stats.minLatencyNs ≤ stats.avgLatencyNs ∧ stats.avgLatencyNs ≤ stats.maxLatencyNs) := by
  have hsamples : (c.collect added).samples ≠ [] := by
    rwa [collect_samples, Ne, List.map_eq_nil_iff]
  have hsorted := sorted_ne_nil hsamples
  have hpairwise := (c.collect added).sorted_pairwise
  have hperm : (c.collect added).sorted.Perm (added.map Prod.fst) := by
    rw [← collect_samples c]
    exact sorted_perm _
  have hlength : (c.collect added).sorted.length = added.length := by
    rw [hperm.length_eq, List.length_map]
  have hsum : ((c.collect added).sorted.map UInt64.toNat).sum =
      (added.map fun sample => sample.1.toNat).sum := by
    rw [(hperm.map UInt64.toNat).sum_eq, List.map_map]
    rfl
  have hnear := average_near hsorted hpairwise
  have hbetween := average_mem hsorted hpairwise
  obtain ⟨stats, hstats, h⟩ := calculate_eq hsamples testName payloadSize
  rw [← h.minLatencyNs, ← h.maxLatencyNs, ← h.avgLatencyNs] at hnear hbetween
  rw [hlength] at hnear
  rw [hsum] at hbetween
  refine ⟨_, stats, hperm, hpairwise,
    fun percent hlow hhigh => ⟨lower_lt hsorted hlow hhigh, upper_lt hsorted hlow hhigh⟩,
    fun added' hadded => ?_, h, ?_, hnear, hbetween⟩
  · rw [← hstats]
    exact (calculate_collect_of_perm hadded testName payloadSize).symm
  · have hmono : ∀ percent percent' : ℚ, 0 ≤ percent → percent ≤ percent' → percent' ≤ 100 →
        valueAt (c.collect added).sorted percent ≤ valueAt (c.collect added).sorted percent' :=
      fun _ _ hlow hle hhigh => valueAt_mono hsorted hpairwise hlow hle hhigh
    rw [h.minLatencyNs, h.p50LatencyNs, h.p90LatencyNs, h.p95LatencyNs, h.p99LatencyNs,
      h.maxLatencyNs]
    refine ⟨hmono 0 50 ?_ ?_ ?_, hmono 50 90 ?_ ?_ ?_, hmono 90 95 ?_ ?_ ?_, hmono 95 99 ?_ ?_ ?_,
      hmono 99 100 ?_ ?_ ?_⟩
    all_goals norm_num

/-- Two round trips, ten from their average: the root is that of a hundred. -/
def twoSamples : List (UInt64 × UInt64) := [(30, 64), (10, 32)]

theorem statistics_ordered_twoSamples :
    let statistics (added : List (UInt64 × UInt64)) :=
      (collect {} added).calculate (fun x => x.num.toNat.sqrt / x.den.sqrt) (fun _ => 0) "echo" 64
    ∃ stats, statistics twoSamples = some stats ∧ statistics [(10, 32), (30, 64)] = some stats ∧
      stats.minLatencyNs ≤ stats.p50LatencyNs ∧ stats.p99LatencyNs ≤ stats.maxLatencyNs ∧
      stats.minLatencyNs ≤ stats.avgLatencyNs ∧ stats.avgLatencyNs ≤ stats.maxLatencyNs := by
  intro statistics
  obtain ⟨sorted, stats, -, -, -, horder, -, ⟨h50, -, -, -, h99⟩, -, hbetween⟩ :=
    statistics_ordered (fun x => x.num.toNat.sqrt / x.den.sqrt) (fun _ => 0) {} twoSamples
      (List.cons_ne_nil _ _) "echo" 64
  exact ⟨stats, horder _ (.refl _), horder _ (.swap _ _ _), h50, h99,
    hbetween (by decide)⟩

/-- Three times the same number, the sum of which is a tie. -/
def threeSamples : List (UInt64 × UInt64) := List.replicate 3 (9007199254740794, 0)

/-- The average of the three samples is above each of them. -/
theorem not_average_between : ¬ ∀ (sqrt : ℚ → ℚ) (beyond : ℚ → UInt64) (c : LatencyCollector)
    (added : List (UInt64 × UInt64)), added ≠ [] → ∀ (testName : String) (payloadSize : UInt64),
    ∃ stats, (c.collect added).calculate sqrt beyond testName payloadSize = some stats ∧
      stats.minLatencyNs ≤ stats.avgLatencyNs ∧ stats.avgLatencyNs ≤ stats.maxLatencyNs := by
  intro hall
  obtain ⟨stats, hstats, -, hle⟩ :=
    hall id (fun _ => 0) {} threeSamples (List.cons_ne_nil _ _) "echo" 64
  have hcalculate : ∃ stats', (collect {} threeSamples).calculate id (fun _ => 0) "echo" 64 =
      some stats' ∧ Describes (collect {} threeSamples).sorted stats' :=
    calculate_eq (List.cons_ne_nil _ _) "echo" 64
  obtain ⟨stats', hstats', h⟩ := hcalculate
  obtain rfl : stats = stats' := Option.some.inj (hstats.symm.trans hstats')
  have hsorted : (collect {} threeSamples).sorted = List.replicate 3 9007199254740794 :=
    List.perm_replicate.mp (sorted_perm _)
  rw [h.avgLatencyNs, h.maxLatencyNs, hsorted] at hle
  exact absurd hle (by decide +kernel)

end LatencyCollector

end FastPort.Benchmark
