import Mathlib.Algebra.Order.BigOperators.Group.List
import Mathlib.Algebra.Order.Field.Basic
import Mathlib.Tactic.GCongr
import Mathlib.Tactic.Linarith
import Mathlib.Tactic.Ring

/-! Sums and means of numbers that are rounded after each operation, by any rounding of which
no more is known than its relative error, or where it does not round. -/
namespace FastPort.Foundation.RoundedSums

variable {K : Type*} [Field K] {fl : K → K}

def accumulate (fl : K → K) (s : K) (xs : List K) : K := xs.foldl (fun sum x => fl (sum + x)) s

theorem accumulate_natCast {bound : Nat} (hfl : ∀ n : Nat, n ≤ bound → fl n = n)
    {ns : List Nat} {s : Nat} (hsum : s + ns.sum ≤ bound) :
    accumulate fl s (ns.map Nat.cast) = (s + ns.sum : Nat) := by
  induction ns generalizing s with
  | nil => rfl
  | cons n ns ih =>
    rw [List.sum_cons] at hsum
    have hstep : fl ((s : K) + n) = (s + n : Nat) := by
      rw [← Nat.cast_add]
      exact hfl _ (by omega)
    rw [List.map_cons, accumulate, List.foldl_cons, hstep]
    change accumulate fl _ _ = _
    rw [ih (by omega), List.sum_cons, Nat.add_assoc]

variable [LinearOrder K] [IsStrictOrderedRing K]

theorem natCast_div_mem {bound : Nat} (hbound : 0 < bound)
    (hfl : ∀ n : Nat, n ≤ bound → fl n = n) (hmono : ∀ {x y}, 0 ≤ x → x ≤ y → fl x ≤ fl y)
    {count total a b : Nat} (hpos : 0 < count) (htotal : total ≤ bound)
    (hlow : count * a ≤ total) (hhigh : total ≤ count * b) :
    (a : K) ≤ total / fl count ∧ total / fl count ≤ (b : K) := by
  have hcount : (1 : K) ≤ fl count := by
    have hone := hmono zero_le_one (Nat.one_le_cast.mpr hpos)
    rwa [← Nat.cast_one, hfl 1 hbound, Nat.cast_one] at hone
  have hcount' : (0 : K) < fl count := one_pos.trans_le hcount
  rw [le_div_iff₀ hcount', div_le_iff₀ hcount']
  rcases Nat.lt_or_ge bound count with hmany | hfew
  · -- so many numbers keep to the bound only if all of them are zero
    obtain rfl : a = 0 := by
      by_contra hne
      have := Nat.le_mul_of_pos_right count (Nat.pos_of_ne_zero hne)
      omega
    have hlarge : (total : K) ≤ fl count := by
      have hge := hmono (Nat.cast_nonneg bound) (Nat.cast_le.mpr hmany.le)
      rw [hfl bound le_rfl] at hge
      exact (Nat.cast_le.mpr htotal).trans hge
    refine ⟨by rw [Nat.cast_zero, zero_mul]; exact Nat.cast_nonneg _, ?_⟩
    rcases Nat.eq_zero_or_pos b with rfl | hb
    · obtain rfl : total = 0 := by omega
      simp
    · exact hlarge.trans (le_mul_of_one_le_left hcount'.le (Nat.one_le_cast.mpr hb))
  · rw [hfl _ hfew, mul_comm, mul_comm (b : K)]
    exact ⟨by exact_mod_cast hlow, by exact_mod_cast hhigh⟩

/-- The mean of integers up to a bound that their sum keeps to lies between them: only the
quotient is rounded, or all of them are zero where the count is past the bound. -/
theorem mean_natCast_mem {bound : Nat} (hbound : 0 < bound)
    (hfl : ∀ n : Nat, n ≤ bound → fl n = n) (hmono : ∀ {x y}, 0 ≤ x → x ≤ y → fl x ≤ fl y)
    {ns : List Nat} (hsome : ns ≠ []) (hsum : ns.sum ≤ bound) {a b : Nat}
    (hns : ∀ n ∈ ns, a ≤ n ∧ n ≤ b) (hb : b ≤ bound) :
    a ≤ fl (accumulate fl 0 (ns.map Nat.cast) / fl ns.length) ∧
      fl (accumulate fl 0 (ns.map Nat.cast) / fl ns.length) ≤ b := by
  have hpos : 0 < ns.length := List.length_pos_of_ne_nil hsome
  have hlow : ns.length * a ≤ ns.sum := ns.card_nsmul_le_sum a fun n hn => (hns n hn).1
  have hhigh : ns.sum ≤ ns.length * b := ns.sum_le_card_nsmul b fun n hn => (hns n hn).2
  have ha : a ≤ bound := (Nat.le_mul_of_pos_left a hpos).trans (hlow.trans hsum)
  have hexact : accumulate fl 0 (ns.map Nat.cast) = (ns.sum : K) := by
    have hsum' := accumulate_natCast hfl (show 0 + ns.sum ≤ bound by omega)
    rwa [Nat.cast_zero, Nat.zero_add] at hsum'
  obtain ⟨hge, hle⟩ := natCast_div_mem hbound hfl hmono hpos hsum hlow hhigh
  rw [hexact, ← hfl a ha, ← hfl b hb]
  exact ⟨hmono (Nat.cast_nonneg a) hge, hmono ((Nat.cast_nonneg a).trans hge) hle⟩

structure Rounding (fl : K → K) (u : K) : Prop where
  nonneg : 0 ≤ u
  le_one : u ≤ 1
  le : ∀ {x}, 0 ≤ x → fl x ≤ x * (1 + u)
  ge : ∀ {x}, 0 ≤ x → x * (1 - u) ≤ fl x
  undo : ∀ {x}, 0 ≤ x → x ≤ fl x * (1 + u)

namespace Rounding

variable {u a b : K}

theorem accumulate_mem (h : Rounding fl u) (ha : 0 ≤ a) {xs : List K}
    (hxs : ∀ x ∈ xs, a ≤ x ∧ x ≤ b) {s : K} {k j : Nat}
    (hlow : a * k * (1 - u) ^ j ≤ s) (hhigh : s ≤ b * k * (1 + u) ^ j) :
    a * (k + xs.length : Nat) * (1 - u) ^ (j + xs.length) ≤ accumulate fl s xs ∧
      accumulate fl s xs ≤ b * (k + xs.length : Nat) * (1 + u) ^ (j + xs.length) := by
  have hu := h.nonneg
  have hless : 0 ≤ 1 - u := sub_nonneg.mpr h.le_one
  induction xs generalizing s k j with
  | nil => exact ⟨hlow, hhigh⟩
  | cons x xs ih =>
    obtain ⟨⟨hax, hxb⟩, hrest⟩ := List.forall_mem_cons.mp hxs
    have hs : 0 ≤ s :=
      (mul_nonneg (mul_nonneg ha (Nat.cast_nonneg k)) (pow_nonneg hless j)).trans hlow
    have hsum : 0 ≤ s + x := add_nonneg hs (ha.trans hax)
    have hbelow : a * (1 - u) ^ j ≤ x :=
      (mul_le_of_le_one_right ha (pow_le_one₀ hless (sub_le_self 1 hu))).trans hax
    have habove : x ≤ b * (1 + u) ^ j :=
      hxb.trans (le_mul_of_one_le_right (ha.trans (hax.trans hxb))
        (one_le_pow₀ (le_add_of_nonneg_right hu)))
    rw [List.length_cons, Nat.add_comm xs.length, ← Nat.add_assoc, ← Nat.add_assoc]
    refine ih hrest ?_ ?_
    · calc
        a * (k + 1 : Nat) * (1 - u) ^ (j + 1) =
            (a * k * (1 - u) ^ j + a * (1 - u) ^ j) * (1 - u) := by push_cast; ring
        _ ≤ (s + x) * (1 - u) := mul_le_mul_of_nonneg_right (add_le_add hlow hbelow) hless
        _ ≤ fl (s + x) := h.ge hsum
    · calc
        fl (s + x) ≤ (s + x) * (1 + u) := h.le hsum
        _ ≤ (b * k * (1 + u) ^ j + b * (1 + u) ^ j) * (1 + u) :=
          mul_le_mul_of_nonneg_right (add_le_add hhigh habove) (add_nonneg zero_le_one hu)
        _ = b * (k + 1 : Nat) * (1 + u) ^ (j + 1) := by push_cast; ring

theorem div_mem (h : Rounding fl u) (ha : 0 ≤ a) (hb : 0 ≤ b) {count k : Nat} {total : K}
    (hpos : 0 < count) (hlow : a * count * (1 - u) ^ k ≤ total)
    (hhigh : total ≤ b * count * (1 + u) ^ k) :
    a * (1 - u) ^ (k + 1) ≤ total / fl count ∧ total / fl count ≤ b * (1 + u) ^ (k + 1) := by
  have hu := h.nonneg
  have hless : 0 ≤ 1 - u := sub_nonneg.mpr h.le_one
  have hmore : 0 < 1 + u := by linarith
  have hn : (0 : K) < count := Nat.cast_pos.mpr hpos
  have hundo : (count : K) ≤ fl count * (1 + u) := h.undo hn.le
  have hcount : 0 < fl count := pos_of_mul_pos_left (hn.trans_le hundo) hmore.le
  have hback : fl count * (1 - u) ≤ count := by
    have hle := mul_le_mul_of_nonneg_right (h.le hn.le) hless
    have hsquare : 0 ≤ count * (u * u) := mul_nonneg hn.le (mul_nonneg hu hu)
    linarith
  rw [le_div_iff₀ hcount, div_le_iff₀ hcount]
  constructor
  · calc
      a * (1 - u) ^ (k + 1) * fl count = a * (fl count * (1 - u)) * (1 - u) ^ k := by ring
      _ ≤ a * count * (1 - u) ^ k := by gcongr
      _ ≤ total := hlow
  · calc
      total ≤ b * count * (1 + u) ^ k := hhigh
      _ ≤ b * (fl count * (1 + u)) * (1 + u) ^ k := by gcongr
      _ = b * (1 + u) ^ (k + 1) * fl count := by ring

/-- The mean of numbers that are not rounded themselves, with the rounding of the count and of
the quotient. -/
theorem mean_mem (h : Rounding fl u) (ha : 0 ≤ a) {xs : List K} (hsome : xs ≠ [])
    (hxs : ∀ x ∈ xs, a ≤ x ∧ x ≤ b) (hfixed : ∀ x ∈ xs, fl x = x) :
    a * (1 - u) ^ (xs.length + 1) ≤ fl (accumulate fl 0 xs / fl xs.length) ∧
      fl (accumulate fl 0 xs / fl xs.length) ≤ b * (1 + u) ^ (xs.length + 1) := by
  have hless : 0 ≤ 1 - u := sub_nonneg.mpr h.le_one
  have hmore : 0 ≤ 1 + u := add_nonneg zero_le_one h.nonneg
  obtain ⟨x, rest, rfl⟩ := List.exists_cons_of_ne_nil hsome
  obtain ⟨⟨hax, hxb⟩, hrest⟩ := List.forall_mem_cons.mp hxs
  -- the first addition is to zero
  have hfirst : accumulate fl 0 (x :: rest) = accumulate fl x rest := by
    rw [accumulate, List.foldl_cons, zero_add, hfixed x List.mem_cons_self]
    rfl
  have hsum := h.accumulate_mem ha hrest (s := x) (k := 1) (j := 0) (by simpa) (by simpa)
  rw [Nat.zero_add, ← hfirst] at hsum
  have hlength : (x :: rest).length = 1 + rest.length := Nat.add_comm _ _
  rw [hlength]
  obtain ⟨hge, hle⟩ := h.div_mem ha (ha.trans (hax.trans hxb))
    (show 0 < 1 + rest.length by omega) hsum.1 hsum.2
  generalize accumulate fl 0 (x :: rest) / fl (1 + rest.length : Nat) = mean at *
  have hmean : 0 ≤ mean := (mul_nonneg ha (pow_nonneg hless _)).trans hge
  rw [Nat.add_comm 1]
  constructor
  · calc
      a * (1 - u) ^ (rest.length + 1 + 1) = a * (1 - u) ^ (rest.length + 1) * (1 - u) := by ring
      _ ≤ mean * (1 - u) := mul_le_mul_of_nonneg_right hge hless
      _ ≤ fl mean := h.ge hmean
  · calc
      fl mean ≤ mean * (1 + u) := h.le hmean
      _ ≤ b * (1 + u) ^ (rest.length + 1) * (1 + u) := mul_le_mul_of_nonneg_right hle hmore
      _ = b * (1 + u) ^ (rest.length + 1 + 1) := by ring

end Rounding

end FastPort.Foundation.RoundedSums
