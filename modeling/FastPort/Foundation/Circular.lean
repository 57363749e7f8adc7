import Mathlib.Data.List.Range
import Mathlib.Data.List.Nodup
import Mathlib.Data.Nat.ModEq
import Mathlib.Tactic.Ring

/-! Circular windows over a flat memory. A window is the list of cell indices
that a run of consecutive positions occupies once it is folded into `cap`
cells; reading and writing go through such lists, so a wrap-around needs no
case of its own. -/
namespace FastPort.Foundation.Circular

variable {α : Type}

def window (cap pos n : Nat) : List Nat :=
  (List.range n).map fun i => (pos + i) % cap

def gather [Inhabited α] (mem : List α) (cells : List Nat) : List α :=
  cells.map fun c => mem.getD c default

def scatter (mem : List α) : List Nat → List α → List α
  | c :: cells, x :: xs => scatter (mem.set c x) cells xs
  | _, _ => mem

@[simp] theorem length_window (cap pos n : Nat) : (window cap pos n).length = n := by
  simp [window]

@[simp] theorem window_zero (cap pos : Nat) : window cap pos 0 = [] := rfl

theorem getElem?_window (cap pos n i : Nat) :
    (window cap pos n)[i]? = if i < n then some ((pos + i) % cap) else none := by
  by_cases h : i < n <;> simp [window, h]

theorem mem_window {cap pos n c : Nat} :
    c ∈ window cap pos n ↔ ∃ i < n, (pos + i) % cap = c := by
  simp [window]

theorem lt_of_mem_window {cap pos n c : Nat} (hcap : 0 < cap) (h : c ∈ window cap pos n) :
    c < cap := by
  obtain ⟨i, _, rfl⟩ := mem_window.mp h
  exact Nat.mod_lt _ hcap

theorem window_mod (cap pos n : Nat) : window cap (pos % cap) n = window cap pos n := by
  simp [window, Nat.mod_add_mod]

theorem window_add (cap pos m n : Nat) :
    window cap pos (m + n) = window cap pos m ++ window cap (pos + m) n := by
  simp [window, List.range_add, Function.comp_def, Nat.add_assoc]

theorem take_window (cap pos : Nat) {m n : Nat} (h : m ≤ n) :
    (window cap pos n).take m = window cap pos m := by
  obtain ⟨k, rfl⟩ := Nat.exists_eq_add_of_le h
  rw [window_add, List.take_left' (length_window cap pos m)]

theorem drop_window (cap pos : Nat) {m n : Nat} (h : m ≤ n) :
    (window cap pos n).drop m = window cap (pos + m) (n - m) := by
  obtain ⟨k, rfl⟩ := Nat.exists_eq_add_of_le h
  rw [window_add, List.drop_left' (length_window cap pos m), Nat.add_sub_cancel_left]

theorem take_range' (start n k : Nat) :
    (List.range' start n).take k = List.range' start (min k n) := by
  apply List.ext_getElem?
  intro i
  grind

theorem position_unique {cap pos i j : Nat} (hi : i < cap) (hj : j < cap)
    (h : (pos + i) % cap = (pos + j) % cap) : i = j := by
  have hmod : i ≡ j [MOD cap] := Nat.ModEq.add_left_cancel' pos h
  rwa [Nat.ModEq, Nat.mod_eq_of_lt hi, Nat.mod_eq_of_lt hj] at hmod

theorem nodup_window {cap n : Nat} (pos : Nat) (h : n ≤ cap) : (window cap pos n).Nodup := by
  refine List.Nodup.map_on ?_ List.nodup_range
  intro i hi j hj heq
  rw [List.mem_range] at hi hj
  exact position_unique (by omega) (by omega) heq

theorem disjoint_window {cap pos m n : Nat} (h : m + n ≤ cap) :
    List.Disjoint (window cap pos m) (window cap (pos + m) n) := by
  have hnodup := nodup_window pos h
  rw [window_add] at hnodup
  exact List.disjoint_of_nodup_append hnodup

theorem window_eq_range'_of_fits {cap pos n : Nat} (h : pos + n ≤ cap) :
    window cap pos n = List.range' pos n := by
  rw [List.range'_eq_map_range]
  apply List.map_congr_left
  intro i hi
  rw [List.mem_range] at hi
  exact Nat.mod_eq_of_lt (by omega)

theorem window_eq_range' {cap pos n : Nat} (hpos : pos < cap) (hn : n ≤ cap) :
    window cap pos n =
      List.range' pos (min n (cap - pos)) ++ List.range' 0 (n - min n (cap - pos)) := by
  by_cases hfit : pos + n ≤ cap
  · have hmin : min n (cap - pos) = n := by omega
    rw [hmin, window_eq_range'_of_fits hfit]
    simp
  · have hmin : min n (cap - pos) = cap - pos := by omega
    have hsplit : n = (cap - pos) + (n - (cap - pos)) := by omega
    rw [hmin]
    conv_lhs => rw [hsplit]
    rw [window_add, window_eq_range'_of_fits (by omega), show pos + (cap - pos) = cap by omega]
    congr 1
    rw [List.range'_eq_map_range]
    apply List.map_congr_left
    intro i hi
    rw [List.mem_range] at hi
    rw [Nat.add_mod_left, Nat.mod_eq_of_lt (by omega), Nat.zero_add]

@[simp] theorem length_scatter (mem : List α) (cells : List Nat) (xs : List α) :
    (scatter mem cells xs).length = mem.length := by
  induction cells generalizing mem xs with
  | nil => cases xs <;> rfl
  | cons c cells ih =>
    cases xs with
    | nil => rfl
    | cons x xs => rw [scatter, ih, List.length_set]

@[simp] theorem scatter_nil_right (mem : List α) (cells : List Nat) :
    scatter mem cells [] = mem := by
  cases cells <;> rfl

@[simp] theorem scatter_nil_left (mem : List α) (xs : List α) : scatter mem [] xs = mem := by
  cases xs <;> rfl

theorem scatter_append (mem : List α) {left : List Nat} {xs : List α} (right : List Nat)
    (ys : List α) (h : left.length = xs.length) :
    scatter mem (left ++ right) (xs ++ ys) = scatter (scatter mem left xs) right ys := by
  induction left generalizing mem xs with
  | nil => cases xs <;> simp_all
  | cons c left ih =>
    cases xs with
    | nil => simp at h
    | cons x xs =>
      simp only [List.length_cons, Nat.add_right_cancel_iff] at h
      simp only [List.cons_append, scatter]
      exact ih _ h

theorem scatter_take (mem : List α) (cells : List Nat) (xs : List α) :
    scatter mem (cells.take xs.length) xs = scatter mem cells xs := by
  induction cells generalizing mem xs with
  | nil => simp
  | cons c cells ih =>
    cases xs with
    | nil => simp
    | cons x xs => simp only [List.length_cons, List.take_succ_cons, scatter, ih]

variable [Inhabited α]

@[simp] theorem length_gather (mem : List α) (cells : List Nat) :
    (gather mem cells).length = cells.length := by
  simp [gather]

@[simp] theorem gather_nil (mem : List α) : gather mem [] = [] := rfl

theorem gather_append (mem : List α) (left right : List Nat) :
    gather mem (left ++ right) = gather mem left ++ gather mem right := by
  simp [gather]

theorem gather_take (mem : List α) (cells : List Nat) (n : Nat) :
    gather mem (cells.take n) = (gather mem cells).take n := by
  simp [gather]

theorem gather_drop (mem : List α) (cells : List Nat) (n : Nat) :
    gather mem (cells.drop n) = (gather mem cells).drop n := by
  simp [gather]

theorem getD_scatter_of_not_mem (mem : List α) {cells : List Nat} (xs : List α) {c : Nat}
    (h : c ∉ cells) : (scatter mem cells xs).getD c default = mem.getD c default := by
  induction cells generalizing mem xs with
  | nil => simp
  | cons d cells ih =>
    cases xs with
    | nil => rfl
    | cons x xs =>
      rw [List.mem_cons, not_or] at h
      rw [scatter, ih _ _ h.2]
      simp [List.getD_eq_getElem?_getD, List.getElem?_set_ne (Ne.symm h.1)]

theorem getD_scatter_of_mem (mem : List α) {cells : List Nat} {xs : List α} {c : Nat}
    (hlen : cells.length ≤ xs.length) (hmem : c < mem.length) (h : c ∈ cells) :
    ∃ i : Nat, cells[i]? = some c ∧ xs[i]? = some ((scatter mem cells xs).getD c default) := by
  induction cells generalizing mem xs with
  | nil => simp at h
  | cons d cells ih =>
    cases xs with
    | nil => simp at hlen
    | cons x xs =>
      rw [scatter]
      have hlen' : cells.length ≤ xs.length := by simpa using hlen
      by_cases hc : c ∈ cells
      · obtain ⟨i, hcell, hval⟩ := ih (mem.set d x) hlen' (by simpa using hmem) hc
        exact ⟨i + 1, by simpa using hcell, by simpa using hval⟩
      · have hd : d = c := by simpa [hc, eq_comm] using h
        subst hd
        refine ⟨0, rfl, ?_⟩
        rw [getD_scatter_of_not_mem _ _ hc]
        simp [List.getD_eq_getElem?_getD, hmem]

theorem gather_scatter (mem : List α) {cells : List Nat} {xs : List α} (hnodup : cells.Nodup)
    (hbound : ∀ c ∈ cells, c < mem.length) (hlen : cells.length = xs.length) :
    gather (scatter mem cells xs) cells = xs := by
  apply List.ext_getElem?
  intro i
  rcases Nat.lt_or_ge i cells.length with hi | hi
  · obtain ⟨j, hcell, hval⟩ := getD_scatter_of_mem mem hlen.le
      (hbound _ (List.getElem_mem hi)) (List.getElem_mem hi)
    obtain ⟨hj, hcell⟩ := List.getElem?_eq_some_iff.mp hcell
    obtain rfl := (List.Nodup.getElem_inj_iff hnodup).mp hcell
    simp [gather, hi, hval]
  · simp [gather, hi, ← hlen]

theorem gather_scatter_disjoint (mem : List α) {cells other : List Nat} (xs : List α)
    (h : List.Disjoint other cells) :
    gather (scatter mem cells xs) other = gather mem other := by
  apply List.map_congr_left
  intro c hc
  exact getD_scatter_of_not_mem mem xs (h hc)

theorem not_mem_window {cap : Nat} (pos : Nat) {q n i : Nat} (hfit : q + n ≤ cap) (hi : i < cap)
    (hout : ¬ (q ≤ i ∧ i < q + n)) : (pos + i) % cap ∉ window cap (pos + q) n := by
  intro hmem
  obtain ⟨j, hj, heq⟩ := mem_window.mp hmem
  rw [Nat.add_assoc] at heq
  have := position_unique (by omega) hi heq
  omega

/-- What a position within one turn of the buffer shows after a window has been
stored: the data inside the window, the old value elsewhere. -/
theorem getD_scatter_window (mem : List α) (pos : Nat) {q i : Nat} (xs : List α)
    (hfit : q + xs.length ≤ mem.length) (hi : i < mem.length) :
    (scatter mem (window mem.length (pos + q) xs.length) xs).getD ((pos + i) % mem.length) default =
      if q ≤ i ∧ i < q + xs.length then xs.getD (i - q) default
      else mem.getD ((pos + i) % mem.length) default := by
  by_cases hin : q ≤ i ∧ i < q + xs.length
  · rw [if_pos hin]
    have hgather := gather_scatter mem
      (nodup_window (pos + q) (show xs.length ≤ mem.length by omega))
      (fun c hc => lt_of_mem_window (by omega) hc) (length_window mem.length (pos + q) xs.length)
    have hat := congrArg (fun ys => ys.getD (i - q) default) hgather
    simp only [gather, List.getD_eq_getElem?_getD, List.getElem?_map, getElem?_window] at hat
    rw [if_pos (by omega), Option.map_some, Option.getD_some, Nat.add_assoc pos q,
      show q + (i - q) = i by omega] at hat
    simpa only [List.getD_eq_getElem?_getD] using hat
  · rw [if_neg hin]
    exact getD_scatter_of_not_mem mem xs (not_mem_window pos hfit hi hin)

theorem gather_window_eq {mem stream : List α} {cap pos k n : Nat} (hn : k + n ≤ stream.length)
    (h : ∀ i < n, mem.getD ((pos + i) % cap) default = stream.getD (k + i) default) :
    gather mem (window cap pos n) = (stream.drop k).take n := by
  apply List.ext_getElem?
  intro i
  by_cases hi : i < n
  · have hvalue := h i hi
    rw [List.getD_eq_getElem?_getD, List.getD_eq_getElem?_getD,
      List.getElem?_eq_getElem (show k + i < stream.length by omega), Option.getD_some] at hvalue
    simp only [gather, List.getElem?_map, getElem?_window, if_pos hi, Option.map_some,
      List.getElem?_take_of_lt hi, List.getElem?_drop, List.getD_eq_getElem?_getD, hvalue]
    rw [List.getElem?_eq_getElem]
  · rw [List.getElem?_eq_none (by simp; omega), List.getElem?_eq_none (by simp; omega)]

end FastPort.Foundation.Circular
