import Mathlib.Data.List.Basic

/-! Weights summed over a pool of threads, or over the frames of one thread.
One thread moves at a time, so each lemma says what replacing one entry of the
pool does to a sum or to a property of all entries. -/
namespace FastPort.Foundation.Tally

variable {τ : Type}

def tally (w : τ → Nat) : List τ → Nat
  | [] => 0
  | t :: pool => w t + tally w pool

@[simp] theorem tally_nil (w : τ → Nat) : tally w [] = 0 := rfl

@[simp] theorem tally_cons (w : τ → Nat) (t : τ) (pool : List τ) :
    tally w (t :: pool) = w t + tally w pool := rfl

@[simp] theorem tally_append (w : τ → Nat) (left right : List τ) :
    tally w (left ++ right) = tally w left + tally w right := by
  induction left with
  | nil => simp
  | cons t left ih => simp only [List.cons_append, tally_cons, ih, Nat.add_assoc]

theorem tally_set (w : τ → Nat) {pool : List τ} {i : Nat} {t : τ} (t' : τ)
    (h : pool[i]? = some t) :
    tally w (pool.set i t') + w t = tally w pool + w t' := by
  induction pool generalizing i with
  | nil => simp at h
  | cons u pool ih =>
    cases i with
    | zero =>
      obtain rfl : u = t := by simpa using h
      simp only [List.set_cons_zero, tally_cons]
      omega
    | succ i =>
      have := ih (by simpa using h)
      simp only [List.set_cons_succ, tally_cons]
      omega

theorem tally_eraseIdx (w : τ → Nat) {pool : List τ} {i : Nat} {t : τ} (h : pool[i]? = some t) :
    tally w (pool.eraseIdx i) + w t = tally w pool := by
  induction pool generalizing i with
  | nil => simp at h
  | cons u pool ih =>
    cases i with
    | zero =>
      obtain rfl : u = t := by simpa using h
      simp only [List.eraseIdx_cons_zero, tally_cons]
      omega
    | succ i =>
      have := ih (by simpa using h)
      simp only [List.eraseIdx_cons_succ, tally_cons]
      omega

theorem le_tally (w : τ → Nat) {pool : List τ} {t : τ} (h : t ∈ pool) : w t ≤ tally w pool := by
  induction pool with
  | nil => simp at h
  | cons u pool ih =>
    rw [tally_cons]
    rcases List.mem_cons.mp h with rfl | h
    · omega
    · have := ih h
      omega

theorem tally_eq_zero {w : τ → Nat} {pool : List τ} :
    tally w pool = 0 ↔ ∀ t ∈ pool, w t = 0 := by
  induction pool with
  | nil => simp
  | cons u pool ih => simp [ih]

theorem exists_of_tally_pos {w : τ → Nat} {pool : List τ} (h : 0 < tally w pool) :
    ∃ t ∈ pool, 0 < w t := by
  by_contra hnone
  have hzero : tally w pool = 0 := tally_eq_zero.mpr fun t ht => by
    by_contra hne
    exact hnone ⟨t, ht, Nat.pos_of_ne_zero hne⟩
  omega

theorem tally_le_tally {w v : τ → Nat} {pool : List τ} (h : ∀ t ∈ pool, w t ≤ v t) :
    tally w pool ≤ tally v pool := by
  induction pool with
  | nil => simp
  | cons u pool ih =>
    have hu := h u (by simp)
    have hrest := ih fun t ht => h t (by simp [ht])
    simp only [tally_cons]
    omega

theorem tally_lt_tally {w v : τ → Nat} {pool : List τ} {t : τ} (h : ∀ u ∈ pool, w u ≤ v u)
    (ht : t ∈ pool) (hlt : w t < v t) : tally w pool < tally v pool := by
  induction pool with
  | nil => simp at ht
  | cons u pool ih =>
    have hu := h u (by simp)
    have hrest : tally w pool ≤ tally v pool := tally_le_tally fun x hx => h x (by simp [hx])
    simp only [tally_cons]
    rcases List.mem_cons.mp ht with rfl | ht
    · omega
    · have := ih (fun x hx => h x (by simp [hx])) ht
      omega

theorem tally_add (w v : τ → Nat) (pool : List τ) :
    tally (fun t => w t + v t) pool = tally w pool + tally v pool := by
  induction pool with
  | nil => rfl
  | cons u pool ih => simp only [tally_cons, ih]; omega

theorem tally_eq_countP (p : τ → Bool) (pool : List τ) :
    tally (fun t => (p t).toNat) pool = pool.countP p := by
  induction pool with
  | nil => rfl
  | cons u pool ih => cases h : p u <;> simp [ih, h, Nat.add_comm]

theorem tally_one (pool : List τ) : tally (fun _ => 1) pool = pool.length := by
  induction pool with
  | nil => rfl
  | cons u pool ih => rw [tally_cons, ih, List.length_cons, Nat.add_comm]

theorem tally_map {ρ : Type} (w : ρ → Nat) (g : τ → ρ) (pool : List τ) :
    tally w (pool.map g) = tally (fun t => w (g t)) pool := by
  induction pool with
  | nil => rfl
  | cons u pool ih => simp only [List.map_cons, tally_cons, ih]

theorem set_eq_self {pool : List τ} {i : Nat} {t : τ} (h : pool[i]? = some t) :
    pool.set i t = pool := by
  obtain ⟨hlt, hget⟩ := List.getElem?_eq_some_iff.mp h
  rw [← hget]
  exact List.set_getElem_self hlt

theorem forall_mem_set {P : τ → Prop} {pool : List τ} {i : Nat} {t' : τ}
    (h : ∀ t ∈ pool, P t) (ht' : P t') : ∀ t ∈ pool.set i t', P t := by
  intro t ht
  rcases List.mem_or_eq_of_mem_set ht with ht | rfl
  · exact h t ht
  · exact ht'

theorem forall_mem_append_singleton {P : τ → Prop} {pool : List τ} {t' : τ}
    (h : ∀ t ∈ pool, P t) (ht' : P t') : ∀ t ∈ pool ++ [t'], P t := by
  intro t ht
  rcases List.mem_append.mp ht with ht | ht
  · exact h t ht
  · obtain rfl := List.mem_singleton.mp ht
    exact ht'

end FastPort.Foundation.Tally
