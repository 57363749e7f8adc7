import Mathlib.Data.List.Basic
import Mathlib.Algebra.BigOperators.Group.List.Basic

/-! Cutting a stream into frames. A decoder looks at the buffered stream and
says whether its first frame is complete; it must not change its mind when more
data arrives. Draining then commutes with appending, so the frames delivered do
not depend on how the stream was cut into arrivals. -/
namespace FastPort.Foundation.Framing

inductive Verdict where
  | needMore
  | invalid
  | frame (length : Nat)
deriving DecidableEq, Repr

structure Decoder (α : Type) where
  next : List α → Verdict
  frame_pos : ∀ xs n, next xs = .frame n → 0 < n
  frame_le : ∀ xs n, next xs = .frame n → n ≤ xs.length
  stable : ∀ xs ys, next xs ≠ .needMore → next (xs ++ ys) = next xs

namespace Decoder

variable {α : Type} (d : Decoder α)

/-- The frames taken off a stream until the decoder stops, and what is left. -/
def drain (xs : List α) : List (List α) × List α :=
  match h : d.next xs with
  | .frame n =>
      have := d.frame_pos xs n h
      have := d.frame_le xs n h
      let rest := drain (xs.drop n)
      (xs.take n :: rest.1, rest.2)
  | _ => ([], xs)
termination_by xs.length
decreasing_by simp only [List.length_drop]; omega

variable {d}

theorem drain_of_frame {xs : List α} {n : Nat} (h : d.next xs = .frame n) :
    d.drain xs = (xs.take n :: (d.drain (xs.drop n)).1, (d.drain (xs.drop n)).2) := by
  rw [drain]
  split
  · rename_i m hm
    obtain rfl : m = n := by simpa [h] using hm.symm
    rfl
  · rename_i hnot
    exact absurd h (hnot n)

theorem drain_of_stop {xs : List α} (h : ∀ n, d.next xs ≠ .frame n) : d.drain xs = ([], xs) := by
  rw [drain]
  split
  · rename_i m hm
    exact absurd hm (h m)
  · rfl

@[simp] theorem drain_nil : d.drain [] = ([], []) := by
  apply drain_of_stop
  intro n hn
  have hpos := d.frame_pos [] n hn
  have hle := d.frame_le [] n hn
  rw [List.length_nil] at hle
  omega

theorem next_drain (xs : List α) (n : Nat) : d.next (d.drain xs).2 ≠ .frame n := by
  induction hlen : xs.length using Nat.strongRecOn generalizing xs with
  | _ len ih =>
    by_cases h : ∃ m, d.next xs = .frame m
    · obtain ⟨m, hm⟩ := h
      have hpos := d.frame_pos xs m hm
      have hle := d.frame_le xs m hm
      rw [drain_of_frame hm]
      exact ih _ (by simp only [List.length_drop]; omega) _ rfl
    · rw [drain_of_stop fun m hm => h ⟨m, hm⟩]
      exact fun hn => h ⟨n, hn⟩

theorem drain_append (xs ys : List α) :
    d.drain (xs ++ ys) =
      ((d.drain xs).1 ++ (d.drain ((d.drain xs).2 ++ ys)).1,
        (d.drain ((d.drain xs).2 ++ ys)).2) := by
  induction hlen : xs.length using Nat.strongRecOn generalizing xs with
  | _ len ih =>
    by_cases h : ∃ n, d.next xs = .frame n
    · obtain ⟨n, hn⟩ := h
      have hpos := d.frame_pos xs n hn
      have hle := d.frame_le xs n hn
      have hmore : d.next (xs ++ ys) = .frame n := by
        rw [d.stable xs ys (by simp [hn]), hn]
      rw [drain_of_frame hmore, drain_of_frame hn, List.take_append_of_le_length hle,
        List.drop_append_of_le_length hle, ih _ (by simp only [List.length_drop]; omega) _ rfl]
      rfl
    · have hstop := drain_of_stop fun n hn => h ⟨n, hn⟩
      rw [hstop]
      rfl

theorem next_append {frame : List α} (h : d.next frame = .frame frame.length) (ys : List α) :
    d.next (frame ++ ys) = .frame frame.length := by
  rw [d.stable frame ys (by simp [h]), h]

theorem next_prefix {frame xs ys : List α} (h : d.next frame = .frame frame.length)
    (hsplit : frame = xs ++ ys) (hlt : xs.length < frame.length) : d.next xs = .needMore := by
  by_contra hmore
  have hnext := d.stable xs ys hmore
  rw [← hsplit, h] at hnext
  have := d.frame_le xs _ hnext.symm
  omega

theorem next_of_prefix {frames : List (List α)} {xs : List α}
    (h : ∀ f ∈ frames, d.next f = .frame f.length) (hxs : xs <+: frames.flatten) :
    xs = [] ∨
    (∃ f rest, frames = f :: rest ∧ xs.length < f.length ∧ d.next xs = .needMore) ∨
    ∃ f rest more, frames = f :: rest ∧ xs = f ++ more ∧ d.next xs = .frame f.length := by
  cases frames with
  | nil => exact .inl (List.prefix_nil.mp hxs)
  | cons f rest =>
    have hf := h f List.mem_cons_self
    rw [List.flatten_cons] at hxs
    rcases Nat.lt_or_ge xs.length f.length with hlt | hge
    · obtain ⟨ys, hys⟩ := List.prefix_of_prefix_length_le hxs (List.prefix_append f _)
        (Nat.le_of_lt hlt)
      exact .inr (.inl ⟨f, rest, rfl, hlt, next_prefix hf hys.symm hlt⟩)
    · obtain ⟨more, rfl⟩ := List.prefix_of_prefix_length_le (List.prefix_append f _) hxs hge
      exact .inr (.inr ⟨f, rest, more, rfl, rfl, next_append hf more⟩)

theorem drain_flatten_append {frames : List (List α)} {tail : List α}
    (h : ∀ f ∈ frames, d.next f = .frame f.length) (htail : d.next tail = .needMore) :
    d.drain (frames.flatten ++ tail) = (frames, tail) := by
  induction frames with
  | nil => exact drain_of_stop (by simp [htail])
  | cons f frames ih =>
    have hf := next_append (h f (by simp)) (frames.flatten ++ tail)
    rw [List.flatten_cons, List.append_assoc, drain_of_frame hf, List.take_left, List.drop_left,
      ih fun g hg => h g (by simp [hg])]

def Prompt (d : Decoder α) : Prop :=
  ∀ xs ys n, d.next (xs ++ ys) = .frame n → n ≤ xs.length → d.next xs = .frame n

/-- A decoder over room for `limit` elements: a longer frame is invalid, and so
is a longer stream that does not yet make a frame. -/
def bounded (d : Decoder α) (limit : Nat) (hprompt : d.Prompt) : Decoder α where
  next xs :=
    match d.next xs with
    | .frame n => if n ≤ limit then .frame n else .invalid
    | .invalid => .invalid
    | .needMore => if xs.length ≤ limit then .needMore else .invalid
  frame_pos := by
    intro xs n h
    have hpos := d.frame_pos xs n
    grind
  frame_le := by
    intro xs n h
    have hle := d.frame_le xs n
    grind
  stable := by
    intro xs ys h
    have hstable := d.stable xs ys
    cases hxs : d.next xs with
    | frame n => rw [hstable (by simp [hxs]), hxs]
    | invalid => rw [hstable (by simp [hxs]), hxs]
    | needMore =>
      have hlong : limit < xs.length := by
        by_contra hle
        simp [hxs, Nat.le_of_not_lt hle] at h
      simp only [Nat.not_le_of_lt hlong, if_false]
      cases hmore : d.next (xs ++ ys) with
      | frame n =>
        have hlimit : ¬ n ≤ limit := by
          intro hle
          have hframe := hprompt xs ys n hmore (by omega)
          simp [hxs] at hframe
        simp [hlimit]
      | invalid => rfl
      | needMore =>
        have hlong' : ¬ (xs ++ ys).length ≤ limit := by
          rw [List.length_append]
          omega
        exact if_neg hlong'

section

variable {limit : Nat} {hprompt : d.Prompt}

theorem bounded_next {xs : List α} (h : xs.length ≤ limit) :
    (d.bounded limit hprompt).next xs = d.next xs := by
  have hle := d.frame_le xs
  simp only [bounded]
  cases hnext : d.next xs with
  | frame n =>
    have hn := hle n hnext
    simp [show n ≤ limit by omega]
  | invalid => rfl
  | needMore => simp [h]

theorem bounded_next_of_long {xs ys : List α} (hlong : limit ≤ xs.length) (hys : ys ≠ [])
    (hstop : ∀ n, d.next xs ≠ .frame n) :
    (d.bounded limit hprompt).next (xs ++ ys) = .invalid := by
  have hpos := List.length_pos_iff.mpr hys
  simp only [bounded]
  cases hnext : d.next (xs ++ ys) with
  | frame n =>
    have hlimit : ¬ n ≤ limit := fun hle =>
      hstop n (hprompt xs ys n hnext (Nat.le_trans hle hlong))
    simp [hlimit]
  | invalid => rfl
  | needMore =>
    have hlength : ¬ (xs ++ ys).length ≤ limit := by
      rw [List.length_append]
      omega
    exact if_neg hlength

theorem bounded_drain {xs : List α} (hframes : ∀ f ∈ (d.drain xs).1, f.length ≤ limit)
    (hrest : (d.drain xs).2.length ≤ limit) :
    (d.bounded limit hprompt).drain xs = d.drain xs := by
  induction hlen : xs.length using Nat.strongRecOn generalizing xs with
  | _ len ih =>
    by_cases h : ∃ n, d.next xs = .frame n
    · obtain ⟨n, hn⟩ := h
      have hpos := d.frame_pos xs n hn
      have hle := d.frame_le xs n hn
      rw [drain_of_frame hn, List.forall_mem_cons, List.length_take, Nat.min_eq_left hle]
        at hframes
      rw [drain_of_frame hn] at hrest
      have hn' : (d.bounded limit hprompt).next xs = .frame n := by
        simp [bounded, hn, hframes.1]
      rw [drain_of_frame hn, drain_of_frame hn',
        ih _ (by simp only [List.length_drop]; omega) hframes.2 hrest rfl]
    · have hstop : ∀ n, d.next xs ≠ .frame n := fun n hn => h ⟨n, hn⟩
      rw [drain_of_stop hstop] at hrest ⊢
      apply drain_of_stop
      intro n hn
      rw [bounded_next hrest] at hn
      exact hstop n hn

theorem bounded_drain_of_full {xs ys : List α} (hframes : ∀ f ∈ (d.drain xs).1, f.length ≤ limit)
    (hrest : (d.drain xs).2.length = limit) (hys : ys ≠ []) :
    ((d.bounded limit hprompt).drain (xs ++ ys)).1 = (d.drain xs).1 := by
  have hnext : (d.bounded limit hprompt).next ((d.drain xs).2 ++ ys) = .invalid :=
    bounded_next_of_long (Nat.le_of_eq hrest.symm) hys (next_drain xs)
  have hstop : (d.bounded limit hprompt).drain ((d.drain xs).2 ++ ys) =
      ([], (d.drain xs).2 ++ ys) := drain_of_stop (by simp [hnext])
  rw [drain_append, bounded_drain hframes (Nat.le_of_eq hrest), hstop, List.append_nil]

end

/-- A reader on its way through what has arrived: `out` are the frames it has given
out, as it makes them, and `kept` is what it has still to look at. -/
structure Cuts {β : Type} (d : Decoder α) (make : List α → β) (arrived : List α)
    (out : List β) (kept : List α) : Prop where
  frames : out ++ (d.drain kept).1.map make = (d.drain arrived).1.map make
  rest : (d.drain kept).2 = (d.drain arrived).2

namespace Cuts

variable {β : Type} {make : List α → β} {arrived kept : List α} {out : List β}

theorem nil : d.Cuts make [] [] [] := ⟨rfl, rfl⟩

theorem append (h : d.Cuts make arrived out kept) (more : List α) :
    d.Cuts make (arrived ++ more) out (kept ++ more) := by
  constructor
  · rw [drain_append kept, drain_append arrived, List.map_append, List.map_append, ← h.frames,
      h.rest, List.append_assoc]
  · rw [drain_append kept, drain_append arrived, h.rest]

theorem frame (h : d.Cuts make arrived out kept) {n : Nat} (hn : d.next kept = .frame n) :
    d.Cuts make arrived (out ++ [make (kept.take n)]) (kept.drop n) := by
  have hframes := h.frames
  have hrest := h.rest
  rw [drain_of_frame hn] at hframes hrest
  exact ⟨by simpa using hframes, hrest⟩

theorem stop (h : d.Cuts make arrived out kept) (hstop : ∀ n, d.next kept ≠ .frame n) :
    out = (d.drain arrived).1.map make ∧ kept = (d.drain arrived).2 := by
  have hframes := h.frames
  have hrest := h.rest
  rw [drain_of_stop hstop] at hframes hrest
  exact ⟨by simpa using hframes, hrest⟩

end Cuts

end Decoder

theorem exists_split_of_prefix {α : Type} {frames : List (List α)} {xs : List α}
    (h : xs <+: frames.flatten) : ∃ k tail, k ≤ frames.length ∧
      xs = (frames.take k).flatten ++ tail ∧
      (tail = [] ∨ ∃ f, frames[k]? = some f ∧ tail <+: f ∧ tail.length < f.length) := by
  induction frames generalizing xs with
  | nil => exact ⟨0, [], Nat.zero_le _, by simpa using h, .inl rfl⟩
  | cons f frames ih =>
    rw [List.flatten_cons] at h
    rcases Nat.lt_or_ge xs.length f.length with hlt | hge
    · have hinside := List.prefix_of_prefix_length_le h (List.prefix_append f _)
        (Nat.le_of_lt hlt)
      exact ⟨0, xs, Nat.zero_le _, rfl, .inr ⟨f, rfl, hinside, hlt⟩⟩
    · obtain ⟨ys, rfl⟩ := List.prefix_of_prefix_length_le (List.prefix_append f _) h hge
      obtain ⟨k, tail, hk, hsplit, htail⟩ := ih ((List.prefix_append_right_inj f).mp h)
      refine ⟨k + 1, tail, Nat.succ_le_succ hk, ?_, htail⟩
      rw [hsplit, List.take_succ_cons, List.flatten_cons, List.append_assoc]

end FastPort.Foundation.Framing
