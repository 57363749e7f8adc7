import FastPort.Commons.TimerQueue

/-! `ScopedTimer`, the handle that cancels its timer unless it has given the id away: its
members, and programs over any number of such handles. What a program adopts is at any
point in one handle, given back by `Release`, or passed to `Cancel`. -/
namespace FastPort.Commons

open FastPort.Commons.TimerQueue FastPort.Foundation.Tally FastPort.Foundation.Transition

/-- `queue` is `none` for the null pointer. -/
structure ScopedTimer (Queue : Type) where
  queue : Option Queue := none
  id : TimerId := kInvalidTimerId
deriving DecidableEq, Repr

namespace ScopedTimer

variable {Queue : Type}

def adopt (queue : Queue) (id : TimerId) : ScopedTimer Queue := ⟨some queue, id⟩

def cancels (self : ScopedTimer Queue) : List (Queue × TimerId) :=
  match self.queue with
  | none => []
  | some queue => if self.id ≠ kInvalidTimerId then [(queue, self.id)] else []

def moveConstruct (other : ScopedTimer Queue) : ScopedTimer Queue × ScopedTimer Queue :=
  (⟨other.queue, other.id⟩, ⟨none, kInvalidTimerId⟩)

def moveAssign (self other : ScopedTimer Queue) :
    ScopedTimer Queue × ScopedTimer Queue × List (Queue × TimerId) :=
  (⟨other.queue, other.id⟩, ⟨none, kInvalidTimerId⟩, self.cancels)

def release (self : ScopedTimer Queue) : TimerId × ScopedTimer Queue :=
  (self.id, ⟨none, kInvalidTimerId⟩)

/-- The objects of a program, `none` once destroyed. The rest is history: what was
adopted, what `Release` returned from a handle on which queue, what `Cancel` was called
with. -/
structure Handles (Queue : Type) where
  objects : List (Option (ScopedTimer Queue))
  adopted : List (Queue × TimerId)
  released : List (Option Queue × TimerId)
  cancelled : List (Queue × TimerId)
deriving DecidableEq

/-- What a program does to its handles; an object is named by its place in `objects`. -/
inductive Op (Queue : Type) where
  | default
  | adopt (queue : Queue) (id : TimerId)
  | moveConstruct (other : Nat)
  | moveAssign (self other : Nat)
  | release (self : Nat)
  | destroy (self : Nat)
deriving DecidableEq

namespace Handles

variable {Queue : Type}

def get? (s : Handles Queue) (i : Nat) : Option (ScopedTimer Queue) :=
  s.objects[i]?.bind fun object => object

theorem getElem?_of_get? {s : Handles Queue} {i : Nat} {t : ScopedTimer Queue}
    (h : s.get? i = some t) : s.objects[i]? = some (some t) := by
  obtain ⟨object, hobject, hsome⟩ := Option.bind_eq_some_iff.mp h
  rwa [show object = some t from hsome] at hobject

/-- `none` where the program names an object that does not exist. -/
def exec (s : Handles Queue) : Op Queue → Option (Handles Queue)
  | .default => some { s with objects := s.objects ++ [some {}] }
  | .adopt queue id => some { s with
      objects := s.objects ++ [some (.adopt queue id)]
      adopted := s.adopted ++ [(queue, id)] }
  | .moveConstruct other =>
      (s.get? other).map fun o => { s with
        objects := s.objects.set other (some o.moveConstruct.2) ++ [some o.moveConstruct.1] }
  | .moveAssign self other =>
      if self = other then (s.get? self).map fun _ => s
      else
        (s.get? self).bind fun t => (s.get? other).map fun o => { s with
          objects := (s.objects.set self (some (t.moveAssign o).1)).set other
            (some (t.moveAssign o).2.1)
          cancelled := s.cancelled ++ (t.moveAssign o).2.2 }
  | .release self =>
      (s.get? self).map fun t => { s with
        objects := s.objects.set self (some t.release.2)
        released := s.released ++ [(t.queue, t.release.1)] }
  | .destroy self =>
      (s.get? self).map fun t => { s with
        objects := s.objects.set self none
        cancelled := s.cancelled ++ t.cancels }

end Handles

def system (Queue : Type) : System (Handles Queue) (Op Queue) where
  init s := s = ⟨[], [], [], []⟩
  step s op := s.exec op

variable {Queue : Type} [DecidableEq Queue]

/-- No valid id of a queue is adopted twice. -/
def Distinct (s : Handles Queue) : Op Queue → Prop
  | .adopt queue id => id ≠ kInvalidTimerId → (queue, id) ∉ s.adopted
  | _ => True

instance (s : Handles Queue) (op : Op Queue) : Decidable (Distinct s op) :=
  match op with
  | .adopt _ _ => inferInstanceAs (Decidable (_ ≠ _ → _ ∉ _))
  | .default => .isTrue trivial
  | .moveConstruct _ => .isTrue trivial
  | .moveAssign _ _ => .isTrue trivial
  | .release _ => .isTrue trivial
  | .destroy _ => .isTrue trivial

def holds (timer : Queue × TimerId) : Option (ScopedTimer Queue) → Nat
  | none => 0
  | some t => if t.queue = some timer.1 ∧ t.id = timer.2 then 1 else 0

def holders (s : Handles Queue) (timer : Queue × TimerId) : Nat := tally (holds timer) s.objects

variable {s : Handles Queue} {timer : Queue × TimerId} {t o : ScopedTimer Queue} {i j : Nat}

theorem holds_empty (hvalid : timer.2 ≠ kInvalidTimerId) :
    holds timer (some ⟨none, kInvalidTimerId⟩) = 0 := by
  simp [holds, hvalid.symm]

theorem count_cancels (hvalid : timer.2 ≠ kInvalidTimerId) (t : ScopedTimer Queue) :
    t.cancels.count timer = holds timer (some t) := by
  obtain ⟨queue, id⟩ := timer
  obtain ⟨held, heldId⟩ := t
  cases held with
  | none => simp [cancels, holds]
  | some q =>
    by_cases hid : heldId = kInvalidTimerId
    · have hne : heldId ≠ id := fun heq => hvalid (heq ▸ hid)
      simp [cancels, holds, hid, hid ▸ hne]
    · simp [cancels, holds, hid, List.count_singleton, Prod.ext_iff]

theorem count_released (timer : Queue × TimerId) (t : ScopedTimer Queue) :
    [(t.queue, t.release.1)].count (some timer.1, timer.2) = holds timer (some t) := by
  simp [release, holds, List.count_singleton, Prod.ext_iff]

structure Balanced (s : Handles Queue) (timer : Queue × TimerId) : Prop where
  once : s.adopted.count timer ≤ 1
  balance : holders s timer + s.released.count (some timer.1, timer.2) +
    s.cancelled.count timer = s.adopted.count timer

/-- Every operation keeps the balance: a move carries a timer from one handle to another,
the rest take it out of its handle and write down how. -/
theorem Balanced.exec {s' : Handles Queue} {op : Op Queue} (hvalid : timer.2 ≠ kInvalidTimerId)
    (h : Balanced s timer) (hok : Distinct s op) (hstep : s.exec op = some s') :
    Balanced s' timer := by
  have hempty := holds_empty hvalid
  have hbalance := h.balance
  unfold holders at hbalance
  cases op with
  | default =>
    cases hstep
    refine ⟨h.once, ?_⟩
    simp only [holders, tally_append, tally_cons, tally_nil]
    rw [show holds timer (some {}) = 0 from hempty]
    omega
  | adopt queue id =>
    cases hstep
    have hholds : holds timer (some (.adopt queue id)) = [(queue, id)].count timer := by
      simp [holds, ScopedTimer.adopt, List.count_singleton, Prod.ext_iff]
    constructor
    · rw [List.count_append]
      by_cases hsame : (queue, id) = timer
      · subst hsame
        have hbefore := List.count_eq_zero_of_not_mem (hok hvalid)
        have hself : [(queue, id)].count (queue, id) = 1 := List.count_singleton_self
        omega
      · rw [List.count_singleton, if_neg (by simpa using hsame)]
        exact h.once
    · simp only [holders, tally_append, tally_cons, tally_nil, List.count_append, hholds]
      omega
  | moveConstruct other =>
    obtain ⟨o, hother, rfl⟩ := Option.map_eq_some_iff.mp hstep
    have hset := tally_set (holds timer) (some o.moveConstruct.2) (Handles.getElem?_of_get? hother)
    rw [show holds timer (some o.moveConstruct.2) = 0 from hempty] at hset
    refine ⟨h.once, ?_⟩
    simp only [holders, tally_append, tally_cons, tally_nil]
    rw [show holds timer (some o.moveConstruct.1) = holds timer (some o) from rfl]
    omega
  | moveAssign self other =>
    simp only [Handles.exec] at hstep
    split at hstep
    · obtain ⟨-, -, rfl⟩ := Option.map_eq_some_iff.mp hstep
      exact h
    · rename_i hne
      obtain ⟨t, hself, hstep⟩ := Option.bind_eq_some_iff.mp hstep
      obtain ⟨o, hother, rfl⟩ := Option.map_eq_some_iff.mp hstep
      have hset := tally_set (holds timer) (some (t.moveAssign o).1)
        (Handles.getElem?_of_get? hself)
      have hkept : (s.objects.set self (some (t.moveAssign o).1))[other]? = some (some o) :=
        (List.getElem?_set_ne hne).trans (Handles.getElem?_of_get? hother)
      have hset' := tally_set (holds timer) (some (t.moveAssign o).2.1) hkept
      rw [show holds timer (some (t.moveAssign o).1) = holds timer (some o) from rfl] at hset
      rw [show holds timer (some (t.moveAssign o).2.1) = 0 from hempty] at hset'
      have hcancels : (t.moveAssign o).2.2.count timer = holds timer (some t) :=
        count_cancels hvalid t
      refine ⟨h.once, ?_⟩
      simp only [holders, List.count_append, hcancels]
      omega
  | release self =>
    obtain ⟨t, hself, rfl⟩ := Option.map_eq_some_iff.mp hstep
    have hset := tally_set (holds timer) (some t.release.2) (Handles.getElem?_of_get? hself)
    rw [show holds timer (some t.release.2) = 0 from hempty] at hset
    have hreleased := count_released timer t
    refine ⟨h.once, ?_⟩
    simp only [holders, List.count_append, hreleased]
    omega
  | destroy self =>
    obtain ⟨t, hself, rfl⟩ := Option.map_eq_some_iff.mp hstep
    have hset := tally_set (holds timer) none (Handles.getElem?_of_get? hself)
    have hcancels := count_cancels hvalid t
    rw [show holds timer none = 0 from rfl] at hset
    refine ⟨h.once, ?_⟩
    simp only [holders, List.count_append, hcancels]
    omega

theorem balanced (hs : (system Queue).Reach Distinct s) (timer : Queue × TimerId)
    (hvalid : timer.2 ≠ kInvalidTimerId) : Balanced s timer := by
  apply hs.invariant
  · rintro s rfl
    exact ⟨Nat.zero_le _, rfl⟩
  · intro s op s' _ h hok hstep
    exact h.exec hvalid hok hstep

/-- A valid id that was adopted is in one handle at most; when all handles are gone it has
been released, or cancelled on its own queue, once and not both. -/
theorem scoped_timer_linear (hs : (system Queue).Reach Distinct s) {queue : Queue} {id : TimerId}
    (hvalid : id ≠ kInvalidTimerId) (hadopted : (queue, id) ∈ s.adopted) :
    holders s (queue, id) ≤ 1 ∧
    (∀ other, (other, id) ∉ s.adopted → (other, id) ∉ s.cancelled) ∧
    ((∀ object ∈ s.objects, object = none) →
      (s.released.count (some queue, id) = 1 ∧ s.cancelled.count (queue, id) = 0) ∨
      (s.released.count (some queue, id) = 0 ∧ s.cancelled.count (queue, id) = 1)) := by
  obtain ⟨honce, hbalance⟩ := balanced hs (queue, id) hvalid
  have hpos := List.count_pos_iff.mpr hadopted
  refine ⟨by omega, ?_, ?_⟩
  · intro other hnot hmem
    obtain ⟨-, hother⟩ := balanced hs (other, id) hvalid
    have hcancelled := List.count_pos_iff.mpr hmem
    rw [List.count_eq_zero_of_not_mem hnot] at hother
    omega
  · intro hgone
    have hnone : holders s (queue, id) = 0 := by
      refine tally_eq_zero.mpr fun object hobject => ?_
      rw [hgone object hobject]
      rfl
    dsimp only at hbalance
    omega

/-- Two timers: one moves into a handle, is assigned over another handle and cancelled
there, the other one is released. -/
def movesAround : List (Op Nat) :=
  [.adopt 0 5, .adopt 0 6, .default, .moveAssign 2 1, .moveConstruct 0, .moveAssign 3 3,
    .release 2, .destroy 0, .destroy 1, .destroy 2, .destroy 3]

theorem scoped_timer_linear_movesAround : ∃ s : Handles Nat,
    s.released.count (some 0, 6) = 1 ∧ s.cancelled.count (0, 5) = 1 ∧
      s.cancelled.count (0, 6) = 0 := by
  obtain ⟨s, hrun, htest⟩ := System.exists_of_runUnder (system Nat) Distinct ⟨[], [], [], []⟩
    movesAround (fun s => decide ((0, 5) ∈ s.adopted ∧ (0, 6) ∈ s.adopted ∧
      (∀ object ∈ s.objects, object = none) ∧ 0 < s.released.count (some 0, 6) ∧
      0 < s.cancelled.count (0, 5))) (by decide)
  obtain ⟨hfive, hsix, hgone, hreleased, hcancelled⟩ := of_decide_eq_true htest
  have hs : (system Nat).Reach Distinct s := .of_runUnder (.init rfl) hrun
  have hlinear := (scoped_timer_linear hs (by decide) hfive).2.2 hgone
  have hlinear' := (scoped_timer_linear hs (by decide) hsix).2.2 hgone
  exact ⟨s, by omega, by omega, by omega⟩

end ScopedTimer

end FastPort.Commons
