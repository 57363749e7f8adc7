import Mathlib.Data.List.Basic

/-! Threads that are created, run and return, each under a number of its own. Who has seen
all of them return knows that none is left. -/
namespace FastPort.Foundation.Threads

structure Crew where
  created : Nat
  unstarted : List Nat
  returned : List Nat
deriving DecidableEq

namespace Crew

def initial : Crew := ⟨0, [], []⟩

def create (c : Crew) : Crew :=
  { c with created := c.created + 1, unstarted := c.unstarted ++ [c.created] }

def enter (c : Crew) (id : Nat) : Crew := { c with unstarted := c.unstarted.erase id }

def leave (c : Crew) (id : Nat) : Crew := { c with returned := c.returned ++ [id] }

/-- How often the number stands for a thread that does not run. -/
def apart (c : Crew) (id : Nat) : Nat := c.returned.count id + c.unstarted.count id

def given (c : Crew) (id : Nat) : Nat := if id < c.created then 1 else 0

def aside (c : Crew) : Nat := c.returned.length + c.unstarted.length

variable {c c' : Crew} {id i : Nat}

theorem given_le_one (c : Crew) (id : Nat) : c.given id ≤ 1 := by
  unfold given
  split <;> omega

@[simp] theorem created_enter : (c.enter i).created = c.created := rfl

@[simp] theorem created_leave : (c.leave i).created = c.created := rfl

@[simp] theorem given_enter : (c.enter i).given id = c.given id := rfl

@[simp] theorem given_leave : (c.leave i).given id = c.given id := rfl

theorem apart_create (c : Crew) (id : Nat) :
    c.create.apart id + c.given id = c.create.given id + c.apart id := by
  simp only [apart, given, create, List.count_append, List.count_singleton, beq_iff_eq,
    Nat.lt_succ_iff_lt_or_eq]
  grind

theorem apart_enter (id : Nat) (h : i ∈ c.unstarted) :
    (c.enter i).apart id + (if i = id then 1 else 0) = c.apart id := by
  simp only [apart, enter]
  rcases eq_or_ne i id with rfl | hne
  · have hpos := List.count_pos_iff.mpr h
    rw [List.count_erase_self, if_pos rfl]
    omega
  · rw [List.count_erase_of_ne hne.symm, if_neg hne]
    omega

theorem apart_leave : (c.leave i).apart id = c.apart id + if i = id then 1 else 0 := by
  simp only [apart, leave, List.count_append, List.count_singleton, beq_iff_eq]
  omega

theorem aside_create (c : Crew) : c.create.aside + c.created = c.create.created + c.aside := by
  simp only [aside, create, List.length_append, List.length_singleton]
  omega

theorem aside_enter (h : i ∈ c.unstarted) : (c.enter i).aside + 1 = c.aside := by
  have hpos := List.length_pos_of_mem h
  simp only [aside, enter, List.length_erase_of_mem h]
  omega

theorem aside_leave : (c.leave i).aside = c.aside + 1 := by
  simp only [aside, leave, List.length_append, List.length_singleton]
  omega

theorem gone_of_returned (running : Nat → Nat) (h : ∀ id, c.apart id + running id = c.given id)
    (hall : ∀ id < c.created, id ∈ c.returned) :
    c.unstarted = [] ∧ ∀ id, running id = 0 := by
  have hnone : ∀ id, c.unstarted.count id + running id = 0 := by
    intro id
    have heq := h id
    unfold apart given at heq
    split at heq
    · rename_i hlt
      have hpos := List.count_pos_iff.mpr (hall id hlt)
      omega
    · omega
  refine ⟨List.eq_nil_iff_forall_not_mem.mpr fun id hid => ?_, fun id => ?_⟩
  · have hpos := List.count_pos_iff.mpr hid
    have := hnone id
    omega
  · have := hnone id
    omega

theorem running_of_created {running : Nat} (h : c.apart id + running = c.given id)
    (hlt : id < c.created) (hunstarted : c.unstarted = []) (hreturned : id ∉ c.returned) :
    0 < running := by
  rw [apart, given, if_pos hlt, hunstarted, List.count_eq_zero.mpr hreturned, List.count_nil] at h
  omega

structure Onward (c c' : Crew) : Prop where
  created : c'.created = c.created
  returned : ∀ id ∈ c.returned, id ∈ c'.returned

theorem Onward.refl (c : Crew) : c.Onward c := ⟨rfl, fun _ h => h⟩

theorem onward_enter (c : Crew) (id : Nat) : c.Onward (c.enter id) := ⟨rfl, fun _ h => h⟩

theorem onward_leave (c : Crew) (id : Nat) : c.Onward (c.leave id) :=
  ⟨rfl, fun _ h => List.mem_append_left _ h⟩

variable {workers remaining : List Nat}

structure Listed (c : Crew) (workers : List Nat) : Prop where
  listed : ∀ id < c.created, id ∈ workers ∨ id ∈ c.returned
  known : ∀ id ∈ workers, id < c.created

theorem listed_initial : initial.Listed [] :=
  ⟨fun id hid => absurd hid (Nat.not_lt_zero id), fun _ hid => absurd hid List.not_mem_nil⟩

theorem Listed.onward (h : c.Listed workers) (hc : c.Onward c') : c'.Listed workers where
  listed id hid := by
    rw [hc.created] at hid
    exact (h.listed id hid).imp_right (hc.returned id)
  known := by
    rw [hc.created]
    exact h.known

theorem Listed.create (h : c.Listed workers) : c.create.Listed (workers ++ [c.created]) where
  listed id hid := by
    rcases Nat.lt_succ_iff_lt_or_eq.mp hid with hlt | rfl
    · exact (h.listed id hlt).imp_left (List.mem_append_left _)
    · exact .inl (by simp)
  known id hid := by
    rcases List.mem_append.mp hid with hid | hid
    · exact Nat.lt_succ_of_lt (h.known id hid)
    · exact List.mem_singleton.mp hid ▸ Nat.lt_succ_self _

theorem Listed.returned (h : c.Listed workers) (hall : ∀ id ∈ workers, id ∈ c.returned) :
    ∀ id < c.created, id ∈ c.returned :=
  fun id hid => (h.listed id hid).elim (hall id) fun hreturned => hreturned

theorem Listed.clear (h : c.Listed workers) (hall : ∀ id ∈ workers, id ∈ c.returned) :
    c.Listed [] :=
  ⟨fun id hid => .inr (h.returned hall id hid), fun _ hid => absurd hid List.not_mem_nil⟩

structure Joining (c : Crew) (workers remaining : List Nat) : Prop where
  subset : ∀ id ∈ remaining, id ∈ workers
  joined : ∀ id ∈ workers, id ∈ remaining ∨ id ∈ c.returned

theorem Joining.begin (c : Crew) (workers : List Nat) : c.Joining workers workers :=
  ⟨fun _ hid => hid, fun _ hid => .inl hid⟩

theorem Joining.next (h : c.Joining workers (i :: remaining)) (hreturned : i ∈ c.returned) :
    c.Joining workers remaining where
  subset id hid := h.subset id (List.mem_cons_of_mem _ hid)
  joined id hid := by
    rcases h.joined id hid with hmem | hmem
    · rcases List.mem_cons.mp hmem with rfl | hmem
      · exact .inr hreturned
      · exact .inl hmem
    · exact .inr hmem

theorem Joining.done (h : c.Joining workers []) : ∀ id ∈ workers, id ∈ c.returned :=
  fun id hid => (h.joined id hid).resolve_left List.not_mem_nil

theorem Joining.onward (h : c.Joining workers remaining) (hc : c.Onward c') :
    c'.Joining workers remaining :=
  ⟨h.subset, fun id hid => (h.joined id hid).imp_right (hc.returned id)⟩

end Crew

end FastPort.Foundation.Threads
