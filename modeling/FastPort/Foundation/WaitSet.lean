import Mathlib.Data.List.Basic

/-! A condition variable as the set of those who wait for it. Each wait has a ticket of its
own; a notification takes tickets out of the set, and who finds the own ticket gone has
been woken. A wait may also end by itself. -/
namespace FastPort.Foundation.WaitSet

structure Condition where
  waiters : List Nat
  nextTicket : Nat
deriving DecidableEq, Repr

namespace Condition

def initial : Condition := ⟨[], 0⟩

def wait (c : Condition) : Condition := ⟨c.waiters ++ [c.nextTicket], c.nextTicket + 1⟩

def leave (c : Condition) (ticket : Nat) : Condition :=
  { c with waiters := c.waiters.filter (· ≠ ticket) }

def woken (c : Condition) (chosen : List Nat) : List Nat :=
  if (c.waiters.filter (· ∈ chosen)).isEmpty then c.waiters.take 1
  else c.waiters.filter (· ∈ chosen)

def notifyOne (c : Condition) (chosen : List Nat) : Condition :=
  { c with waiters := c.waiters.filter (· ∉ c.woken chosen) }

def notifyAll (c : Condition) : Condition := { c with waiters := [] }

variable {c : Condition} {ticket t : Nat} {chosen : List Nat}

theorem mem_wait : t ∈ c.wait.waiters ↔ t ∈ c.waiters ∨ t = c.nextTicket := by
  simp [wait]

theorem mem_leave : t ∈ (c.leave ticket).waiters ↔ t ∈ c.waiters ∧ t ≠ ticket := by
  simp [leave]

theorem mem_of_mem_notifyOne (h : t ∈ (c.notifyOne chosen).waiters) : t ∈ c.waiters :=
  List.mem_of_mem_filter h

theorem leave_waiters_nil (h : c.waiters = []) : (c.leave ticket).waiters = [] := by
  simp [leave, h]

theorem notifyOne_waiters_nil (h : c.waiters = []) : (c.notifyOne chosen).waiters = [] := by
  simp [notifyOne, h]

@[simp] theorem notifyAll_waiters : c.notifyAll.waiters = [] := rfl

theorem exists_woken (h : c.waiters ≠ []) (chosen : List Nat) :
    ∃ t ∈ c.waiters, t ∉ (c.notifyOne chosen).waiters := by
  have hwoken : ∃ t ∈ c.waiters, t ∈ c.woken chosen := by
    unfold woken
    split
    · obtain ⟨t, rest, hcons⟩ := List.exists_cons_of_ne_nil h
      exact ⟨t, by simp [hcons], by simp [hcons]⟩
    · rename_i hsome
      rw [List.isEmpty_iff] at hsome
      obtain ⟨t, ht⟩ := List.exists_mem_of_ne_nil _ hsome
      exact ⟨t, List.mem_of_mem_filter ht, ht⟩
  obtain ⟨t, hmem, ht⟩ := hwoken
  refine ⟨t, hmem, fun hleft => ?_⟩
  simp [notifyOne, ht] at hleft

end Condition

end FastPort.Foundation.WaitSet
