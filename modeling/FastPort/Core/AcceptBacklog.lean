import FastPort.Core.IOSocketAcceptor
import Mathlib.Data.List.Perm.Basic
import Mathlib.Data.List.Nodup

/-! The accept backlog is conserved as long as no handler returns early, and the one
early return that can happen is that of a failed `SO_UPDATE_ACCEPT_CONTEXT`. -/
namespace FastPort.Core.Accept

open FastPort.Foundation.Pool FastPort.Foundation.Stack FastPort.Foundation.Tally
open FastPort.Foundation.Transition

def Frame.present (_ : Frame) : Nat := 1

def Frame.owes : Frame → Nat
  | start beginAcceptCount i => beginAcceptCount - i
  | beginAcceptEx _ => 1
  | onIOCompleted _ .delete => 0
  | onIOCompleted _ _ => 1

def Frame.holds (overlapped : Nat) : Frame → Nat
  | start _ _ => 0
  | beginAcceptEx .checkExecuted => 0
  | beginAcceptEx (.createSocket o) => if o = overlapped then 1 else 0
  | beginAcceptEx (.acceptEx o) => if o = overlapped then 1 else 0
  | onIOCompleted o _ => if o = overlapped then 1 else 0

/-- The requests that are outstanding, or are not and why. -/
def Shared.accounted (s : Shared) : Nat :=
  s.posted.length + s.failed + s.contextFailures.length + s.dropped.length + s.skipped

/-- Where an `AcceptOverlapped` that no frame holds can be. -/
def Shared.places (overlapped : Nat) (s : Shared) : Nat :=
  s.posted.count overlapped + s.deleted.count overlapped + s.contextFailures.count overlapped +
    s.dropped.count overlapped

def Shared.made (overlapped : Nat) (s : Shared) : Nat :=
  (List.range s.next).count overlapped

variable {ok : World → Move Bool Event → Prop} {w : World}

/-- Before `Start` nothing is there, and as long as the acceptor runs, its service is an
`IOService` and no handler has left out a request for another reason. -/
structure Listening (w : World) : Prop where
  before : w.shared.started = false → w.weigh Frame.present = 0 ∧ w.shared.posted = [] ∧
    w.shared.backlog = 0 ∧ w.shared.dropped = [] ∧ w.shared.skipped = 0
  running : w.shared.executed = true → w.shared.service = some .ioService ∧
    w.shared.dropped = [] ∧ w.shared.skipped = 0

theorem exec_dropped (choice : Bool) {s : Shared} (f : Frame) (hexecuted : s.executed = true)
    (hservice : s.service = some .ioService) :
    (f.exec choice s).1.dropped = s.dropped ∧ (f.exec choice s).1.skipped = s.skipped := by
  cases f with
  | start n i =>
    simp only [Frame.exec]
    split <;> exact ⟨rfl, rfl⟩
  | beginAcceptEx pc =>
    cases pc <;> simp only [Frame.exec, beginAcceptEx] <;> split <;> exact ⟨rfl, rfl⟩
  | onIOCompleted o pc =>
    cases pc with
    | updateAcceptContext =>
      simp only [Frame.exec, onIOCompleted]
      split <;> exact ⟨rfl, rfl⟩
    | associate => simp [Frame.exec, onIOCompleted, hservice]
    | beginAcceptEx => simp [Frame.exec, onIOCompleted, hexecuted]
    | _ => exact ⟨rfl, rfl⟩

theorem listening (hw : system.Reach ok w) : Listening w := by
  apply Program.invariant (p := program) (I := Listening) ?_ ?_ ?_ hw
  · rintro s ⟨mode, rfl⟩
    constructor
    · intro _
      exact ⟨rfl, rfl, rfl, rfl, rfl⟩
    · intro hexecuted
      cases hexecuted
  · intro w tid choice f rest _ ih _ hthread
    obtain ⟨hexecuted, hstarted, hservice, -⟩ := exec_keeps choice w.shared f
    constructor
    · intro hbefore
      change (f.exec choice w.shared).1.started = false at hbefore
      have hnone := (ih.before (hstarted ▸ hbefore)).1
      have hone : f.present ≤ w.weigh Frame.present := Stacks.weight_le_weigh hthread
      rw [hnone] at hone
      cases hone
    · intro hrunning
      change (f.exec choice w.shared).1.executed = true at hrunning
      rw [hexecuted] at hrunning
      obtain ⟨hio, hdropped, hskipped⟩ := ih.running hrunning
      obtain ⟨hdropped', hskipped'⟩ := exec_dropped choice f hrunning hio
      exact ⟨hservice.trans hio, hdropped'.trans hdropped, hskipped'.trans hskipped⟩
  · intro w event s' fs _ ih _ harrived
    cases arrived_of_arrive harrived with
    | refused n outcome service hfirst =>
      constructor
      · intro hbefore
        cases hbefore
      · intro hrunning
        cases hrunning
    | listening n outcome hfirst =>
      obtain ⟨-, -, -, hdropped, hskipped⟩ := ih.before hfirst
      constructor
      · intro hbefore
        cases hbefore
      · intro _
        exact ⟨rfl, hdropped, hskipped⟩
    | completion success hposted =>
      constructor
      · intro hbefore
        have hnone := (ih.before hbefore).2.1
        rw [hnone] at hposted
        cases hposted
      · exact ih.running
    | shutdown hstarted =>
      constructor
      · intro hbefore
        change w.shared.started = false at hbefore
        rw [hstarted] at hbefore
        cases hbefore
      · intro hrunning
        cases hrunning

/-- Every request of the backlog is outstanding, owed by a frame, or accounted for. -/
theorem ledger (hw : system.Reach ok w) :
    w.shared.accounted + w.weigh Frame.owes = w.shared.backlog := by
  apply Program.balance (p := program) Shared.accounted (fun s => s.backlog) Frame.owes ?_ ?_ ?_ hw
  · rintro s ⟨mode, rfl⟩
    rfl
  · intro choice s f
    change (f.exec choice s).1.accounted + tally Frame.owes (f.exec choice s).2 + s.backlog =
      (f.exec choice s).1.backlog + (s.accounted + f.owes)
    rw [(exec_keeps choice s f).2.2.2]
    cases f with
    | start n i =>
      simp only [Frame.exec]
      split
      · simp only [tally_cons, tally_nil, Frame.owes]
        omega
      · simp only [tally_nil, Frame.owes]
        omega
    | beginAcceptEx pc =>
      cases pc <;> simp only [Frame.exec, beginAcceptEx] <;> split <;>
        simp only [Shared.accounted, tally_cons, tally_nil, Frame.owes, List.length_append,
          List.length_singleton] <;> omega
    | onIOCompleted o pc =>
      cases pc with
      | start success => cases success <;> simp [Frame.exec, onIOCompleted, Frame.owes] <;> omega
      | delete =>
        simp only [Frame.exec, onIOCompleted, Shared.accounted, tally_nil, Frame.owes]
        omega
      | createSession =>
        simp only [Frame.exec, onIOCompleted]
        split <;> simp [Frame.owes] <;> omega
      | onAccepted =>
        simp only [Frame.exec, onIOCompleted, tally_cons, tally_nil, Frame.owes]
        omega
      | _ =>
        simp only [Frame.exec, onIOCompleted]
        split <;>
          simp only [Shared.accounted, tally_cons, tally_nil, Frame.owes, List.length_append,
            List.length_singleton] <;> omega
  · intro w event s' fs hreach harrived
    cases arrived_of_arrive harrived with
    | refused n outcome service hfirst =>
      simp only [Shared.accounted, tally_nil]
      omega
    | listening n outcome hfirst =>
      have hnone := ((listening hreach).before hfirst).2.2.1
      simp only [Shared.accounted, tally_cons, tally_nil, Frame.owes, hnone]
      omega
    | completion success hposted =>
      obtain ⟨hlt, -⟩ := List.getElem?_eq_some_iff.mp hposted
      have hlength := List.length_eraseIdx_add_one hlt
      simp only [Shared.accounted, tally_cons, tally_nil, Frame.owes]
      omega
    | shutdown hstarted =>
      simp only [Shared.accounted, tally_nil]
      omega

/-- An `AcceptOverlapped` is in one place, from the time it is made. -/
theorem places (overlapped : Nat) (hw : system.Reach ok w) :
    w.shared.places overlapped + w.weigh (Frame.holds overlapped) = w.shared.made overlapped := by
  apply Program.balance (p := program) (Shared.places overlapped) (Shared.made overlapped)
    (Frame.holds overlapped) ?_ ?_ ?_ hw
  · rintro s ⟨mode, rfl⟩
    rfl
  · intro choice s f
    change (f.exec choice s).1.places overlapped + tally (Frame.holds overlapped)
      (f.exec choice s).2 + s.made overlapped =
        (f.exec choice s).1.made overlapped + (s.places overlapped + f.holds overlapped)
    cases f with
    | start n i =>
      simp only [Frame.exec]
      split <;> simp only [tally_cons, tally_nil, Frame.holds] <;> omega
    | beginAcceptEx pc =>
      cases pc with
      | checkExecuted =>
        simp only [Frame.exec, beginAcceptEx]
        split
        · simp only [Shared.places, Shared.made, tally_cons, tally_nil, Frame.holds,
            List.range_succ, List.count_append, List.count_singleton, beq_iff_eq]
          omega
        · simp only [Shared.places, Shared.made, tally_nil, Frame.holds]
          omega
      | createSocket o =>
        simp only [Frame.exec, beginAcceptEx]
        split <;>
          simp only [Shared.places, Shared.made, tally_cons, tally_nil, Frame.holds,
            List.count_append, List.count_singleton, beq_iff_eq] <;> omega
      | acceptEx o =>
        simp only [Frame.exec, beginAcceptEx]
        split <;>
          simp only [Shared.places, Shared.made, tally_nil, Frame.holds,
            List.count_append, List.count_singleton, beq_iff_eq] <;> omega
    | onIOCompleted o pc =>
      cases pc with
      | start success =>
        simp only [Frame.exec, onIOCompleted, tally_cons, tally_nil, Frame.holds]
        omega
      | createSession =>
        simp only [Frame.exec, onIOCompleted, tally_cons, tally_nil, Frame.holds]
        omega
      | onAccepted =>
        simp only [Frame.exec, onIOCompleted, tally_cons, tally_nil, Frame.holds]
        omega
      | delete =>
        simp only [Frame.exec, onIOCompleted, Shared.places, Shared.made, tally_nil, Frame.holds,
          List.count_append, List.count_singleton, beq_iff_eq]
        omega
      | _ =>
        simp only [Frame.exec, onIOCompleted]
        split <;>
          simp only [Shared.places, Shared.made, tally_cons, tally_nil, Frame.holds,
            List.count_append, List.count_singleton, beq_iff_eq] <;> omega
  · intro w event s' fs _ harrived
    cases arrived_of_arrive harrived with
    | refused n outcome service hfirst =>
      simp only [Shared.places, Shared.made, tally_nil]
      omega
    | listening n outcome hfirst =>
      simp only [Shared.places, Shared.made, tally_cons, tally_nil, Frame.holds]
      omega
    | @completion index o success hposted =>
      obtain ⟨hlt, hget⟩ := List.getElem?_eq_some_iff.mp hposted
      have hcount := (List.getElem_cons_eraseIdx_perm hlt).count_eq overlapped
      rw [hget, List.count_cons] at hcount
      simp only [beq_iff_eq] at hcount
      simp only [Shared.places, Shared.made, tally_cons, tally_nil, Frame.holds]
      omega
    | shutdown hstarted =>
      simp only [Shared.places, Shared.made, tally_nil]
      omega

theorem handled_cases (hw : system.Reach ok w) : ∀ o ∈ w.shared.handled,
    o ∈ w.shared.deleted ∨ o ∈ w.shared.contextFailures ∨ o ∈ w.shared.dropped := by
  apply Program.invariant_shared (p := program)
    (I := fun s => ∀ o ∈ s.handled, o ∈ s.deleted ∨ o ∈ s.contextFailures ∨ o ∈ s.dropped)
    ?_ ?_ ?_ hw
  · rintro s ⟨mode, rfl⟩ o ho
    cases ho
  · intro choice s f ih
    change ∀ o ∈ (f.exec choice s).1.handled, o ∈ (f.exec choice s).1.deleted ∨
      o ∈ (f.exec choice s).1.contextFailures ∨ o ∈ (f.exec choice s).1.dropped
    cases f with
    | start n i =>
      simp only [Frame.exec]
      split <;> exact ih
    | beginAcceptEx pc =>
      cases pc <;> simp only [Frame.exec, beginAcceptEx] <;> split <;> grind
    | onIOCompleted o pc =>
      cases pc <;> simp only [Frame.exec, onIOCompleted] <;> grind
  · intro event s s' fs ih harrived
    cases arrived_of_arrive harrived with
    | refused => exact ih
    | listening => exact ih
    | completion => exact ih
    | shutdown => exact ih

/-- The backlog is whole: what is outstanding makes up for all but the failed calls of
`BeginAcceptEx`, and what has been handled has been deleted once. -/
structure Conserved (s : Shared) : Prop where
  outstanding : s.posted.length + s.failed = s.backlog
  deleted : ∀ o ∈ s.handled, s.deleted.count o = 1

/-- Whenever nobody is inside a running acceptor, its backlog is whole if and only if
`SO_UPDATE_ACCEPT_CONTEXT` has failed for no connection. -/
theorem conserved_iff (hw : system.Reach System.free w) (hrest : AtRest w)
    (hexecuted : w.shared.executed = true) :
    Conserved w.shared ↔ w.shared.contextFailures = [] := by
  have hidle : ∀ weight : Frame → Nat, w.weigh weight = 0 := by
    intro weight
    apply Stacks.weigh_eq_zero.mpr
    intro stack hstack f hf
    rw [hrest stack hstack] at hf
    cases hf
  obtain ⟨-, hdropped, hskipped⟩ := (listening hw).running hexecuted
  have hledger := ledger hw
  rw [hidle, Shared.accounted, hdropped, hskipped] at hledger
  constructor
  · intro hconserved
    have houtstanding := hconserved.outstanding
    apply List.length_eq_zero_iff.mp
    simp only [List.length_nil] at hledger
    omega
  · intro hcontext
    rw [hcontext] at hledger
    constructor
    · simpa using hledger
    · intro o ho
      have hdeleted : o ∈ w.shared.deleted := by
        rcases handled_cases hw o ho with hdeleted | hearly | hearly
        · exact hdeleted
        · rw [hcontext] at hearly
          cases hearly
        · rw [hdropped] at hearly
          cases hearly
      have hplaces := places o hw
      have hpos := List.count_pos_iff.mpr hdeleted
      have hone := List.nodup_iff_count_le_one.mp (List.nodup_range (n := w.shared.next)) o
      rw [hidle, Shared.places, Shared.made] at hplaces
      omega

/-- `Start` with a backlog of one, and the completion of its request. `choice` is what
comes of `SO_UPDATE_ACCEPT_CONTEXT`. -/
def acceptOne (choice : Bool) : List (Move Bool Event) :=
  [.spawn (.start 1 ⟨true, true, true, true, true, true⟩)] ++ List.replicate 5 (.run 0 true) ++
    [.spawn (.acceptCompletion 0 true), .run 1 true, .run 1 choice]

def postNext : List (Move Bool Event) := List.replicate 8 (.run 1 true)

theorem conserved_acceptOne : ∃ w : World, w.shared.posted = [1] ∧ Conserved w.shared := by
  obtain ⟨w, hrun, htest⟩ := System.exists_of_runUnder system System.free
    ⟨Shared.initial .iocp, []⟩ (acceptOne true ++ postNext)
    (fun w => decide (AtRest w ∧ w.shared.executed = true ∧ w.shared.contextFailures = [] ∧
      w.shared.posted = [1])) (by decide)
  obtain ⟨hrest, hexecuted, hcontext, hposted⟩ := of_decide_eq_true htest
  have hw : system.Reach System.free w := .of_runUnder (.init ⟨⟨.iocp, rfl⟩, rfl⟩) hrun
  exact ⟨w, hposted, (conserved_iff hw hrest hexecuted).mpr hcontext⟩

/-- A backlog of one is gone after one such failure. -/
theorem not_conserved : ¬ ∀ w : World, system.Reach System.free w → AtRest w →
    w.shared.executed = true → Conserved w.shared := by
  intro hconserved
  obtain ⟨w, hrun, htest⟩ := System.exists_of_runUnder system System.free
    ⟨Shared.initial .iocp, []⟩ (acceptOne false)
    (fun w => decide (AtRest w ∧ w.shared.executed = true ∧ w.shared.posted = [] ∧
      w.shared.failed = 0 ∧ w.shared.backlog = 1)) (by decide)
  obtain ⟨hrest, hexecuted, hposted, hfailed, hbacklog⟩ := of_decide_eq_true htest
  have hw : system.Reach System.free w := .of_runUnder (.init ⟨⟨.iocp, rfl⟩, rfl⟩) hrun
  have houtstanding := (hconserved w hw hrest hexecuted).outstanding
  rw [hposted, hfailed, hbacklog] at houtstanding
  cases houtstanding

end FastPort.Core.Accept
