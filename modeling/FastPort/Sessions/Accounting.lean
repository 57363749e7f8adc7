import FastPort.Sessions.Machine
import FastPort.Sessions.Steps

/-! The outstanding-operation counter counts what it is meant to count, in every
run: the operations pending in the kernel, the threads between their increment
and the outcome of the post, and the completion handlers that still hold their
guard. The same bookkeeping bounds the events that must not repeat. -/
namespace FastPort.Sessions

open FastPort.Foundation.Pool FastPort.Foundation.Tally
open FastPort.Foundation.Transition FastPort.Foundation.Transition.System

namespace Shared

def pending (s : Shared) : Nat :=
  s.recvs.length + s.sends.length + s.connects

def closings (s : Shared) : Nat :=
  if s.disconnectRequested = true ∧ s.socket ≠ .null then 1 else 0

end Shared

namespace Frame

/-- A frame between its `fetch_add` and the outcome of the post, or its undo. -/
def posting : Frame → Nat
  | tryPostSendFromQueue .wsaSend | tryPostSendFromQueue .undo => 1
  | requestRecv _ .wsaRecv | requestRecv _ .undo => 1
  | connectEx .setPending | connectEx .connectEx | connectEx .clearPending | connectEx .undo => 1
  | _ => 0

def closing : Frame → Nat
  | requestDisconnect .shutdown | requestDisconnect .close => 1
  | _ => 0

def shutDownOnly : Frame → Nat
  | requestDisconnect .close => 1
  | _ => 0

def firing : Frame → Nat
  | tryFireOnDisconnected .clearReceive | tryFireOnDisconnected .clearSend
  | tryFireOnDisconnected .onDisconnected => 1
  | _ => 0

variable {choice : Choice} {s s' : Shared} {f : Frame} {fs : List Frame}

theorem Steps.posting (h : f.Steps choice s s' fs) :
    (s'.outstandingIoCount - s'.pending : Int) + f.posting =
      s.outstandingIoCount - s.pending + tally Frame.posting fs := by
  cases h
  all_goals simp [Frame.posting, Shared.pending]
  all_goals omega

theorem Steps.closing (h : f.Steps choice s s' fs) (hnull : s.socket = .null → f.closing = 0) :
    (s'.closings - s'.log.count .closed : Int) + f.closing =
      s.closings - s.log.count .closed + tally Frame.closing fs := by
  cases h
  case disconnectWon hdisc hpc | recvDisconnectWon hdisc hpc | dropDisconnectWon hdisc hpc =>
    rcases hpc with ⟨rfl, hsocket⟩ | ⟨rfl, hsocket⟩ <;>
      simp [Frame.closing, Shared.closings, hdisc, hsocket]
    omega
  case closed =>
    have hsocket : s.socket ≠ .null := fun heq => absurd (hnull heq) (by decide)
    simp [Frame.closing, Shared.closings, hsocket]
    omega
  all_goals simp [Frame.closing, Shared.closings]

theorem Steps.shutDownOnly (h : f.Steps choice s s' fs) :
    (s'.log.count .shutdown - s'.log.count .closed : Int) + f.shutDownOnly =
      s.log.count .shutdown - s.log.count .closed + tally Frame.shutDownOnly fs := by
  cases h
  case disconnectWon hpc | recvDisconnectWon hpc | dropDisconnectWon hpc =>
    rcases hpc with ⟨rfl, -⟩ | ⟨rfl, -⟩ <;> simp [Frame.shutDownOnly]
  all_goals simp [Frame.shutDownOnly]
  all_goals omega

theorem Steps.firing (h : f.Steps choice s s' fs) :
    (s'.onDisconnectedFired.toNat - s'.log.count .onDisconnected : Int) + f.firing =
      s.onDisconnectedFired.toNat - s.log.count .onDisconnected + tally Frame.firing fs := by
  cases h
  all_goals simp_all [Frame.firing]
  all_goals omega

theorem Steps.disconnectRequested (h : f.Steps choice s s' fs)
    (hdisc : s.disconnectRequested = true) : s'.disconnectRequested = true := by
  cases h
  all_goals first | exact hdisc | rfl

end Frame

theorem disconnectRequested_of_exec {choice : Choice} {s : Shared} {f : Frame}
    (hdisc' : (f.exec choice s).1.disconnectRequested = false) :
    s.disconnectRequested = false := by
  by_contra hset
  have hstill := (f.steps_exec choice s).disconnectRequested (by simpa using hset)
  simp [hstill] at hdisc'

namespace World

def handlers (w : World) : Nat :=
  w.threads.countP fun t => t.guard.isSome

/-- The threads between their increment and the outcome of their post. -/
def posting (w : World) : Nat :=
  w.weigh Frame.posting

end World

variable {ok : World → Label → Prop} {w : World}

theorem balance (hw : system.Reach ok w) :
    (w.shared.outstandingIoCount - w.shared.pending : Int) =
      tally (Thread.share (fun _ => 1) Frame.posting) w.threads := by
  refine ledger (P := fun _ => True) (fun s => s.outstandingIoCount - s.pending)
    (fun _ => 1) Frame.posting ?_ ?_ ?_ ?_ hw trivial
  · intros
    rfl
  · intro w tid choice t f rest _ _ _ _ _ _
    exact ⟨trivial, (f.steps_exec choice w.shared).posting⟩
  · intro s kind _
    refine ⟨trivial, ?_⟩
    rw [Shared.tally_release rfl]
    simp only [Shared.release_fst, Shared.pending]
    omega
  · intro w event s' t' _ _ harrived _
    refine ⟨trivial, ?_⟩
    cases harrived with
    | call call => cases call <;> simp [Thread.share, ApiCall.frame, Frame.posting]
    | connectEx hsocket => simp [Thread.share, Frame.posting, Shared.pending]
    | recvCompletion hpending hlength =>
      obtain ⟨hlt, -⟩ := List.getElem?_eq_some_iff.mp hpending
      simp only [Thread.share, Shared.pending, List.length_eraseIdx_of_lt hlt, Option.elim,
        tally_cons, tally_nil, Frame.posting]
      omega
    | sendCompletion hpending hlength =>
      obtain ⟨hlt, -⟩ := List.getElem?_eq_some_iff.mp hpending
      simp only [Thread.share, Shared.pending, List.length_eraseIdx_of_lt hlt, Option.elim,
        tally_cons, tally_nil, Frame.posting]
      omega
    | connectCompletion hpending =>
      simp only [Thread.share, Shared.pending, Option.elim, tally_cons, tally_nil, Frame.posting]
      omega

theorem closing_balance (hw : system.Reach ok w) :
    (w.shared.closings - w.shared.log.count .closed : Int) = w.weigh Frame.closing := by
  refine frame_ledger (P := fun _ => True) (fun s => s.closings - s.log.count .closed)
    Frame.closing rfl ?_ ?_ (fun _ _ => ⟨trivial, rfl⟩) ?_ hw trivial
  · intros
    simp [Shared.initial, Shared.closings]
  · intro w tid choice t f rest _ _ hthread hframes ih _
    refine ⟨trivial, (f.steps_exec choice w.shared).closing fun hnull => ?_⟩
    have hle : f.closing ≤ w.weigh Frame.closing := World.weight_le_weigh hthread hframes
    have hbalance := ih trivial
    simp only [Shared.closings, hnull, ne_eq, not_true_eq_false, and_false, if_false] at hbalance
    omega
  · intro w event s' t' _ _ harrived _
    refine ⟨trivial, ?_⟩
    cases harrived with
    | call call => cases call <;> simp [ApiCall.frame, Frame.closing]
    | _ => simp [Frame.closing, Shared.closings]

theorem shutDown_balance (hw : system.Reach ok w) :
    (w.shared.log.count .shutdown - w.shared.log.count .closed : Int) =
      w.weigh Frame.shutDownOnly := by
  refine frame_ledger (P := fun _ => True) (fun s => s.log.count .shutdown - s.log.count .closed)
    Frame.shutDownOnly rfl ?_ ?_ (fun _ _ => ⟨trivial, rfl⟩) ?_ hw trivial
  · intros
    simp [Shared.initial]
  · intro w tid choice t f rest _ _ _ _ _ _
    exact ⟨trivial, (f.steps_exec choice w.shared).shutDownOnly⟩
  · intro w event s' t' _ _ harrived _
    refine ⟨trivial, ?_⟩
    cases harrived with
    | call call => cases call <;> simp [ApiCall.frame, Frame.shutDownOnly]
    | _ => simp [Frame.shutDownOnly]

theorem firing_balance (hw : system.Reach ok w) :
    (w.shared.onDisconnectedFired.toNat - w.shared.log.count .onDisconnected : Int) =
      w.weigh Frame.firing := by
  refine frame_ledger (P := fun _ => True)
    (fun s => s.onDisconnectedFired.toNat - s.log.count .onDisconnected)
    Frame.firing rfl ?_ ?_ (fun _ _ => ⟨trivial, rfl⟩) ?_ hw trivial
  · intros
    simp [Shared.initial]
  · intro w tid choice t f rest _ _ _ _ _ _
    exact ⟨trivial, (f.steps_exec choice w.shared).firing⟩
  · intro w event s' t' _ _ harrived _
    refine ⟨trivial, ?_⟩
    cases harrived with
    | call call => cases call <;> simp [ApiCall.frame, Frame.firing]
    | _ => simp [Frame.firing]

theorem tally_share (weight : Frame → Nat) (pool : List Thread) :
    tally (Thread.share (fun _ => 1) weight) pool =
      pool.countP (fun t => t.guard.isSome) + tally (fun t => tally weight t.frames) pool := by
  rw [← tally_eq_countP, ← tally_add]
  congr 1
  funext t
  cases h : t.guard <;> simp [Thread.share, h]

theorem outstandingIoCount_eq (hw : system.Reach ok w) :
    w.shared.outstandingIoCount = w.shared.pending + w.posting + w.handlers := by
  have hbalance := balance hw
  rw [tally_share] at hbalance
  unfold World.posting World.handlers World.weigh
  omega

theorem one_le_of_handler (hw : system.Reach ok w) {t : Thread} (ht : t ∈ w.threads)
    (hguard : t.guard.isSome) : 1 ≤ w.shared.outstandingIoCount := by
  have hcount := outstandingIoCount_eq hw
  have hpos : 0 < w.handlers := List.countP_pos_iff.mpr ⟨t, ht, hguard⟩
  omega

theorem outstandingIoCount_nonneg (hw : system.Reach ok w) :
    0 ≤ w.shared.outstandingIoCount := by
  have hcount := outstandingIoCount_eq hw
  omega

theorem closed_le_one (hw : system.Reach ok w) : w.shared.log.count .closed ≤ 1 := by
  have hbalance := closing_balance hw
  have hclosings : w.shared.closings ≤ 1 := by
    unfold Shared.closings
    split <;> omega
  omega

theorem shutdown_le_one (hw : system.Reach ok w) : w.shared.log.count .shutdown ≤ 1 := by
  have hclosing := closing_balance hw
  have hshut := shutDown_balance hw
  have hle : w.weigh Frame.shutDownOnly ≤ w.weigh Frame.closing := by
    refine World.weigh_le_weigh (fun f => ?_) w
    unfold Frame.shutDownOnly Frame.closing
    split <;> simp
  have hclosings : w.shared.closings ≤ 1 := by
    unfold Shared.closings
    split <;> omega
  omega

theorem onDisconnected_le_one (hw : system.Reach ok w) :
    w.shared.log.count .onDisconnected ≤ 1 := by
  have hbalance := firing_balance hw
  have hfired : w.shared.onDisconnectedFired.toNat ≤ 1 := Bool.toNat_le _
  omega

/-- The counter is exact, so no decrement underflows and no handler runs with a
zero counter; the socket is shut down and closed, and `OnDisconnected` called, at
most once. -/
structure Accounted (w : World) : Prop where
  balanced : w.shared.outstandingIoCount = w.shared.pending + w.posting + w.handlers
  nonneg : 0 ≤ w.shared.outstandingIoCount
  decrement : ∀ l w', system.step w l = some w' →
    w'.shared.outstandingIoCount < w.shared.outstandingIoCount →
    1 ≤ w.shared.outstandingIoCount
  handler : ∀ t ∈ w.threads, t.guard.isSome → 1 ≤ w.shared.outstandingIoCount
  shutdown : w.shared.log.count .shutdown ≤ 1
  closed : w.shared.log.count .closed ≤ 1
  onDisconnected : w.shared.log.count .onDisconnected ≤ 1

theorem outstanding_accounting {w : World} (hw : system.Reach free w) : Accounted w where
  balanced := outstandingIoCount_eq hw
  nonneg := outstandingIoCount_nonneg hw
  decrement := by
    intro l w' hstep hless
    have hnext := outstandingIoCount_nonneg (hw.step trivial hstep)
    omega
  handler := fun _ ht hguard => one_le_of_handler hw ht hguard
  shutdown := shutdown_le_one hw
  closed := closed_le_one hw
  onDisconnected := onDisconnected_le_one hw

/-- The zero-byte receive has completed and its handler is posting the real one. -/
def rearmingRun : List Label :=
  .spawn (.call .startReceiveLoop) :: Label.goes 0 7 ++
    .spawn (.recvCompletion 0 true []) :: Label.goes 1 3

theorem outstanding_accounting_of_rearming :
    ∃ w : World, system.runUnder free (World.fresh 16 16) rearmingRun = some w ∧
      w.shared.outstandingIoCount = 2 ∧ Accounted w := by
  obtain ⟨w, hrun, hcount⟩ := exists_of_runUnder system free (World.fresh 16 16) rearmingRun
    (fun w => w.shared.outstandingIoCount == 2) (by decide)
  exact ⟨w, hrun, by simpa using hcount,
    outstanding_accounting ((World.reach_fresh 16 16).of_runUnder hrun)⟩

end FastPort.Sessions
