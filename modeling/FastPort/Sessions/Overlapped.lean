import FastPort.Sessions.ReceiveLoop
import FastPort.Sessions.SendOrder

/-! The two `OVERLAPPED` structures. The token of the receive loop protects the
one for receives. The one for sends is protected by `m_SendInProgress`, until a
disconnect gives up that flag while the send it stands for is still pending. -/
namespace FastPort.Sessions

open FastPort.Commons FastPort.Foundation.Pool FastPort.Foundation.Tally
open FastPort.Foundation.Transition FastPort.Foundation.Transition.System

/-- The step runs `PrepareRecvBuffers`. -/
def World.preparesRecv (w : World) (l : Label) : Bool :=
  match w.runs l with
  | some (.requestRecv _ .prepare) => true
  | _ => false

/-- The step runs `PrepareSendBuffers`. -/
def World.preparesSend (w : World) (l : Label) : Bool :=
  match w.runs l with
  | some (.tryPostSendFromQueue (.prepare _ _)) => true
  | _ => false

namespace Frame

def preparing : Frame → Nat
  | tryPostSendFromQueue (.prepare _ _) => 1
  | _ => 0

theorem preparing_le_owner (f : Frame) : f.preparing ≤ f.owner := by
  unfold preparing owner
  split <;> simp

variable {choice : Choice} {s s' : Shared} {f : Frame} {fs : List Frame}

theorem Steps.preparing (h : f.Steps choice s s' fs) :
    tally Frame.preparing fs ≤ f.preparing ∨
      (f = .tryPostSendFromQueue .getReadBuffers ∧ s.sendBuffer.size ≠ 0 ∧ s' = s) := by
  cases h
  all_goals simp_all [Frame.preparing]

theorem Steps.kernel (h : f.Steps choice s s' fs) (hclosed : s'.socket ≠ .opened) :
    s'.toKernel = s.toKernel := by
  cases h
  case sendPosted hposts | recvPosted hposts | connectPosted hposts =>
    simp only [Shared.posts, Bool.and_eq_true, beq_iff_eq] at hposts
    exact absurd hposts.2 hclosed
  all_goals rfl

end Frame

/-- After a disconnect request, `TryPostSendFromQueue` finds bytes in the ring
only while no send is pending. -/
def readsAlone (w : World) (l : Label) : Prop :=
  loopOnly w l ∧ (w.reads l = true → w.shared.disconnectRequested = false ∨
    w.shared.sends = [] ∨ w.shared.sendBuffer.size = 0)

instance (w : World) (l : Label) : Decidable (readsAlone w l) :=
  inferInstanceAs (Decidable (_ ∧ (_ → _ ∨ _ ∨ _)))

structure Exclusive (w : World) : Prop where
  sends : w.shared.sends.length ≤ 1
  preparing : 0 < w.weigh Frame.preparing → w.shared.sends = []

variable {ok : World → Label → Prop} {w : World}

theorem Exclusive.of_guarded (hw : system.Reach ok w) (hguarded : w.shared.Guarded) :
    Exclusive w := by
  have hbalance := owner_balance hw hguarded
  have hflag : w.shared.sendInProgress.toNat ≤ 1 := Bool.toNat_le _
  have hle : w.weigh Frame.preparing ≤ w.weigh Frame.owner :=
    World.weigh_le_weigh Frame.preparing_le_owner w
  exact ⟨by omega, fun hpos => List.length_eq_zero_iff.mp (by omega)⟩

theorem exclusive (hw : system.Reach readsAlone w) : Exclusive w := by
  refine hw.invariant (I := Exclusive) ?_ ?_
  · rintro ⟨s, threads⟩ ⟨⟨receiveBuffer, sendBuffer, socket, -, -, rfl⟩, -⟩
    exact ⟨Nat.zero_le _, fun _ => rfl⟩
  · intro w l w' hreach ih hok hstep
    by_cases hguarded : w'.shared.Guarded
    · exact Exclusive.of_guarded (hreach.step hok hstep) hguarded
    -- the flag has been given up behind the closed socket: no send is posted any more
    unfold Shared.Guarded at hguarded
    rw [not_or] at hguarded
    obtain ⟨hdisc, hclosed⟩ := hguarded
    cases Machine.moved_of_step hstep with
    | @run tid choice t t' s' hthread hrun =>
      cases Thread.ran_of_run hrun with
      | @exec f rest hframes =>
        have hexec := f.steps_exec choice w.shared
        have hsends := congrArg Kernel.sends (hexec.kernel hclosed)
        have hweigh := World.weigh_exec Frame.preparing hthread hframes (f.exec choice w.shared).1
          t.guard (f.exec choice w.shared).2
        refine ⟨hsends ▸ ih.sends, fun hpos => hsends.trans ?_⟩
        rcases hexec.preparing with hfs | ⟨rfl, hsome, hsame⟩
        · exact ih.preparing (by omega)
        · rcases hok.2 (World.reads_iff.mpr (World.runs_eq hthread hframes)) with
            hunset | hnone | hempty
          · exact absurd (by simp only [hsame]; exact hunset) hdisc
          · exact hnone
          · exact absurd hempty hsome
      | release hframes hguard =>
        refine ⟨ih.sends, fun hpos => ih.preparing ?_⟩
        rwa [World.weigh_released rfl hthread hframes] at hpos
    | spawn hspawn =>
      cases Shared.arrived_of_arrive hspawn with
      | call call =>
        refine ⟨ih.sends, fun hpos => ih.preparing ?_⟩
        rw [World.weigh_spawn] at hpos
        cases call <;> exact hpos
      | @sendCompletion index success bytes buffers hpending hlength =>
        obtain ⟨hlt, -⟩ := List.getElem?_eq_some_iff.mp hpending
        have hone := ih.sends
        have hnone : (w.shared.sends.eraseIdx index).length = 0 := by
          rw [List.length_eraseIdx_of_lt hlt]
          omega
        exact ⟨by simp only [hnone]; omega, fun _ => List.length_eq_zero_iff.mp hnone⟩
      | _ => exact ⟨ih.sends, fun hpos => ih.preparing (by rwa [World.weigh_spawn] at hpos)⟩

theorem runs_of_preparesRecv {l : Label} (h : w.preparesRecv l = true) :
    ∃ zeroByte, w.runs l = some (.requestRecv zeroByte .prepare) := by
  unfold World.preparesRecv at h
  split at h
  · exact ⟨_, by assumption⟩
  · cases h

theorem runs_of_preparesSend {l : Label} (h : w.preparesSend l = true) :
    ∃ n buffers, w.runs l = some (.tryPostSendFromQueue (.prepare n buffers)) := by
  unfold World.preparesSend at h
  split at h
  · exact ⟨_, _, by assumption⟩
  · cases h

theorem recvs_eq_nil_of_preparesRecv (hw : system.Reach loopOnly w) {l : Label}
    (hprepares : w.preparesRecv l = true) : w.shared.recvs = [] := by
  obtain ⟨zeroByte, hruns⟩ := runs_of_preparesRecv hprepares
  have htoken := recvs_add_arm_le hw
  have hstarted : w.shared.receiveLoopStarted.toNat ≤ 1 := Bool.toNat_le _
  have harm : Frame.arm (.requestRecv zeroByte .prepare) ≤ w.weigh Frame.arm :=
    World.weight_le_of_runs hruns
  simp only [Frame.arm] at harm
  exact List.length_eq_zero_iff.mp (by omega)

theorem preparesSend_of_not_readsAlone {w' : World} {l : Label} (hloop : loopOnly w l)
    (hstep : system.step w l = some w') (hbeside : ¬ readsAlone w l) :
    w'.preparesSend l = true ∧ w'.shared.sends ≠ [] := by
  unfold readsAlone at hbeside
  simp only [hloop, true_and, Classical.not_imp, not_or, Bool.not_eq_false] at hbeside
  obtain ⟨hreads, -, hsends, hsome⟩ := hbeside
  obtain ⟨tid, choice, t, rest, rfl, hthread, -, rfl⟩ :=
    exec_of_runs hstep (World.reads_iff.mp hreads)
  have hlt : tid < w.threads.length := (List.getElem?_eq_some_iff.mp hthread).1
  have hread : w.shared.sendBuffer.getReadBuffers.1 ≠ 0 := by
    rwa [RingBuffer.getReadBuffers_fst]
  simp only [Frame.exec, tryPostSendFromQueue, if_neg hread]
  refine ⟨?_, hsends⟩
  simp [World.preparesSend, World.runs, List.getElem?_set_self hlt]

/-- When the ring is not read beside a pending send after a disconnect request, no
`OVERLAPPED` is used twice or prepared while it is in use; if it is, it is. The
receive side needs no such condition. -/
theorem overlapped_not_reused {w : World} (hw : system.Reach readsAlone w) :
    (w.shared.recvs.length ≤ 1 ∧ w.shared.sends.length ≤ 1 ∧
      (∀ l, w.preparesRecv l = true → w.shared.recvs = []) ∧
      ∀ l, w.preparesSend l = true → w.shared.sends = []) ∧
    ∀ w' l w'', system.Reach loopOnly w' → loopOnly w' l → system.step w' l = some w'' →
      ¬ readsAlone w' l → w''.preparesSend l = true ∧ w''.shared.sends ≠ [] := by
  have hloop : system.Reach loopOnly w := hw.mono fun _ _ hok => hok.1
  have htoken := recvs_add_arm_le hloop
  have hstarted : w.shared.receiveLoopStarted.toNat ≤ 1 := Bool.toNat_le _
  obtain ⟨hone, hpreparing⟩ := exclusive hw
  refine ⟨⟨by omega, hone, fun l => recvs_eq_nil_of_preparesRecv hloop, fun l hprepares => ?_⟩,
    fun w' l w'' _ hl hstep hbeside => preparesSend_of_not_readsAlone hl hstep hbeside⟩
  obtain ⟨n, buffers, hruns⟩ := runs_of_preparesSend hprepares
  have hle : Frame.preparing (.tryPostSendFromQueue (.prepare n buffers)) ≤
      w.weigh Frame.preparing := World.weight_le_of_runs hruns
  exact hpreparing hle

/-- A send is prepared after the one before has completed. -/
def resendingRun : List Label :=
  .spawn (.call (.sendMessage ⟨1, []⟩)) :: Label.goes 0 11 ++
    .spawn (.sendCompletion 0 true 3) :: Label.goes 1 11

theorem overlapped_not_reused_of_resend :
    ∃ w : World, system.runUnder readsAlone (World.fresh 16 16) resendingRun = some w ∧
      w.preparesSend (.go 1) = true ∧ w.shared.sends = [] := by
  obtain ⟨w, hrun, hprepares⟩ := exists_of_runUnder system readsAlone (World.fresh 16 16)
    resendingRun (fun w => w.preparesSend (.go 1)) (by decide)
  exact ⟨w, hrun, hprepares,
    (overlapped_not_reused ((World.reach_fresh 16 16).of_runUnder hrun)).1.2.2.2 _ hprepares⟩

/-- A second sender has passed its test of the disconnect flag when a disconnect
closes the socket and gives up the flag of the first sender's pending send. -/
def preparingRun : List Label :=
  .spawn (.call (.sendMessage ⟨1, []⟩)) :: Label.goes 0 11 ++
    .spawn (.call (.sendMessage ⟨2, []⟩)) :: Label.goes 1 6 ++
    .spawn (.call .requestDisconnect) :: Label.goes 2 5 ++ Label.goes 1 2

theorem not_overlapped_not_reused :
    ¬ ∀ (w : World) (l : Label), system.Reach loopOnly w → w.preparesSend l = true →
      w.shared.sends = [] := by
  intro hclaim
  obtain ⟨w, hrun, hbeside⟩ := exists_of_runUnder system loopOnly (World.fresh 16 16)
    preparingRun (fun w => w.preparesSend (.go 1) && !w.shared.sends.isEmpty) (by decide)
  simp only [Bool.and_eq_true, Bool.not_eq_true', List.isEmpty_eq_false_iff] at hbeside
  exact hbeside.2 (hclaim w _ ((World.reach_fresh 16 16).of_runUnder hrun) hbeside.1)

end FastPort.Sessions
