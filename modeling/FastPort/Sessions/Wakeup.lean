import FastPort.Sessions.SendOrder

/-! Who sends what lies in the ring. A sender that finds `m_SendInProgress` taken
leaves its bytes to the owner of the flag. The owner gives the flag up by itself
when it has found the ring empty and when its `WSASend` has failed; bytes that
are in the ring by then are nobody's. -/
namespace FastPort.Sessions

open FastPort.Commons FastPort.Foundation.Pool FastPort.Foundation.Tally
open FastPort.Foundation.Transition FastPort.Foundation.Transition.System

namespace Frame

/-- A frame that has bytes to send or is to look for some, or that is about to
request the disconnect. -/
def waker : Frame → Nat
  | sendMessage _ (.writeSize _) | sendMessage _ (.writeId _ _) => 1
  | sendMessage _ (.writeBody _ _) => 1
  | tryPostSendFromQueue _ | handleSendCompletion _ => 1
  | requestDisconnect .claim => 1
  | _ => 0

theorem owner_le_waker (f : Frame) : f.owner ≤ f.waker := by
  unfold owner waker
  split <;> simp

variable {choice : Choice} {s s' : Shared} {f : Frame} {fs : List Frame}

/-- Before a disconnect, whoever has bytes to send hands them on, but for the two
ends of a try that has not sent: the flag was taken, or is given up. -/
theorem Steps.waker (h : f.Steps choice s s' fs) (hdisc' : s'.disconnectRequested = false)
    (hended : f.ended = 0) :
    0 < tally Frame.waker fs + s'.sends.length ∨ s'.sendBuffer.size = 0 ∨
      (f.waker = 0 ∧ s'.sendBuffer.size = s.sendBuffer.size ∧ s'.sends = s.sends) ∨
      (f = .tryPostSendFromQueue .claim ∧ s.sendInProgress = true ∧ s' = s ∧ fs = []) ∨
      (f = .tryPostSendFromQueue .release ∧ s' = { s with sendInProgress := false } ∧ fs = []) := by
  cases h
  all_goals simp_all [Frame.waker, Frame.ended]

end Frame

def World.givesUp (w : World) (l : Label) : Bool :=
  match w.runs l with
  | some (.tryPostSendFromQueue .release) => true
  | _ => false

theorem World.givesUp_iff {w : World} {l : Label} :
    w.givesUp l = true ↔ w.runs l = some (.tryPostSendFromQueue .release) := by
  unfold World.givesUp
  split <;> simp_all

/-- The flag is given up with nothing in the ring, or with another thread at hand
that has bytes to send or is to look for some. -/
def givesUpSeen (w : World) (l : Label) : Prop :=
  w.givesUp l = true → w.shared.disconnectRequested = true ∨ w.shared.sendBuffer.size = 0 ∨
    1 < w.weigh Frame.waker

instance (w : World) (l : Label) : Decidable (givesUpSeen w l) :=
  inferInstanceAs (Decidable (_ → _ ∨ _ ∨ _))

def Awake (w : World) : Prop :=
  w.shared.disconnectRequested = false → w.shared.sendBuffer.size ≠ 0 →
    0 < w.shared.sends.length + w.weigh Frame.waker

variable {ok : World → Label → Prop} {w : World}

theorem Awake.exec (hw : system.Reach ok w) (h : Awake w) {tid : Nat} {choice : Choice}
    {t : Thread} {f : Frame} {rest : List Frame} (hok : givesUpSeen w (.run tid choice))
    (hthread : w.threads[tid]? = some t) (hframes : t.frames = f :: rest) :
    Awake ⟨(f.exec choice w.shared).1,
      w.threads.set tid ⟨t.guard, (f.exec choice w.shared).2 ++ rest⟩⟩ := by
  intro hdisc' hsome'
  have hdisc := disconnectRequested_of_exec hdisc'
  have hended : f.ended = 0 :=
    World.weigh_eq_zero.mp (ended_eq_zero hw hdisc).2 f (World.mem_frames hthread hframes)
  have hweigh := World.weigh_exec Frame.waker hthread hframes (f.exec choice w.shared).1 t.guard
    (f.exec choice w.shared).2
  have hle : f.waker ≤ w.weigh Frame.waker := World.weight_le_weigh hthread hframes
  rcases (f.steps_exec choice w.shared).waker hdisc' hended with
    hpos | hempty | ⟨hf, hsize, hsends⟩ | ⟨rfl, hbusy, hsame, hfs⟩ | ⟨rfl, hsame, hfs⟩
  · simp only
    omega
  · exact absurd hempty hsome'
  · have hbefore := h hdisc (hsize ▸ hsome')
    simp only [hsends]
    omega
  · -- the owner of the flag is another frame, or a send that is pending
    have hbalance := owner_balance hw (.inl hdisc)
    have hothers := World.weigh_lt_weigh Frame.owner_le_waker hthread hframes Nat.one_pos
    simp only [hbusy, Bool.toNat_true] at hbalance
    simp only [hsame, hfs, tally_nil, Frame.waker] at hweigh ⊢
    omega
  · have hseen := hok (World.givesUp_iff.mpr (World.runs_eq hthread hframes))
    simp only [hsame, hfs, tally_nil, Frame.waker] at hweigh hsome' ⊢
    rcases hseen with hset | hempty | hmore
    · exact absurd (hdisc.symm.trans hset) Bool.false_ne_true
    · exact absurd hempty hsome'
    · omega

theorem awake (hw : system.Reach givesUpSeen w) : Awake w := by
  refine Machine.invariant (m := machine) (I := Awake) ?_ ?_ ?_ hw
  · rintro s ⟨receiveBuffer, sendBuffer, socket, -, hempty, rfl⟩ _ hsome
    exact absurd hempty hsome
  · intro w tid choice t s' t' hreach ih hok hthread hrun
    cases Thread.ran_of_run hrun with
    | exec hframes => exact ih.exec hreach hok hthread hframes
    | release hframes hguard =>
      intro hdisc hsome
      rw [World.weigh_released rfl hthread hframes]
      exact ih hdisc hsome
  · intro w event s' t' _ ih _ hspawn hdisc hsome
    rw [World.weigh_spawn]
    cases Shared.arrived_of_arrive hspawn with
    | sendCompletion hpending hlength =>
      simp only [tally_cons, tally_nil, Frame.waker]
      omega
    | _ =>
      have := ih hdisc hsome
      simp only at this ⊢
      omega

theorem stranded {w' : World} {l : Label} (hw : system.Reach ok w)
    (hstep : system.step w l = some w') (hunseen : ¬ givesUpSeen w l) :
    w'.shared.disconnectRequested = false ∧ w'.shared.sendBuffer.size ≠ 0 ∧
      w'.shared.sends = [] ∧ w'.weigh Frame.waker = 0 := by
  unfold givesUpSeen at hunseen
  simp only [Classical.not_imp, not_or, Bool.not_eq_true] at hunseen
  obtain ⟨hgives, hdisc, hsome, hmore⟩ := hunseen
  have hruns := World.givesUp_iff.mp hgives
  have hbalance := owner_balance hw (.inl hdisc)
  have howner : Frame.owner (.tryPostSendFromQueue .release) ≤ w.weigh Frame.owner :=
    World.weight_le_of_runs hruns
  have hflag : w.shared.sendInProgress.toNat ≤ 1 := Bool.toNat_le _
  simp only [Frame.owner] at howner
  have hnone : w.shared.sends.length = 0 := by omega
  obtain ⟨tid, choice, t, rest, rfl, hthread, hframes, rfl⟩ := exec_of_runs hstep hruns
  have hweigh := World.weigh_exec Frame.waker hthread hframes
    (Frame.exec choice w.shared (.tryPostSendFromQueue .release)).1 t.guard
    (Frame.exec choice w.shared (.tryPostSendFromQueue .release)).2
  refine ⟨hdisc, hsome, List.length_eq_zero_iff.mp hnone, ?_⟩
  simp only [Frame.exec, tryPostSendFromQueue, tally_nil, Frame.waker] at hweigh ⊢
  omega

/-- If the flag is only given up with an empty ring or with another thread at
hand, a send is pending whenever a session at rest has bytes in its ring; in any
other case those bytes are left to nobody. -/
theorem send_pending_at_rest {w : World} (hw : system.Reach givesUpSeen w) :
    (w.Quiet → w.shared.disconnectRequested = false → w.shared.sendBuffer.size ≠ 0 →
      w.shared.sends ≠ []) ∧
    ∀ w' l w'', system.Reach free w' → system.step w' l = some w'' → ¬ givesUpSeen w' l →
      w''.shared.disconnectRequested = false ∧ w''.shared.sendBuffer.size ≠ 0 ∧
        w''.shared.sends = [] ∧ w''.weigh Frame.waker = 0 := by
  refine ⟨fun hquiet hdisc hsome => ?_, fun w' l w'' hw' hstep hunseen => ?_⟩
  · have hawake := awake hw hdisc hsome
    rw [hquiet.weigh, Nat.add_zero] at hawake
    exact List.ne_nil_of_length_pos hawake
  · exact stranded hw' hstep hunseen

/-- Two senders; the second finds the flag taken, and the completion of the first
message's send posts the rest. -/
def handingOnRun : List Label :=
  .spawn (.call (.sendMessage ⟨1, []⟩)) :: Label.goes 0 11 ++
    .spawn (.call (.sendMessage ⟨2, []⟩)) :: Label.goes 1 7 ++
    .spawn (.sendCompletion 0 true 4) :: Label.goes 2 15

theorem send_pending_at_rest_of_two :
    ∃ w : World, system.runUnder givesUpSeen (World.fresh 16 16) handingOnRun = some w ∧
      w.shared.sends ≠ [] := by
  obtain ⟨w, hrun, hrest⟩ := exists_of_runUnder system givesUpSeen (World.fresh 16 16)
    handingOnRun (fun w => decide w.Quiet && !w.shared.disconnectRequested &&
      w.shared.sendBuffer.size != 0) (by decide)
  simp only [Bool.and_eq_true, decide_eq_true_eq, Bool.not_eq_true', bne_iff_ne] at hrest
  exact ⟨w, hrun, (send_pending_at_rest ((World.reach_fresh 16 16).of_runUnder hrun)).1
    hrest.1.1 hrest.1.2 hrest.2⟩

def sendTraffic (_ : World) : Label → Prop
  | .run _ choice => choice.call = none
  | .spawn (.call (.sendMessage _)) | .spawn (.sendCompletion ..) => True
  | .spawn _ => False

instance (w : World) (l : Label) : Decidable (sendTraffic w l) :=
  match l with
  | .run _ choice => inferInstanceAs (Decidable (choice.call = none))
  | .spawn (.call (.sendMessage _)) => .isTrue trivial
  | .spawn (.call .startReceiveLoop) => .isFalse id
  | .spawn (.call .requestReceived) => .isFalse id
  | .spawn (.call .requestDisconnect) => .isFalse id
  | .spawn .connectEx => .isFalse id
  | .spawn (.recvCompletion ..) => .isFalse id
  | .spawn (.sendCompletion ..) => .isTrue trivial
  | .spawn (.connectCompletion _) => .isFalse id

/-- The only sender's `WSASend` fails at once. -/
def refusedRun : List Label :=
  .spawn (.call (.sendMessage ⟨1, []⟩)) :: Label.goes 0 10 ++
    .run 0 ⟨false, 0, none⟩ :: Label.goes 0 2

theorem not_send_pending_at_rest :
    ¬ ∀ w : World, system.Reach sendTraffic w → w.Quiet →
      w.shared.disconnectRequested = false → w.shared.sendBuffer.size ≠ 0 →
      w.shared.sends ≠ [] := by
  intro hclaim
  obtain ⟨w, hrun, hrest⟩ := exists_of_runUnder system sendTraffic (World.fresh 16 16)
    refusedRun (fun w => decide w.Quiet && !w.shared.disconnectRequested &&
      w.shared.sendBuffer.size != 0 && w.shared.sends.isEmpty) (by decide)
  simp only [Bool.and_eq_true, decide_eq_true_eq, Bool.not_eq_true', bne_iff_ne,
    List.isEmpty_iff] at hrest
  obtain ⟨⟨⟨hquiet, hdisc⟩, hsome⟩, hnone⟩ := hrest
  exact hclaim w ((World.reach_fresh 16 16).of_runUnder hrun) hquiet hdisc hsome hnone

end FastPort.Sessions
