import FastPort.Sessions.RIODisconnect

/-! `OnDisconnected` as the last thing that a `RIOSession` does. Besides being drained the
session must have nothing left to deliver and nobody else who is to declare it over: the
handler of a completion looks at the flag neither before it delivers packets nor before it
stores the flag once more. -/
namespace FastPort.Sessions.Rio.Duplex

open FastPort.Commons FastPort.Core FastPort.Foundation.Circular FastPort.Foundation.Framing
open FastPort.Foundation.Pool FastPort.Foundation.Stack FastPort.Foundation.Tally
open FastPort.Foundation.Transition FastPort.Foundation.Transition.System

variable {choice : Choice} {s s' : Shared} {f : Frame} {fs : List Frame}

def hasFrame (q : RingBuffer) : Bool :=
  match PacketFramer.nextFrame q.content with
  | .frame _ => true
  | _ => false

theorem ne_frame_of_hasFrame {q : RingBuffer} (h : hasFrame q = false) (n : Nat) :
    PacketFramer.nextFrame q.content ≠ .frame n := by
  intro hnext
  rw [hasFrame, hnext] at h
  cases h

/-- A frame that goes on to call `OnPacketReceived`: it has a packet, or will find one in the
ring. -/
def Frame.delivers (s : Shared) : Frame → Bool
  | recvCompletion true n =>
      n != 0 && hasFrame ((s.receiveBuffer.commitWrite n).getD s.receiveBuffer)
  | commitWrite n => hasFrame ((s.receiveBuffer.commitWrite n).getD s.receiveBuffer)
  | addRxBytes _ | readReceivedBuffers => hasFrame s.receiveBuffer
  | onPacketReceived _ => true
  | _ => false

/-- A frame that goes on to store the flag whatever it is. -/
def Frame.ending : Frame → Nat
  | send .disconnect | send (.sendCompletion false _) => 1
  | recvCompletion success n => (!success || n == 0).toNat
  | _ => 0

theorem Frame.Steps.ending (h : f.Steps choice s s' fs) (hposting : f.posting = 0) :
    tally Frame.ending fs + f.closing ≤ f.ending := by
  cases h with
  | @sent f shared next hexec hstill =>
    cases f with
    | checkDisconnected m =>
      simp only [Rio.Frame.exec, Prod.mk.injEq] at hexec
      obtain ⟨-, rfl⟩ := hexec
      split <;> exact Nat.le_refl 0
    | sendCompletion success n =>
      cases success with
      | true => cases hposting
      | false =>
        cases hexec
        exact Nat.le_refl 1
    | flushPendingSendQueue =>
      cases hexec
      exact Nat.le_refl 0
    | disconnect => exact absurd rfl hstill.1
    | onDisconnected => exact absurd rfl hstill.2.1
    | _ => cases hposting
  | stored => exact Nat.le_refl 1
  | @recvEnded success n hend => rcases hend with rfl | rfl <;> simp [Frame.ending, Frame.closing]
  | _ => exact Nat.zero_le _

def AllDelivered (s : Shared) : Prop :=
  packets s.log = (PacketFramer.decoder.drain s.arrived).1.map Packet.ofRaw

theorem Stage.allDelivered (h : Stage s f) (harm : 0 < f.arm) (hnot : f.delivers s = false) :
    AllDelivered s := by
  cases f with
  | send | startReceiveLoop | userCode => cases harm
  | requestRecv | rioReceive => exact Delivered.log h
  | recvCompletion success n =>
    cases success with
    | false => exact Delivered.log h
    | true =>
      rcases Nat.eq_zero_or_pos n with rfl | hpos
      · have hlog := (Arriving.delivered h).log
        rwa [Nat.sub_zero, List.take_length] at hlog
      · have hsome : (n != 0) ≠ false := by simpa using Nat.ne_of_gt hpos
        have hnone := (Bool.and_eq_false_iff.mp hnot).resolve_left hsome
        exact ((Arriving.commit h).done (ne_frame_of_hasFrame hnone)).log
  | commitWrite n => exact ((Arriving.commit h).done (ne_frame_of_hasFrame hnot)).log
  | addRxBytes n | readReceivedBuffers =>
    exact (Reading.done h (ne_frame_of_hasFrame hnot)).log
  | onPacketReceived packet => cases hnot

section

variable {ok : World → Label → Prop} {w : World} {tid : Nat} {rest : List Frame}

theorem allDelivered (hw : system.Reach ok w)
    (hnone : ∀ stack ∈ w.threads, ∀ g ∈ stack, g.delivers w.shared = false) :
    AllDelivered w.shared := by
  by_cases hidle : w.weigh Frame.arm = 0
  · exact ((staged hw).idle hidle).delivered.log
  · obtain ⟨stack, hstack, hpos⟩ := exists_of_tally_pos (Nat.pos_of_ne_zero hidle)
    obtain ⟨g, hg, harm⟩ := exists_of_tally_pos hpos
    exact ((staged hw).stage stack hstack g hg harm).allDelivered harm (hnone stack hstack g hg)

theorem AllDelivered.ne_onPacketReceived (h : AllDelivered w.shared) (hw : system.Reach ok w)
    (hthread : w.threads[tid]? = some (f :: rest)) (packet : Packet) :
    f ≠ .onPacketReceived packet := by
  rintro rfl
  have hreading : Reading w.shared [packet] :=
    (staged hw).stage _ (List.mem_of_getElem? hthread) _ List.mem_cons_self Nat.one_pos
  have hlength := congrArg List.length (hreading.log.trans h.symm)
  simp only [List.length_append, List.length_singleton] at hlength
  omega

end

theorem Frame.Steps.log (h : f.Steps choice s s' fs) :
    ∃ more, s'.log = s.log ++ more ∧
      (f.announcing = 0 → .onDisconnected ∉ more) ∧
      (f.announcing = 0 → (∀ packet, f ≠ .onPacketReceived packet) →
        s'.rioReceives = s.rioReceives → s'.rioSends = s.rioSends → more = []) := by
  cases h with
  | announced =>
    exact ⟨[.onDisconnected], rfl, by simp [Frame.announcing], by simp [Frame.announcing]⟩
  | @sent f shared =>
    refine ⟨List.replicate (shared.rioSends.length - s.rioSends.length) .rioSend, rfl,
      fun _ hmem => ?_, fun _ _ _ hsends => ?_⟩
    · cases List.eq_of_mem_replicate hmem
    · have hsame : shared.rioSends = s.rioSends := hsends
      rw [hsame, Nat.sub_self, List.replicate_zero]
  | recvPosted =>
    refine ⟨[.rioReceive], rfl, by simp, fun _ _ hreceives => ?_⟩
    simp at hreceives
  | @delivered packet =>
    exact ⟨[.onPacketReceived packet], rfl, by simp, fun _ hnot => absurd rfl (hnot packet)⟩
  | _ => exact ⟨[], by simp, by simp, by simp⟩

theorem Frame.Steps.delivered_same (h : f.Steps choice s s' fs)
    (hnot : ∀ packet, f ≠ .onPacketReceived packet) :
    packets s'.log = packets s.log ∧ s'.arrived = s.arrived := by
  cases h with
  | delivered => exact absurd rfl (hnot _)
  | announced | recvPosted => simp [Duplex.packets]
  | sent => simp
  | _ => exact ⟨rfl, rfl⟩

/-- The flag is first stored while the session is drained, by the only thread that is to
store it, and with no packet left to deliver. -/
def storedLast (w : World) (l : Label) : Prop :=
  ∀ f ∈ w.runs l, 0 < f.closing → w.shared.isDisconnected = false →
    Drained w ∧ w.weigh Frame.ending ≤ 1 ∧
      ∀ stack ∈ w.threads, ∀ g ∈ stack, g.delivers w.shared = false

instance (w : World) (l : Label) : Decidable (storedLast w l) :=
  inferInstanceAs (Decidable (∀ f ∈ w.runs l, 0 < f.closing →
    w.shared.isDisconnected = false → Drained w ∧ w.weigh Frame.ending ≤ 1 ∧
      ∀ stack ∈ w.threads, ∀ g ∈ stack, g.delivers w.shared = false))

structure Over (w : World) : Prop where
  drained : Drained w
  ending : w.weigh Frame.ending = 0
  delivered : AllDelivered w.shared

theorem over_of_stored {w : World} (hw : system.Reach storedLast w)
    (hdisc : w.shared.isDisconnected = true) : Over w := by
  apply of_stored (P := Over) ?_ ?_ ?_ hw hdisc
  · intro w tid choice rest hreach hok hthread hdisc
    obtain ⟨hdrained, hending, hnone⟩ := hok _ (Stacks.runs_eq hthread) Nat.one_pos hdisc
    have hstep : Frame.Steps choice w.shared (.send .disconnect) _ _ := .stored
    have hdelivered : AllDelivered w.shared := allDelivered hreach hnone
    have hweigh := Stacks.weigh_exec Frame.ending hthread
      { w.shared with isDisconnected := true } [.send .onDisconnected]
    have hone : Frame.ending (.send .disconnect) = 1 := rfl
    have hzero : tally Frame.ending [.send .onDisconnected] = 0 := rfl
    exact ⟨hdrained.exec hthread (.inr Nat.one_pos) hstep, by omega, hdelivered⟩
  · intro w tid choice f rest s' fs hreach h hdisc hthread hstep
    have hposting : f.posting ≤ w.weigh Frame.posting := Stacks.weight_le_weigh hthread
    have hending : f.ending ≤ w.weigh Frame.ending := Stacks.weight_le_weigh hthread
    have hdrained := h.drained.posting
    have hnone := h.ending
    have hnext := hstep.ending (by omega)
    have hweigh := Stacks.weigh_exec Frame.ending hthread s' fs
    obtain ⟨hpackets, harrived⟩ :=
      hstep.delivered_same (h.delivered.ne_onPacketReceived hreach hthread)
    refine ⟨h.drained.exec hthread (.inl hdisc) hstep, by omega, ?_⟩
    rw [AllDelivered, hpackets, harrived]
    exact h.delivered
  · intro w event s' fs h harrived
    have hdrained := h.drained.arrive harrived
    obtain ⟨rfl, rfl | ⟨m, rfl⟩⟩ := h.drained.unposted.arrive harrived
    all_goals
      refine ⟨hdrained, ?_, h.delivered⟩
      rw [Stacks.weigh_spawn, h.ending]
      rfl

/-- `OnDisconnected` is the last thing that shows outside. -/
def Terminal (log : List Effect) : Prop :=
  ∀ before after, log = before ++ .onDisconnected :: after → after = []

theorem terminal_of_not_mem {log : List Effect} (h : .onDisconnected ∉ log) : Terminal log := by
  intro before after hlog
  rw [hlog] at h
  simp at h

theorem terminal_append {log : List Effect} (h : .onDisconnected ∉ log) :
    Terminal (log ++ [.onDisconnected]) := by
  intro before after hlog
  rcases List.append_eq_append_iff.mp hlog with ⟨more, rfl, hrest⟩ | ⟨more, rfl, hrest⟩
  · cases more with
    | nil =>
      cases hrest
      rfl
    | cons effect more =>
      have hnil := (List.cons.inj hrest).2
      simp at hnil
  · cases more with
    | nil =>
      cases hrest
      rfl
    | cons effect more =>
      cases hrest
      simp at h

structure Ending (w : World) : Prop where
  before : w.shared.isDisconnected = false → w.weigh Frame.announcing = 0
  once : w.weigh Frame.announcing ≤ 1
  unsaid : w.shared.isDisconnected = false ∨ 0 < w.weigh Frame.announcing →
    .onDisconnected ∉ w.shared.log
  terminal : Terminal w.shared.log

namespace Ending

variable {w : World} {tid : Nat} {rest : List Frame}

theorem exec_before (h : Ending w) (hthread : w.threads[tid]? = some (f :: rest))
    (hstep : f.Steps choice w.shared s' fs) (hdisc : w.shared.isDisconnected = false) :
    Ending ⟨s', w.threads.set tid (fs ++ rest)⟩ := by
  obtain ⟨more, hlog, hnot, -⟩ := hstep.log
  have hweigh := Stacks.weigh_exec Frame.announcing hthread s' fs
  have hannouncing : f.announcing ≤ w.weigh Frame.announcing := Stacks.weight_le_weigh hthread
  obtain ⟨-, hfs⟩ := hstep.announcing
  have hnone := h.before hdisc
  have hclosing : f.closing ≤ 1 := by
    unfold Frame.closing
    split <;> omega
  have hunsaid : .onDisconnected ∉ s'.log := by
    rw [hlog, List.mem_append]
    rintro (hold | hnew)
    · exact h.unsaid (.inl hdisc) hold
    · exact hnot (by omega) hnew
  refine ⟨fun hclear => ?_, by omega, fun _ => hunsaid, terminal_of_not_mem hunsaid⟩
  rcases Nat.eq_zero_or_pos f.closing with hopen | hpos
  · omega
  · obtain rfl := Frame.closing_pos.mp hpos
    cases hstep with
    | stored => cases hclear
    | sent _ hstill => exact absurd rfl hstill.1

theorem exec_after (h : Ending w) (hover : Over w) (hreach : system.Reach storedLast w)
    (hthread : w.threads[tid]? = some (f :: rest)) (hstep : f.Steps choice w.shared s' fs)
    (hdisc : w.shared.isDisconnected = true) :
    Ending ⟨s', w.threads.set tid (fs ++ rest)⟩ := by
  obtain ⟨more, hlog, -, hnothing⟩ := hstep.log
  obtain ⟨hreceives, hsends, -⟩ := hover.drained.silent hthread (.inl hdisc) hstep
  have hposting : f.posting ≤ w.weigh Frame.posting := Stacks.weight_le_weigh hthread
  have hending : f.ending ≤ w.weigh Frame.ending := Stacks.weight_le_weigh hthread
  have hdrained := hover.drained.posting
  have hlast := hover.ending
  have hclosing := hstep.ending (by omega)
  have hset : s'.isDisconnected = true := (hstep.isDisconnected (by omega)).trans hdisc
  have hweigh := Stacks.weigh_exec Frame.announcing hthread s' fs
  have hannouncing : f.announcing ≤ w.weigh Frame.announcing := Stacks.weight_le_weigh hthread
  obtain ⟨-, hfs⟩ := hstep.announcing
  have honce := h.once
  refine ⟨fun hclear => Bool.noConfusion (hset.symm.trans hclear), by omega, ?_, ?_⟩
  · rintro (hclear | hpos)
    · cases hset.symm.trans hclear
    · have hother : f.announcing = 0 := by omega
      obtain rfl := hnothing hother (hover.delivered.ne_onPacketReceived hreach hthread)
        hreceives hsends
      rw [hlog, List.append_nil]
      exact h.unsaid (.inr (by omega))
  · rcases Nat.eq_zero_or_pos f.announcing with hother | hpos
    · obtain rfl := hnothing hother (hover.delivered.ne_onPacketReceived hreach hthread)
        hreceives hsends
      rw [hlog, List.append_nil]
      exact h.terminal
    · obtain rfl := Frame.announcing_pos.mp hpos
      cases hstep with
      | announced => exact terminal_append (h.unsaid (.inr (by omega)))
      | sent _ hstill => exact absurd rfl hstill.2.1

end Ending

theorem ending {w : World} (hw : system.Reach storedLast w) : Ending w := by
  refine Program.invariant (p := program) (I := Ending) ?_ ?_ ?_ hw
  · rintro s ⟨recvSlice, sendSlice, recvMemory, sendMemory, -, -, rfl⟩
    have hnone : Effect.onDisconnected ∉
        (Shared.initial recvSlice sendSlice recvMemory sendMemory).log := List.not_mem_nil
    exact ⟨fun _ => rfl, Nat.zero_le _, fun _ => hnone, terminal_of_not_mem hnone⟩
  · intro w tid choice f rest hreach ih _ hthread
    have hstep := f.steps_exec choice w.shared
    cases hdisc : w.shared.isDisconnected with
    | false => exact ih.exec_before hthread hstep hdisc
    | true => exact ih.exec_after (over_of_stored hreach hdisc) hreach hthread hstep hdisc
  · intro w event s' fs _ ih _ harrived
    have hstill : s'.isDisconnected = w.shared.isDisconnected ∧ s'.log = w.shared.log ∧
        tally Frame.announcing fs = 0 := by
      cases Shared.arrived_of_arrive harrived with
      | send hsent => exact ⟨(arrive_spec hsent).1, rfl, (arrive_spec hsent).2.2.2⟩
      | _ => exact ⟨rfl, rfl, rfl⟩
    obtain ⟨hdisc, hlog, hnone⟩ := hstill
    have hweigh := Stacks.weigh_spawn Frame.announcing w s' fs
    rw [hnone, Nat.add_zero] at hweigh
    constructor
    · rw [hdisc, hweigh]
      exact ih.before
    · rw [hweigh]
      exact ih.once
    · rw [hdisc, hweigh, hlog]
      exact ih.unsaid
    · rw [hlog]
      exact ih.terminal

/-- `OnDisconnected` is the end of a session that is declared over when everything else is
done with. -/
theorem onDisconnected_terminal {w : World} (hw : system.Reach storedLast w) :
    Terminal w.shared.log :=
  (ending hw).terminal

theorem onDisconnected_terminal_endingRun :
    ∃ w : World, system.runUnder storedLast (World.fresh 8 8 (by decide) (by decide))
        (endingRun 4) = some w ∧
      w.shared.log.length = 5 ∧ .onDisconnected ∈ w.shared.log ∧ Terminal w.shared.log := by
  obtain ⟨w, hrun, hat⟩ := exists_of_runUnder system storedLast
    (World.fresh 8 8 (by decide) (by decide)) (endingRun 4)
    (fun w => decide (w.shared.log.length = 5 ∧ .onDisconnected ∈ w.shared.log)) (by decide)
  obtain ⟨hlength, hmem⟩ := of_decide_eq_true hat
  have hreach : system.Reach storedLast w := (World.reach_fresh _ _).of_runUnder hrun
  exact ⟨w, hrun, hlength, hmem, onDisconnected_terminal hreach⟩

/-- Both requests are posted, and both fail. -/
def failingTwiceRun : List Label :=
  .spawn .startReceiveLoop :: List.replicate 3 (.run 0 ⟨true, none⟩) ++
    .spawn (.sendMessage ⟨1, [7]⟩) :: List.replicate 4 (.run 1 ⟨true, none⟩) ++
    .spawn (.recvCompletion 0 false []) :: List.replicate 4 (.run 2 ⟨true, none⟩) ++
    .spawn (.sendCompletion 0 false 0) :: List.replicate 4 (.run 3 ⟨true, none⟩)

/-- `OnDisconnected` is called for each of them. -/
theorem not_onDisconnected_terminal :
    ¬ ∀ w : World, system.Reach free w → Terminal w.shared.log := by
  intro h
  obtain ⟨w, hrun, hat⟩ := exists_of_runUnder system free
    (World.fresh 8 8 (by decide) (by decide)) failingTwiceRun
    (fun w => decide (w.shared.log =
      [.rioReceive, .rioSend, .onDisconnected, .onDisconnected])) (by decide)
  have hterminal := h w ((World.reach_fresh _ _).of_runUnder hrun)
  have hnil := hterminal [.rioReceive, .rioSend] [.onDisconnected] (of_decide_eq_true hat)
  cases hnil

end FastPort.Sessions.Rio.Duplex
