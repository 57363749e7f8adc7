import FastPort.Sessions.RIOReceiveLoop

/-! The end of a `RIOSession`. `m_bIsDisconnected` is stored by whoever finds that the
session is over, and the same thread goes on to call `OnDisconnected`, where the
container lets go of the session. `SendMessage` and `RequestRecv` test the flag, so a
session that is drained when the flag is stored stays so; what is past its test then,
or a completion that is still to come, is not stopped by it. -/
namespace FastPort.Sessions.Rio.Duplex

open FastPort.Commons FastPort.Core FastPort.Foundation.Circular FastPort.Foundation.Framing
open FastPort.Foundation.Pool FastPort.Foundation.Stack FastPort.Foundation.Tally
open FastPort.Foundation.Transition FastPort.Foundation.Transition.System

def NothingToPost (s : Rio.Shared) : Prop :=
  s.sendInProgress = true ∨
    s.sendBuffer.size = 0 ∧ (s.pendingSendQueue = [] ∨ s.sendBuffer.capacity = 0)

instance (s : Rio.Shared) : Decidable (NothingToPost s) :=
  inferInstanceAs (Decidable (s.sendInProgress = true ∨
    s.sendBuffer.size = 0 ∧ (s.pendingSendQueue = [] ∨ s.sendBuffer.capacity = 0)))

theorem flushPendingSendQueue_of_nothing (accepted : Bool) {s : Rio.Shared}
    (h : NothingToPost s) : (flushPendingSendQueue accepted s).rioSends = s.rioSends ∧
      NothingToPost (flushPendingSendQueue accepted s) := by
  unfold flushPendingSendQueue tryPostSendFromQueue
  dsimp only
  rw [RingBuffer.getReadBuffers_fst]
  rcases h with hbusy | ⟨hempty, hqueue⟩
  · rw [if_pos hbusy]
    exact ⟨rfl, .inl hbusy⟩
  · have hsame : flushQueue s.sendBuffer s.pendingTotalBytes s.pendingSendQueue =
        (s.sendBuffer, s.pendingTotalBytes, s.pendingSendQueue) := by
      cases hpending : s.pendingSendQueue with
      | nil => rfl
      | cons pending rest =>
        have hroom := RingBuffer.size_add_canWriteSize (q := s.sendBuffer)
        have hcap : s.sendBuffer.capacity = 0 := by simpa [hpending] using hqueue
        unfold flushQueue
        dsimp only
        rw [RingBuffer.getWriteableBuffers_fst, if_pos (by omega)]
    simp only [hsame, hempty, if_true, ite_self]
    exact ⟨trivial, .inr ⟨hempty, hqueue⟩⟩

/-- A frame that goes on to post, or to a flush, without a look at the flag: it is past its
test of it, or it handles a send that succeeded. -/
def Frame.posting : Frame → Nat
  | send (.checkPending _) | send (.enqueue _) | send (.sendCompletion true _)
  | send (.consume _) | rioReceive => 1
  | _ => 0

def Frame.flushing : Frame → Nat
  | send .flushPendingSendQueue => 1
  | _ => 0

variable {choice : Choice} {s s' : Shared} {f : Frame} {fs : List Frame}

/-- While the flag is set, or as it is stored, the tests keep everybody from posting. -/
theorem Frame.Steps.silent (h : f.Steps choice s s' fs)
    (hover : s.isDisconnected = true ∨ 0 < f.closing) (hposting : f.posting = 0)
    (hflushing : f.flushing = 0 ∨ NothingToPost s.toShared) :
    s'.rioReceives = s.rioReceives ∧ s'.rioSends = s.rioSends ∧
      tally Frame.posting fs = 0 ∧ tally Frame.flushing fs = 0 ∧
      (NothingToPost s.toShared → NothingToPost s'.toShared) := by
  cases h with
  | @sent f shared next hexec =>
    cases f with
    | checkDisconnected m =>
      have hdisc : s.isDisconnected = true := hover.resolve_right (Nat.lt_irrefl 0)
      simp only [Rio.Frame.exec, hdisc, if_true, Prod.mk.injEq] at hexec
      obtain ⟨rfl, rfl⟩ := hexec
      exact ⟨rfl, rfl, rfl, rfl, fun hnothing => hnothing⟩
    | sendCompletion success n =>
      cases success with
      | true => cases hposting
      | false =>
        cases hexec
        exact ⟨rfl, rfl, rfl, rfl, fun hnothing => hnothing⟩
    | flushPendingSendQueue =>
      cases hexec
      have hnothing := hflushing.resolve_left Nat.one_ne_zero
      obtain ⟨hsends, hstill⟩ := flushPendingSendQueue_of_nothing choice.accepted hnothing
      exact ⟨rfl, hsends, rfl, rfl, fun _ => hstill⟩
    | disconnect | onDisconnected =>
      cases hexec
      exact ⟨rfl, rfl, rfl, rfl, fun hnothing => hnothing⟩
    | _ => cases hposting
  | recvAllowed hdisc =>
    rcases hover with hset | hclosing
    · cases hdisc.symm.trans hset
    · cases hclosing
  | recvFull | recvPosted | recvFailed => cases hposting
  | _ => exact ⟨rfl, rfl, rfl, rfl, fun hnothing => hnothing⟩

/-- None of the session's requests is in the request queue. -/
def Unposted (s : Shared) : Prop := s.rioReceives = [] ∧ s.rioSends = []

instance (s : Shared) : Decidable (Unposted s) :=
  inferInstanceAs (Decidable (s.rioReceives = [] ∧ s.rioSends = []))

theorem Unposted.arrive (h : Unposted s) {event : Event}
    (harrived : s.arrive event = some (s', fs)) :
    s' = s ∧ (fs = [.startReceiveLoop] ∨ ∃ m, fs = [.send (.checkDisconnected m)]) := by
  obtain ⟨hreceives, hsends⟩ := h
  cases event with
  | startReceiveLoop =>
    cases harrived
    exact ⟨rfl, .inl rfl⟩
  | sendMessage m =>
    cases harrived
    exact ⟨rfl, .inr ⟨m, rfl⟩⟩
  | recvCompletion index success data => simp [Shared.arrive, hreceives] at harrived
  | sendCompletion index success n =>
    simp [Shared.arrive, Shared.arriveSend, Rio.Shared.arrive, hsends] at harrived

/-- The session has nothing in the request queue, and nobody is about to post: no thread is
past its test of the flag or handles a send that succeeded, and a flush that is under way
finds nothing. -/
structure Drained (w : World) : Prop where
  unposted : Unposted w.shared
  posting : w.weigh Frame.posting = 0
  flushing : w.weigh Frame.flushing = 0 ∨ NothingToPost w.shared.toShared

instance (w : World) : Decidable (Drained w) :=
  decidable_of_iff (Unposted w.shared ∧ w.weigh Frame.posting = 0 ∧
      (w.weigh Frame.flushing = 0 ∨ NothingToPost w.shared.toShared))
    ⟨fun ⟨hunposted, hposting, hflushing⟩ => ⟨hunposted, hposting, hflushing⟩,
      fun h => ⟨h.unposted, h.posting, h.flushing⟩⟩

namespace Drained

variable {w : World} {tid : Nat} {rest : List Frame}

theorem silent (h : Drained w) (hthread : w.threads[tid]? = some (f :: rest))
    (hover : w.shared.isDisconnected = true ∨ 0 < f.closing)
    (hstep : f.Steps choice w.shared s' fs) :
    s'.rioReceives = w.shared.rioReceives ∧ s'.rioSends = w.shared.rioSends ∧
      tally Frame.posting fs = 0 ∧ tally Frame.flushing fs = 0 ∧
      (NothingToPost w.shared.toShared → NothingToPost s'.toShared) := by
  have hposting : f.posting ≤ w.weigh Frame.posting := Stacks.weight_le_weigh hthread
  have hflushing : f.flushing ≤ w.weigh Frame.flushing := Stacks.weight_le_weigh hthread
  rw [h.posting] at hposting
  refine hstep.silent hover (Nat.le_zero.mp hposting) ?_
  rcases h.flushing with hnone | hnothing
  · rw [hnone] at hflushing
    exact .inl (Nat.le_zero.mp hflushing)
  · exact .inr hnothing

theorem exec (h : Drained w) (hthread : w.threads[tid]? = some (f :: rest))
    (hover : w.shared.isDisconnected = true ∨ 0 < f.closing)
    (hstep : f.Steps choice w.shared s' fs) :
    Drained ⟨s', w.threads.set tid (fs ++ rest)⟩ := by
  obtain ⟨hreceives, hsends, hposting, hflushing, hnothing⟩ := h.silent hthread hover hstep
  have hpost := Stacks.weigh_exec Frame.posting hthread s' fs
  have hflush := Stacks.weigh_exec Frame.flushing hthread s' fs
  have hnone := h.posting
  refine ⟨⟨hreceives.trans h.unposted.1, hsends.trans h.unposted.2⟩, by omega, ?_⟩
  rcases h.flushing with hidle | hempty
  · exact .inl (by omega)
  · exact .inr (hnothing hempty)

theorem arrive (h : Drained w) {event : Event} (harrived : w.shared.arrive event = some (s', fs)) :
    Drained ⟨s', w.threads ++ [fs]⟩ := by
  obtain ⟨rfl, rfl | ⟨m, rfl⟩⟩ := h.unposted.arrive harrived
  all_goals
    refine ⟨h.unposted, ?_, h.flushing.imp_left fun hnone => ?_⟩
    · rw [Stacks.weigh_spawn, h.posting]
      rfl
    · rw [Stacks.weigh_spawn, hnone]
      rfl

end Drained

/-- The flag is first stored while the session is drained. -/
def storedDrained (w : World) (l : Label) : Prop :=
  ∀ f ∈ w.runs l, 0 < f.closing → w.shared.isDisconnected = false → Drained w

instance (w : World) (l : Label) : Decidable (storedDrained w l) :=
  inferInstanceAs (Decidable (∀ f ∈ w.runs l, 0 < f.closing →
    w.shared.isDisconnected = false → Drained w))

/-- The rule of the flag: what the first store leads to, and every later step and arrival
keeps, holds while the flag is set. -/
theorem of_stored {ok : World → Label → Prop} {P : World → Prop}
    (hstored : ∀ (w : World) tid choice rest, system.Reach ok w → ok w (.run tid choice) →
      w.threads[tid]? = some (.send .disconnect :: rest) → w.shared.isDisconnected = false →
      P ⟨{ w.shared with isDisconnected := true },
        w.threads.set tid ([.send .onDisconnected] ++ rest)⟩)
    (hexec : ∀ (w : World) tid choice f rest s' fs, system.Reach ok w → P w →
      w.shared.isDisconnected = true → w.threads[tid]? = some (f :: rest) →
      f.Steps choice w.shared s' fs → P ⟨s', w.threads.set tid (fs ++ rest)⟩)
    (harrive : ∀ (w : World) event s' fs, P w → w.shared.arrive event = some (s', fs) →
      P ⟨s', w.threads ++ [fs]⟩)
    {w : World} (hw : system.Reach ok w) (hdisc : w.shared.isDisconnected = true) : P w := by
  revert hdisc
  refine Program.invariant (p := program) (I := fun w => w.shared.isDisconnected = true → P w)
    ?_ ?_ ?_ hw
  · rintro s ⟨recvSlice, sendSlice, recvMemory, sendMemory, -, -, rfl⟩ hdisc
    cases hdisc
  · intro w tid choice f rest hreach ih hok hthread hdisc'
    have hstep := f.steps_exec choice w.shared
    cases hdisc : w.shared.isDisconnected with
    | true => exact hexec w tid choice f rest _ _ hreach (ih hdisc) hdisc hthread hstep
    | false =>
      have hclosing : 0 < f.closing := by
        by_contra hopen
        have hsame := hstep.isDisconnected (Nat.eq_zero_of_not_pos hopen)
        exact Bool.noConfusion (hdisc'.symm.trans (hsame.trans hdisc))
      obtain rfl := Frame.closing_pos.mp hclosing
      have hafter := hstored w tid choice rest hreach hok hthread hdisc
      simpa [program, Frame.exec, send, Rio.Frame.exec] using hafter
  · intro w event s' fs _ ih _ harrived hdisc'
    have hdisc : w.shared.isDisconnected = true := by
      cases Shared.arrived_of_arrive harrived with
      | send hsent => exact (arrive_spec hsent).1.symm.trans hdisc'
      | _ => exact hdisc'
    exact harrive w event s' fs (ih hdisc) harrived

theorem drained {w : World} (hw : system.Reach storedDrained w)
    (hdisc : w.shared.isDisconnected = true) : Drained w := by
  apply of_stored (P := Drained) ?_ ?_ ?_ hw hdisc
  · intro w tid choice rest _ hok hthread hdisc
    have hdrained := hok _ (Stacks.runs_eq hthread) Nat.one_pos hdisc
    have hstep : Frame.Steps choice w.shared (.send .disconnect) _ _ := .stored
    exact hdrained.exec hthread (.inr Nat.one_pos) hstep
  · intro w tid choice f rest s' fs _ hdrained hdisc hthread hstep
    exact hdrained.exec hthread (.inl hdisc) hstep
  · intro w event s' fs hdrained harrived
    exact hdrained.arrive harrived

theorem isDisconnected_of_announcing {ok : World → Label → Prop} {w : World}
    (hw : system.Reach ok w) (hannouncing : 0 < w.weigh Frame.announcing) :
    w.shared.isDisconnected = true := by
  revert hannouncing
  refine Program.invariant (p := program) (I := fun w => 0 < w.weigh Frame.announcing →
    w.shared.isDisconnected = true) ?_ ?_ ?_ hw
  · exact fun s _ hpos => absurd hpos (Nat.lt_irrefl 0)
  · intro w tid choice f rest _ ih _ hthread hpos
    have hstep := f.steps_exec choice w.shared
    obtain ⟨-, hfs⟩ := hstep.announcing
    have hweigh := Stacks.weigh_exec Frame.announcing hthread (f.exec choice w.shared).1
      (f.exec choice w.shared).2
    simp only [program] at hpos ⊢
    rcases Nat.eq_zero_or_pos f.closing with hzero | hclosing
    · rw [hstep.isDisconnected hzero]
      exact ih (by omega)
    · obtain rfl := Frame.closing_pos.mp hclosing
      rfl
  · intro w event s' fs _ ih _ harrived hpos
    rw [Stacks.weigh_spawn] at hpos
    cases Shared.arrived_of_arrive harrived with
    | send hsent =>
      obtain ⟨hsame, -, -, hnone⟩ := arrive_spec hsent
      exact hsame.trans (ih (by omega))
    | _ => exact ih hpos

/-- What the request queue holds when the flag is stored it still holds when the same thread
calls `OnDisconnected`, which is its next step. -/
theorem posted_at_onDisconnected {w : World} {tid : Nat} {rest : List Frame} (choice : Choice)
    (hthread : w.threads[tid]? = some (.send .disconnect :: rest))
    (hposted : ¬ Unposted w.shared) :
    ∃ w', system.step w (.run tid choice) = some w' ∧
      w'.runs (.run tid choice : Label) = some (.send .onDisconnected) ∧
      ¬ Unposted w'.shared := by
  obtain ⟨hlt, -⟩ := List.getElem?_eq_some_iff.mp hthread
  refine ⟨⟨{ w.shared with isDisconnected := true },
    w.threads.set tid (.send .onDisconnected :: rest)⟩, ?_, ?_, hposted⟩
  · simp [system, Program.system, Program.machine, Machine.system, Machine.step, Program.run,
      hthread, program, Frame.exec, send, Rio.Frame.exec]
  · exact Stacks.runs_eq (List.getElem?_set_self hlt)

/-- A session that is declared over while it is drained has no request outstanding when the
container lets go of it. One that has a request in the queue as the flag is stored has it
there when `OnDisconnected` is called. -/
theorem no_io_at_onDisconnected {w : World} (hw : system.Reach storedDrained w) :
    (∀ l : Label, w.runs l = some (.send .onDisconnected) →
      w.shared.rioReceives = [] ∧ w.shared.rioSends = []) ∧
    ∀ (w₁ : World) tid choice rest, w₁.threads[tid]? = some (.send .disconnect :: rest) →
      ¬ Unposted w₁.shared → ∃ w₂, system.step w₁ (.run tid choice) = some w₂ ∧
        w₂.runs (.run tid choice : Label) = some (.send .onDisconnected) ∧
        ¬ (w₂.shared.rioReceives = [] ∧ w₂.shared.rioSends = []) := by
  refine ⟨fun l hcalls => ?_, fun w₁ tid choice rest hthread hposted => ?_⟩
  · obtain ⟨tid, rest, hthread⟩ := Stacks.exists_thread_of_runs hcalls
    have hpos : Frame.announcing (.send .onDisconnected) ≤ w.weigh Frame.announcing :=
      Stacks.weight_le_weigh hthread
    exact (drained hw (isDisconnected_of_announcing hw hpos)).unposted
  · exact posted_at_onDisconnected choice hthread hposted

/-- A message goes out and a packet comes in, both to the end; then the next receive fails. -/
def endingRun (steps : Nat) : List Label :=
  .spawn .startReceiveLoop :: List.replicate 3 (.run 0 ⟨true, none⟩) ++
    .spawn (.sendMessage ⟨1, [7]⟩) :: List.replicate 4 (.run 1 ⟨true, none⟩) ++
    .spawn (.sendCompletion 0 true 5) :: List.replicate 3 (.run 2 ⟨true, none⟩) ++
    .spawn (.recvCompletion 0 true [0, 4, 0, 7]) :: List.replicate 9 (.run 3 ⟨true, none⟩) ++
    .spawn (.recvCompletion 0 false []) :: List.replicate steps (.run 4 ⟨true, none⟩)

theorem no_io_at_onDisconnected_endingRun :
    ∃ w : World, system.runUnder storedDrained (World.fresh 8 8 (by decide) (by decide))
        (endingRun 2) = some w ∧
      w.runs (.run 4 ⟨true, none⟩ : Label) = some (.send .onDisconnected) ∧
      w.shared.rioReceives = [] ∧ w.shared.rioSends = [] := by
  obtain ⟨w, hrun, hat⟩ := exists_of_runUnder system storedDrained
    (World.fresh 8 8 (by decide) (by decide)) (endingRun 2)
    (fun w => w.runs (.run 4 ⟨true, none⟩ : Label) == some (.send .onDisconnected)) (by decide)
  have hcalls := eq_of_beq hat
  have hreach : system.Reach storedDrained w := (World.reach_fresh _ _).of_runUnder hrun
  exact ⟨w, hrun, hcalls, (no_io_at_onDisconnected hreach).1 _ hcalls⟩

/-- A message is on its way when the peer closes the connection. -/
def closingRun : List Label :=
  .spawn .startReceiveLoop :: List.replicate 3 (.run 0 ⟨true, none⟩) ++
    .spawn (.sendMessage ⟨1, [7]⟩) :: List.replicate 4 (.run 1 ⟨true, none⟩) ++
    .spawn (.recvCompletion 0 true []) :: List.replicate 2 (.run 2 ⟨true, none⟩)

/-- The container lets go of the session while the message is in the request queue. -/
theorem not_no_io_at_onDisconnected : ¬ ∀ (w : World) (l : Label), system.Reach free w →
    w.runs l = some (.send .onDisconnected) →
    w.shared.rioReceives = [] ∧ w.shared.rioSends = [] := by
  intro h
  obtain ⟨w, hrun, hat⟩ := exists_of_runUnder system free
    (World.fresh 8 8 (by decide) (by decide)) closingRun
    (fun w => w.runs (.run 2 ⟨true, none⟩ : Label) == some (.send .onDisconnected) &&
      !decide (Unposted w.shared)) (by decide)
  simp only [Bool.and_eq_true, beq_iff_eq, Bool.not_eq_true', decide_eq_false_iff_not] at hat
  obtain ⟨hcalls, hposted⟩ := hat
  exact hposted (h w _ ((World.reach_fresh _ _).of_runUnder hrun) hcalls)

end FastPort.Sessions.Rio.Duplex
