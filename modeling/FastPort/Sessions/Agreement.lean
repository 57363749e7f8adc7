import FastPort.Sessions.Verdict
import FastPort.Sessions.RIOReceiveLoop

/-! The same stream in front of an `IOSession` and of a `RIOSession`. Both deliver the
same packets, but only one of them ends when the stream goes wrong. -/
namespace FastPort.Sessions

open FastPort.Commons FastPort.Core FastPort.Core.PacketFramer FastPort.Foundation.Feed
open FastPort.Foundation.Framing FastPort.Foundation.Pool FastPort.Foundation.Stack
open FastPort.Foundation.Tally FastPort.Foundation.Transition

namespace Rio.Duplex

def Event.brings : Event → List Byte
  | .recvCompletion _ success data => if success then data else []
  | _ => []

def Frame.judges : Frame → Prop
  | readReceivedBuffers | rioReceive => True
  | _ => False

instance (f : Frame) : Decidable f.judges := by
  unfold Frame.judges
  split <;> infer_instance

/-- While the session is connected, nothing but what it has received ends it, and no
`RIOReceive` fails. -/
def undisturbed (w : World) : Label → Prop
  | .run tid choice =>
      ∀ f ∈ w.runs (.run tid choice : Label), w.shared.isDisconnected = true ∨
        (f.judges ∨ tally Frame.closing (f.exec choice w.shared).2 = 0) ∧
          (f ≠ .rioReceive ∨ choice.accepted = true)
  | .spawn _ => True

instance (w : World) : (l : Label) → Decidable (undisturbed w l)
  | .run _ _ => by
    unfold undisturbed
    infer_instance
  | .spawn _ => instDecidableTrue

/-- A session beside the stream that its request queue delivers. -/
def fedSession (stream : List Byte) : System (Fed World Byte) Label :=
  fed program.machine Event.brings stream

/-- The receive loop was started, every thread has returned, and the stream is at its
end or nothing is posted to take more of it. -/
structure Finished (stream : List Byte) (w : Fed World Byte) : Prop where
  started : w.state.shared.receiveLoopStarted = true
  returned : ∀ stack ∈ w.state.threads, stack = []
  exhausted : w.taken = stream ∨ w.state.shared.rioReceives = []

section

variable {choice : Choice} {s s' : Shared} {f : Frame} {fs : List Frame}

theorem Frame.Steps.closing (h : f.Steps choice s s' fs) (hf : f.judges) :
    tally Frame.closing fs = 0 := by
  cases h with
  | recvFull | recvPosted | recvFailed | popped | frameMissing => rfl
  | _ => cases hf

theorem Frame.Steps.refusedReceives (h : f.Steps choice s s' fs)
    (hf : f ≠ .rioReceive ∨ choice.accepted = true) :
    s'.refusedReceives = s.refusedReceives := by
  cases h with
  | recvFailed _ hrefused =>
    rcases hf with hne | haccepted
    · exact absurd rfl hne
    · cases haccepted.symm.trans hrefused
  | _ => rfl

theorem Frame.Steps.arrived (h : f.Steps choice s s' fs) : s'.arrived = s.arrived := by
  cases h <;> rfl

end

theorem arrive_connected {s s' : Shared} {event : Event} {fs : List Frame}
    (h : s.arrive event = some (s', fs)) : s'.isDisconnected = s.isDisconnected ∧
      s'.refusedReceives = s.refusedReceives ∧ tally Frame.closing fs = 0 := by
  cases event with
  | startReceiveLoop =>
    cases h
    exact ⟨rfl, rfl, rfl⟩
  | sendMessage m =>
    cases h
    exact ⟨rfl, rfl, rfl⟩
  | recvCompletion index success data =>
    simp only [Shared.arrive] at h
    split at h
    · cases h
    · split at h
      · cases h
        exact ⟨rfl, rfl, rfl⟩
      · cases h
  | sendCompletion index success n =>
    simp only [Shared.arrive, Shared.arriveSend, Rio.Shared.arrive] at h
    split at h
    · cases h
    · split at h
      · cases h
        exact ⟨rfl, rfl, rfl⟩
      · cases h

structure Connected (w : World) : Prop where
  isDisconnected : w.shared.isDisconnected = false
  refusedReceives : w.shared.refusedReceives = 0
  closing : w.weigh Frame.closing = 0

theorem connected {w : World} (hw : system.Reach undisturbed w) : Connected w := by
  refine Program.invariant (p := program) (I := Connected) ?_ ?_ ?_ hw
  · rintro s ⟨recvSlice, sendSlice, recvMemory, sendMemory, -, -, rfl⟩
    exact ⟨rfl, rfl, rfl⟩
  · intro w tid choice f rest _ ih hok hthread
    obtain ⟨hends, haccepted⟩ := (hok f (Stacks.runs_eq hthread)).resolve_left
      (by simp [ih.isDisconnected])
    have hle : f.closing ≤ w.weigh Frame.closing := Stacks.weight_le_weigh hthread
    have hclosing := ih.closing
    have hstep := f.steps_exec choice w.shared
    have hfs : tally Frame.closing (f.exec choice w.shared).2 = 0 := hends.elim hstep.closing id
    have hweigh := Stacks.weigh_exec Frame.closing hthread (f.exec choice w.shared).1
      (f.exec choice w.shared).2
    refine ⟨?_, ?_, ?_⟩
    · exact (hstep.isDisconnected (by omega)).trans ih.isDisconnected
    · exact (hstep.refusedReceives haccepted).trans ih.refusedReceives
    · simp only [program] at hweigh ⊢
      omega
  · intro w event s' fs _ ih _ harrived
    obtain ⟨hdisc, hrefused, hfs⟩ := arrive_connected harrived
    refine ⟨hdisc.trans ih.isDisconnected, hrefused.trans ih.refusedReceives, ?_⟩
    rw [Stacks.weigh_spawn, ih.closing, hfs]

def Fitting (s : Shared) (packet : Packet) : Prop :=
  packet.rawBinaries.length ≤ s.receiveBuffer.capacity

structure Fits (w : World) : Prop where
  delivered : ∀ packet ∈ packets w.shared.log, Fitting w.shared packet
  held : ∀ stack ∈ w.threads, ∀ packet, .onPacketReceived packet ∈ stack → Fitting w.shared packet

theorem Frame.Steps.delivers {choice : Choice} {s s' : Shared} {f : Frame} {fs : List Frame}
    (h : f.Steps choice s s' fs) :
    (packets s'.log = packets s.log ∨ ∃ packet, f = .onPacketReceived packet ∧
      packets s'.log = packets s.log ++ [packet]) ∧
    ∀ packet, .onPacketReceived packet ∈ fs → Fitting s packet := by
  cases h with
  | announced => exact ⟨.inl (by simp [packets]), by simp⟩
  | sent => exact ⟨.inl (by simp), by simp⟩
  | recvPosted => exact ⟨.inl (by simp [packets]), by simp⟩
  | @popped n =>
    refine ⟨.inl rfl, fun packet hmem => ?_⟩
    simp only [List.mem_singleton, Frame.onPacketReceived.injEq] at hmem
    subst hmem
    have hsize := s.receiveBuffer.size_le_capacity
    have hlength := RingBuffer.length_content (q := s.receiveBuffer)
    simp only [Fitting, Packet.ofRaw, List.length_take]
    omega
  | @delivered packet => exact ⟨.inr ⟨packet, rfl, by simp [packets]⟩, by simp⟩
  | _ => exact ⟨.inl rfl, by simp⟩

theorem fits {w : World} (hw : system.Reach free w) : Fits w := by
  refine Program.invariant (p := program) (I := Fits) ?_ ?_ ?_ hw
  · rintro s ⟨recvSlice, sendSlice, recvMemory, sendMemory, -, -, rfl⟩
    exact ⟨by simp [Shared.initial, packets], by simp⟩
  · intro w tid choice f rest _ ih _ hthread
    have hstep := f.steps_exec choice w.shared
    obtain ⟨hlog, hfs⟩ := hstep.delivers
    have hcapacity := hstep.capacity.1
    have hkeep : ∀ {packet}, Fitting w.shared packet →
        Fitting (f.exec choice w.shared).1 packet := by
      intro packet hfits
      unfold Fitting
      rwa [hcapacity]
    constructor
    · intro packet hmem
      simp only [program] at hmem ⊢
      rcases hlog with hsame | ⟨last, rfl, hmore⟩
      · exact hkeep (ih.delivered packet (hsame ▸ hmem))
      · rw [hmore, List.mem_append, List.mem_singleton] at hmem
        rcases hmem with hold | rfl
        · exact hkeep (ih.delivered packet hold)
        · exact hkeep (ih.held _ (List.mem_of_getElem? hthread) packet List.mem_cons_self)
    · intro stack hstack packet hmem
      rcases Stacks.mem_frames_exec hthread hstack hmem with hnew | ⟨old, hold, hmem⟩
      · exact hkeep (hfs packet hnew)
      · rcases List.mem_or_eq_of_mem_set hold with hold | rfl
        · exact hkeep (ih.held old hold packet hmem)
        · exact hkeep (ih.held _ (List.mem_of_getElem? hthread) packet
            (List.mem_cons_of_mem f hmem))
  · intro w event s' fs _ ih _ harrived
    have hsame : s'.receiveBuffer.capacity = w.shared.receiveBuffer.capacity ∧
        s'.log = w.shared.log ∧ ∀ packet, .onPacketReceived packet ∉ fs := by
      cases Shared.arrived_of_arrive harrived with
      | recvCompletion => exact ⟨RingBuffer.fill_capacity _ _, rfl, by simp⟩
      | _ => exact ⟨rfl, rfl, by simp⟩
    obtain ⟨hcapacity, hlog, hfs⟩ := hsame
    constructor
    · intro packet hmem
      unfold Fitting
      rw [hcapacity]
      exact ih.delivered packet (hlog ▸ hmem)
    · intro stack hstack packet hmem
      unfold Fitting
      rw [hcapacity]
      rcases List.mem_append.mp hstack with hold | hnew
      · exact ih.held stack hold packet hmem
      · obtain rfl := List.mem_singleton.mp hnew
        exact absurd hmem (hfs packet)

section

variable {stream : List Byte} {w : Fed World Byte}

theorem reach_undisturbed (hw : (fedSession stream).Reach (fun w => undisturbed w.state) w) :
    system.Reach undisturbed w.state :=
  reach_state (fun _ _ hok => hok) hw

theorem arrived_eq {ok : Fed World Byte → Label → Prop} (hw : (fedSession stream).Reach ok w) :
    w.state.shared.arrived = w.taken := by
  refine Foundation.Feed.invariant (I := fun w taken => w.shared.arrived = taken) ?_ ?_ ?_ hw
  · rintro s ⟨recvSlice, sendSlice, recvMemory, sendMemory, -, -, rfl⟩
    rfl
  · intro w taken tid choice stack s' stack' _ ih _ _ hrun
    cases stack with
    | nil => cases hrun
    | cons f rest =>
      cases hrun
      exact (f.steps_exec choice w.shared).arrived.trans ih
  · intro w taken event s' fs _ ih _ _ harrived
    cases event with
    | recvCompletion index success data =>
      simp only [Program.machine, program, Shared.arrive] at harrived
      split at harrived
      · cases harrived
      · split at harrived
        · cases harrived
          exact congrArg (· ++ _) ih
        · cases harrived
    | startReceiveLoop =>
      cases harrived
      simpa [Event.brings] using ih
    | sendMessage m =>
      cases harrived
      simpa [Event.brings] using ih
    | sendCompletion index success n =>
      obtain ⟨r, -, hr⟩ := Option.map_eq_some_iff.mp harrived
      cases hr
      simpa [Event.brings] using ih

theorem Finished.verdict (hend : Finished stream w)
    (hw : (fedSession stream).Reach (fun w => undisturbed w.state) w) :
    packets w.state.shared.log =
        ((bounded w.state.shared.receiveBuffer.capacity).drain stream).1.map Packet.ofRaw ∧
      w.state.shared.isDisconnected = false := by
  have hreach := reach_undisturbed hw
  have hfree : system.Reach System.free w.state := hreach.mono fun _ _ _ => trivial
  have hconnected := connected hreach
  refine ⟨?_, hconnected.isDisconnected⟩
  have hreturned : ∀ weight, w.state.weigh weight = 0 := by
    intro weight
    apply Stacks.weigh_eq_zero.mpr
    intro stack hstack f hf
    rw [hend.returned stack hstack] at hf
    cases hf
  have hdelivered := ((staged hreach).idle (hreturned _)).delivered
  rw [arrived_eq hw] at hdelivered
  -- on what has been taken, the bound makes no difference
  have hframes : ∀ f ∈ (decoder.drain w.taken).1,
      f.length ≤ w.state.shared.receiveBuffer.capacity := by
    intro f hf
    apply (fits hfree).delivered (Packet.ofRaw f)
    rw [hdelivered.log]
    exact List.mem_map_of_mem hf
  have hrest : (decoder.drain w.taken).2.length ≤ w.state.shared.receiveBuffer.capacity := by
    rw [← hdelivered.content, RingBuffer.length_content]
    exact RingBuffer.size_le_capacity
  obtain ⟨more, hstream⟩ := taken_front hw
  rw [hdelivered.log, ← hstream]
  rcases eq_or_ne more [] with rfl | hmore
  · rw [List.append_nil, bounded, Decoder.bounded_drain hframes hrest]
  · -- the loop has stopped before the end, so the ring is full
    have hnone : w.state.shared.rioReceives = [] := by
      refine hend.exhausted.resolve_left fun htaken => hmore ?_
      rw [htaken] at hstream
      simpa using hstream
    have hfull : w.state.shared.receiveBuffer.canWriteSize = 0 := by
      rcases armed hreach hend.started hconnected.isDisconnected with hsome | hfull
      · rw [hnone, hconnected.refusedReceives, hreturned] at hsome
        cases hsome
      · exact hfull
    have hsize := RingBuffer.size_add_canWriteSize (q := w.state.shared.receiveBuffer)
    have hlength := congrArg List.length hdelivered.content
    rw [RingBuffer.length_content] at hlength
    rw [bounded, Decoder.bounded_drain_of_full hframes (by omega) hmore]

end

end Rio.Duplex

/-- Both have delivered the same packets, and both are connected or neither is. -/
structure Agree (w : Fed World Byte) (w' : Fed Rio.Duplex.World Byte) : Prop where
  delivered : packets w.state.shared.log = Rio.Duplex.packets w'.state.shared.log
  verdict : w.state.shared.disconnectRequested = w'.state.shared.isDisconnected

/-- The sessions agree on a stream exactly when it is sound; on any other stream only
the `IOSession` is disconnected. -/
theorem agree_iff_sound {stream : List Byte} {w : Fed World Byte}
    {w' : Fed Rio.Duplex.World Byte} (hw : (fedSession stream).Reach (undisturbed stream) w)
    (hw' : (Rio.Duplex.fedSession stream).Reach (fun w => Rio.Duplex.undisturbed w.state) w')
    (hend : Finished stream w) (hend' : Rio.Duplex.Finished stream w')
    (hcapacity : w.state.shared.receiveBuffer.capacity =
      w'.state.shared.receiveBuffer.capacity) :
    Agree w w' ↔ Sound w.state.shared.receiveBuffer.capacity stream := by
  have hslice := Rio.Duplex.capacity_eq (Rio.Duplex.reach_undisturbed hw')
  have hfits := w'.state.shared.recvSlice.fits
  obtain ⟨hdelivered, hdisconnected⟩ := hend.verdict hw (by omega)
  obtain ⟨hdelivered', hconnected⟩ := hend'.verdict hw'
  constructor
  · rintro ⟨-, hverdict⟩
    rw [hconnected] at hverdict
    by_contra hunsound
    simp [hdisconnected.mpr hunsound] at hverdict
  · intro hsound
    refine ⟨by rw [hdelivered, hdelivered', hcapacity], ?_⟩
    rw [hconnected]
    by_contra hset
    exact hdisconnected.mp (by simpa using hset) hsound

section

variable (stream : List Byte) (disconnected : Bool) (steps : Nat)

/-- The loop starts, the zero-byte receive completes, and the real one with the whole
stream. -/
def feedingRun : List Label :=
  .spawn (.call .startReceiveLoop) :: Label.goes 0 7 ++
    .spawn (.recvCompletion 0 true []) :: Label.goes 1 4 ++
    .spawn (.recvCompletion 0 true stream) :: Label.goes 2 steps

theorem exists_fed (h : ((fedSession stream).runUnder (undisturbed stream)
    ⟨World.fresh 16 16, []⟩ (feedingRun stream steps)).any (fun w =>
      w.state.shared.receiveLoopStarted && w.state.threads.all (fun t => t.frames.isEmpty) &&
      w.taken == stream && w.state.shared.receiveBuffer.capacity == 16 &&
      w.state.shared.disconnectRequested == disconnected) = true) :
    ∃ w : Fed World Byte, (fedSession stream).Reach (undisturbed stream) w ∧
      Finished stream w ∧ w.state.shared.receiveBuffer.capacity = 16 ∧
      w.state.shared.disconnectRequested = disconnected := by
  obtain ⟨w, hrun, hat⟩ := System.exists_of_runUnder _ _ _ _ _ h
  simp only [Bool.and_eq_true, beq_iff_eq, List.all_eq_true, List.isEmpty_iff] at hat
  obtain ⟨⟨⟨⟨hstarted, hreturned⟩, htaken⟩, hcapacity⟩, hdisc⟩ := hat
  have hinit : (fedSession stream).Reach (undisturbed stream) ⟨World.fresh 16 16, []⟩ :=
    .init ⟨⟨⟨_, _, _, rfl, rfl, rfl⟩, rfl⟩, rfl⟩
  exact ⟨w, hinit.of_runUnder hrun, ⟨hstarted, hreturned, .inl htaken⟩, hcapacity, hdisc⟩

theorem Rio.Duplex.exists_fed (h : ((Rio.Duplex.fedSession stream).runUnder
    (fun w => Rio.Duplex.undisturbed w.state)
    ⟨Rio.Duplex.World.fresh 16 16 (by decide) (by decide), []⟩
    (Rio.Duplex.receivingRun stream steps)).any (fun w =>
      w.state.shared.receiveLoopStarted && w.state.threads.all (fun stack => stack.isEmpty) &&
      w.taken == stream && w.state.shared.receiveBuffer.capacity == 16 &&
      w.state.shared.isDisconnected == disconnected) = true) :
    ∃ w : Fed Rio.Duplex.World Byte,
      (Rio.Duplex.fedSession stream).Reach (fun w => Rio.Duplex.undisturbed w.state) w ∧
      Rio.Duplex.Finished stream w ∧ w.state.shared.receiveBuffer.capacity = 16 ∧
      w.state.shared.isDisconnected = disconnected := by
  obtain ⟨w, hrun, hat⟩ := System.exists_of_runUnder _ _ _ _ _ h
  simp only [Bool.and_eq_true, beq_iff_eq, List.all_eq_true, List.isEmpty_iff] at hat
  obtain ⟨⟨⟨⟨hstarted, hreturned⟩, htaken⟩, hcapacity⟩, hdisc⟩ := hat
  have hinit : (Rio.Duplex.fedSession stream).Reach (fun w => Rio.Duplex.undisturbed w.state)
      ⟨Rio.Duplex.World.fresh 16 16 (by decide) (by decide), []⟩ :=
    .init ⟨⟨⟨_, _, _, _, List.length_replicate, List.length_replicate, rfl⟩, rfl⟩, rfl⟩
  exact ⟨w, hinit.of_runUnder hrun, ⟨hstarted, hreturned, .inl htaken⟩, hcapacity, hdisc⟩

end

theorem agree_iff_sound_of_packet : ∃ (w : Fed World Byte) (w' : Fed Rio.Duplex.World Byte),
    Finished [0, 4, 0, 7] w ∧ Rio.Duplex.Finished [0, 4, 0, 7] w' ∧ Agree w w' := by
  obtain ⟨w, hw, hend, hcapacity, -⟩ :=
    exists_fed [0, 4, 0, 7] false 20 (by decide)
  obtain ⟨w', hw', hend', hcapacity', -⟩ :=
    Rio.Duplex.exists_fed [0, 4, 0, 7] false 9 (by decide)
  have hsound : Sound w.state.shared.receiveBuffer.capacity [0, 4, 0, 7] := by
    have hframe : (bounded 16).next [0, 4, 0, 7] = .frame 4 := by decide
    rw [hcapacity, Sound, Decoder.drain_of_frame hframe, List.drop_of_length_le (by decide),
      Decoder.drain_nil]
    decide
  exact ⟨w, w', hend, hend', (agree_iff_sound hw hw' hend hend'
    (hcapacity.trans hcapacity'.symm)).mpr hsound⟩

/-- A header that announces no bytes at all disconnects only the `IOSession`. -/
theorem not_agree : ¬ ∀ (stream : List Byte) (w : Fed World Byte)
    (w' : Fed Rio.Duplex.World Byte), (fedSession stream).Reach (undisturbed stream) w →
    (Rio.Duplex.fedSession stream).Reach (fun w => Rio.Duplex.undisturbed w.state) w' →
    Finished stream w → Rio.Duplex.Finished stream w' →
    w.state.shared.receiveBuffer.capacity = w'.state.shared.receiveBuffer.capacity →
    Agree w w' := by
  intro h
  obtain ⟨w, hw, hend, hcapacity, hdisc⟩ :=
    exists_fed [0, 0, 0, 0] true 16 (by decide)
  obtain ⟨w', hw', hend', hcapacity', hdisc'⟩ :=
    Rio.Duplex.exists_fed [0, 0, 0, 0] false 6 (by decide)
  have hverdict := (h _ w w' hw hw' hend hend' (hcapacity.trans hcapacity'.symm)).verdict
  rw [hdisc, hdisc'] at hverdict
  cases hverdict

end FastPort.Sessions
