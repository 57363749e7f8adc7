import FastPort.Sessions.RIODuplex

/-! What one step of a frame of a `RIOSession` can do, as one relation; invariants are
proved by cases on it. The first of them say how the session ends. -/
namespace FastPort.Sessions.Rio.Duplex

open FastPort.Commons FastPort.Core FastPort.Core.PacketFramer FastPort.Foundation.Pool
open FastPort.Foundation.Stack FastPort.Foundation.Tally FastPort.Foundation.Transition

/-- A step of the send side stores the flag, calls `OnDisconnected`, or has nothing to
do with the end of the session. -/
theorem exec_cases (accepted : Bool) (s : Rio.Shared) (f : Rio.Frame) :
    f = .disconnect ∨ f = .onDisconnected ∨
      ((f.exec accepted s).1.isDisconnected = s.isDisconnected ∧
        (f.exec accepted s).1.disconnections = s.disconnections ∧
        (f.exec accepted s).2 ≠ some .onDisconnected) := by
  have htryPost : ∀ s : Rio.Shared,
      (tryPostSendFromQueue accepted s).isDisconnected = s.isDisconnected ∧
      (tryPostSendFromQueue accepted s).disconnections = s.disconnections := by
    intro s
    unfold tryPostSendFromQueue
    dsimp only
    split
    · exact ⟨rfl, rfl⟩
    · split
      · exact ⟨rfl, rfl⟩
      · split <;> exact ⟨rfl, rfl⟩
  cases f with
  | disconnect => exact .inl rfl
  | onDisconnected => exact .inr (.inl rfl)
  | flushPendingSendQueue =>
    refine .inr (.inr ⟨?_, ?_, by simp [Rio.Frame.exec]⟩)
    · exact (htryPost _).1
    · exact (htryPost _).2
  | enqueue m =>
    refine .inr (.inr ?_)
    simp only [Rio.Frame.exec, Rio.enqueue]
    split
    · split <;> simp
    · simp
  | checkDisconnected m =>
    refine .inr (.inr ⟨rfl, rfl, ?_⟩)
    simp only [Rio.Frame.exec]
    split <;> simp
  | checkPending m =>
    refine .inr (.inr ⟨rfl, rfl, ?_⟩)
    simp only [Rio.Frame.exec]
    split <;> simp
  | sendCompletion success n =>
    refine .inr (.inr ⟨rfl, rfl, ?_⟩)
    simp only [Rio.Frame.exec]
    split <;> simp
  | consume n => exact .inr (.inr ⟨rfl, rfl, by simp [Rio.Frame.exec]⟩)

/-- The range that `RequestRecv` posts: the front of the free room. -/
def Shared.nextReceive (s : Shared) : RioBuf :=
  ⟨(s.recvSlice.offset + s.receiveBuffer.head % 2 ^ 32) % 2 ^ 32,
    min s.receiveBuffer.canWriteSize (s.receiveBuffer.capacity - s.receiveBuffer.head) % 2 ^ 32⟩

theorem rioReceive_of_full (accepted : Bool) {s : Shared}
    (hfull : s.receiveBuffer.canWriteSize = 0) : rioReceive accepted s = s := by
  unfold rioReceive
  dsimp only
  rw [RingBuffer.getWriteableBuffers_fst, if_pos (.inl hfull)]

theorem rioReceive_of_room (accepted : Bool) {s : Shared}
    (hroom : s.receiveBuffer.canWriteSize ≠ 0) :
    rioReceive accepted s = if accepted then
        { s with rioReceives := s.rioReceives ++ [s.nextReceive], log := s.log ++ [.rioReceive] }
      else { s with refusedReceives := s.refusedReceives + 1 } := by
  have hsome : ¬ (s.receiveBuffer.canWriteSize = 0 ∨ s.receiveBuffer.getWriteableBuffers.2 = []) :=
    not_or.mpr ⟨hroom, fun hnil => hroom (RingBuffer.getWriteableBuffers_eq_nil hnil)⟩
  unfold rioReceive
  dsimp only
  rw [RingBuffer.getWriteableBuffers_fst, if_neg hsome, RingBuffer.headD_getWriteableBuffers hroom]
  rfl

theorem readReceivedBuffers_spec (s : Shared) :
    (∃ n q, nextFrame s.receiveBuffer.content = .frame n ∧ s.receiveBuffer.consume n = some q ∧
      readReceivedBuffers s = ({ s with receiveBuffer := q },
        [.onPacketReceived (Packet.ofRaw (s.receiveBuffer.content.take n))])) ∨
    ((∀ n, nextFrame s.receiveBuffer.content ≠ .frame n) ∧
      readReceivedBuffers s = (s, [.requestRecv])) := by
  have hspec := tryFrameFromBuffer_spec s.receiveBuffer
  cases hnext : nextFrame s.receiveBuffer.content with
  | frame n =>
    rw [hnext] at hspec
    obtain ⟨q, hconsume, hframe⟩ := hspec
    exact .inl ⟨n, q, rfl, hconsume, by simp [readReceivedBuffers, hframe]⟩
  | needMore =>
    rw [hnext] at hspec
    exact .inr ⟨by simp, by simp [readReceivedBuffers, hspec]⟩
  | invalid =>
    rw [hnext] at hspec
    exact .inr ⟨by simp, by simp [readReceivedBuffers, hspec]⟩

namespace Frame

inductive Steps (choice : Choice) (s : Shared) : Frame → Shared → List Frame → Prop where
  | stored :
      Steps choice s (.send .disconnect) { s with isDisconnected := true } [.send .onDisconnected]
  | announced :
      Steps choice s (.send .onDisconnected)
        { s with disconnections := s.disconnections + 1, log := s.log ++ [.onDisconnected] }
        [.userCode]
  | sent {f : Rio.Frame} {shared : Rio.Shared} {next : Option Rio.Frame}
      (hexec : f.exec choice.accepted s.toShared = (shared, next))
      (hstill : f ≠ .disconnect ∧ f ≠ .onDisconnected ∧ next ≠ some .onDisconnected)
      (hdisc : shared.isDisconnected = s.isDisconnected)
      (hcount : shared.disconnections = s.disconnections) :
      Steps choice s (.send f)
        { s with
          toShared := shared
          log := s.log ++ List.replicate (shared.rioSends.length - s.rioSends.length) .rioSend }
        (next.toList.map .send)
  | loopRunning (hstarted : s.receiveLoopStarted = true) : Steps choice s .startReceiveLoop s []
  | loopStarted (hstarted : s.receiveLoopStarted = false) :
      Steps choice s .startReceiveLoop { s with receiveLoopStarted := true } [.requestRecv]
  | recvRefused (hdisc : s.isDisconnected = true) : Steps choice s .requestRecv s []
  | recvAllowed (hdisc : s.isDisconnected = false) : Steps choice s .requestRecv s [.rioReceive]
  | recvFull (hfull : s.receiveBuffer.canWriteSize = 0) : Steps choice s .rioReceive s []
  | recvPosted (hroom : s.receiveBuffer.canWriteSize ≠ 0) (haccepted : choice.accepted = true) :
      Steps choice s .rioReceive
        { s with rioReceives := s.rioReceives ++ [s.nextReceive], log := s.log ++ [.rioReceive] }
        []
  | recvFailed (hroom : s.receiveBuffer.canWriteSize ≠ 0) (haccepted : choice.accepted = false) :
      Steps choice s .rioReceive { s with refusedReceives := s.refusedReceives + 1 } []
  | recvEnded {success : Bool} {n : Nat} (hend : success = false ∨ n = 0) :
      Steps choice s (.recvCompletion success n) s [.send .disconnect]
  | recvCompleted {n : Nat} (hn : n ≠ 0) :
      Steps choice s (.recvCompletion true n) s [.commitWrite n]
  | committed {n : Nat} :
      Steps choice s (.commitWrite n)
        { s with receiveBuffer := (s.receiveBuffer.commitWrite n).getD s.receiveBuffer }
        [.addRxBytes n]
  | addedRxBytes {n : Nat} :
      Steps choice s (.addRxBytes n) { s with totalRxBytes := s.totalRxBytes + UInt64.ofNat n }
        [.readReceivedBuffers]
  | popped {n : Nat} {q : ExternalCircleBufferQueue}
      (hnext : nextFrame s.receiveBuffer.content = .frame n)
      (hconsume : s.receiveBuffer.consume n = some q) :
      Steps choice s .readReceivedBuffers { s with receiveBuffer := q }
        [.onPacketReceived (Packet.ofRaw (s.receiveBuffer.content.take n))]
  | frameMissing (hstop : ∀ n, nextFrame s.receiveBuffer.content ≠ .frame n) :
      Steps choice s .readReceivedBuffers s [.requestRecv]
  | delivered {packet : Packet} :
      Steps choice s (.onPacketReceived packet)
        { s with log := s.log ++ [.onPacketReceived packet] } [.userCode, .readReceivedBuffers]
  | returned (hcall : choice.call = none) : Steps choice s .userCode s []
  | calledSendMessage {m : Message} (hcall : choice.call = some m) :
      Steps choice s .userCode s [.send (.checkDisconnected m), .userCode]

private theorem steps_send (choice : Choice) (s : Shared) (f : Rio.Frame) :
    (send f).Steps choice s (Duplex.send choice.accepted s f).1
      (Duplex.send choice.accepted s f).2 := by
  rcases exec_cases choice.accepted s.toShared f with rfl | rfl | ⟨hdisc, hcount, hnext⟩
  · simpa [Duplex.send, Rio.Frame.exec] using .stored
  · exact .announced
  · cases f with
    | disconnect => exact absurd rfl hnext
    | onDisconnected => exact absurd hcount (by simp [Rio.Frame.exec])
    | _ => exact .sent rfl ⟨by simp, by simp, hnext⟩ hdisc hcount

theorem steps_exec (choice : Choice) (s : Shared) (f : Frame) :
    f.Steps choice s (f.exec choice s).1 (f.exec choice s).2 := by
  cases f with
  | send f => exact steps_send choice s f
  | startReceiveLoop =>
    simp only [exec]
    split
    · rename_i hstarted
      exact .loopRunning hstarted
    · rename_i hstarted
      exact .loopStarted (by simpa using hstarted)
  | requestRecv =>
    simp only [exec]
    split
    · rename_i hdisc
      exact .recvRefused hdisc
    · rename_i hdisc
      exact .recvAllowed (by simpa using hdisc)
  | rioReceive =>
    simp only [exec]
    by_cases hfull : s.receiveBuffer.canWriteSize = 0
    · rw [rioReceive_of_full _ hfull]
      exact .recvFull hfull
    · rw [rioReceive_of_room _ hfull]
      split
      · rename_i haccepted
        exact .recvPosted hfull haccepted
      · rename_i haccepted
        exact .recvFailed hfull (by simpa using haccepted)
  | recvCompletion success n =>
    simp only [exec]
    split
    · rename_i hend
      exact .recvEnded (by simpa using hend)
    · rename_i hgoes
      obtain ⟨rfl, hn⟩ : success = true ∧ n ≠ 0 := by simpa using hgoes
      exact .recvCompleted hn
  | commitWrite n => exact .committed
  | addRxBytes n => exact .addedRxBytes
  | readReceivedBuffers =>
    simp only [exec]
    rcases readReceivedBuffers_spec s with ⟨n, q, hnext, hconsume, heq⟩ | ⟨hstop, heq⟩
    · rw [heq]
      exact .popped hnext hconsume
    · rw [heq]
      exact .frameMissing hstop
  | onPacketReceived packet => exact .delivered
  | userCode =>
    simp only [exec]
    split
    · rename_i hcall
      exact .returned hcall
    · rename_i hcall
      exact .calledSendMessage hcall

def closing : Frame → Nat
  | send .disconnect => 1
  | _ => 0

/-- The call of `OnDisconnected`. -/
def announcing : Frame → Nat
  | send .onDisconnected => 1
  | _ => 0

theorem closing_pos {f : Frame} : 0 < f.closing ↔ f = .send .disconnect := by
  unfold closing
  split <;> simp_all

theorem announcing_pos {f : Frame} : 0 < f.announcing ↔ f = .send .onDisconnected := by
  unfold announcing
  split <;> simp_all

variable {choice : Choice} {s s' : Shared} {f : Frame} {fs : List Frame}

theorem Steps.isDisconnected (h : f.Steps choice s s' fs) (hf : f.closing = 0) :
    s'.isDisconnected = s.isDisconnected := by
  cases h with
  | stored => cases hf
  | sent _ _ hdisc _ => exact hdisc
  | _ => rfl

theorem Steps.announcing (h : f.Steps choice s s' fs) :
    s'.disconnections = s.disconnections + f.announcing ∧ tally announcing fs = f.closing := by
  cases h with
  | @sent f shared next hexec hstill _ hcount =>
    have hclosing : closing (.send f) = 0 := by
      simpa using mt closing_pos.mp (by simp [hstill.1])
    have hannouncing : announcing (.send f) = 0 := by
      simpa using mt announcing_pos.mp (by simp [hstill.2.1])
    rw [hannouncing, hclosing]
    refine ⟨hcount, tally_eq_zero.mpr ?_⟩
    intro g hg
    obtain ⟨f', hf', rfl⟩ := List.mem_map.mp hg
    rw [Option.mem_toList] at hf'
    apply Nat.eq_zero_of_not_pos
    intro hpos
    have := announcing_pos.mp hpos
    simp_all
  | _ => exact ⟨rfl, rfl⟩

end Frame

theorem arrive_spec {s s' : Rio.Shared} {event : Rio.Event} {t : Option Rio.Frame}
    (h : s.arrive event = some (s', t)) :
    s'.isDisconnected = s.isDisconnected ∧ s'.disconnections = s.disconnections ∧
      s'.rioSends.length ≤ s.rioSends.length ∧
      tally Frame.announcing (t.toList.map .send) = 0 := by
  cases event with
  | sendMessage m =>
    cases h
    exact ⟨rfl, rfl, Nat.le_refl _, rfl⟩
  | receiveFailed =>
    cases h
    exact ⟨rfl, rfl, Nat.le_refl _, rfl⟩
  | sendCompletion index success n =>
    simp only [Rio.Shared.arrive] at h
    split at h
    · cases h
    · split at h
      · cases h
        refine ⟨rfl, rfl, ?_, rfl⟩
        simp only [List.length_eraseIdx]
        split <;> omega
      · cases h

variable {ok : World → Label → Prop} {w : World}

theorem announced (hw : system.Reach ok w) (hdisc : w.shared.isDisconnected = true) :
    0 < w.shared.disconnections + w.weigh Frame.announcing := by
  revert hdisc
  refine Program.invariant (p := program) (I := fun w => w.shared.isDisconnected = true →
    0 < w.shared.disconnections + w.weigh Frame.announcing) ?_ ?_ ?_ hw
  · rintro s ⟨recvSlice, sendSlice, recvMemory, sendMemory, -, -, rfl⟩ hdisc
    cases hdisc
  · intro w tid choice f rest _ ih _ hthread hdisc
    have hstep := f.steps_exec choice w.shared
    obtain ⟨hcount, hfs⟩ := hstep.announcing
    have hweigh := Stacks.weigh_exec Frame.announcing hthread (f.exec choice w.shared).1
      (f.exec choice w.shared).2
    simp only [program] at hdisc ⊢
    rcases Nat.eq_zero_or_pos f.closing with hzero | hpos
    · rw [hstep.isDisconnected hzero] at hdisc
      have := ih hdisc
      omega
    · have hnone : f.announcing = 0 := by
        rw [Frame.closing_pos.mp hpos]
        rfl
      omega
  · intro w event s' fs _ ih _ harrived hdisc
    rw [Stacks.weigh_spawn]
    cases Shared.arrived_of_arrive harrived with
    | send hsent =>
      obtain ⟨hsame, hcount, -, -⟩ := arrive_spec hsent
      have := ih (hsame.symm.trans hdisc)
      simp only [hcount]
      omega
    | _ =>
      have := ih hdisc
      simp only
      omega

end FastPort.Sessions.Rio.Duplex
