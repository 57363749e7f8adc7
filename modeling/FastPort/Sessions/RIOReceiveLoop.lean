import FastPort.Sessions.RIOSteps

/-! The receive loop of `RIOSession`. Its start makes one token, which is a receive in
the request queue or the frame that deals with what came in. The stages of the token
say where the bytes are that have arrived: behind the content of the ring, in it, or
in packets that were delivered. -/
namespace FastPort.Sessions.Rio.Duplex

open FastPort.Commons FastPort.Core FastPort.Foundation.Circular FastPort.Foundation.Framing
open FastPort.Foundation.Pool FastPort.Foundation.Stack FastPort.Foundation.Tally
open FastPort.Foundation.Transition FastPort.Foundation.Transition.System

def packets (log : List Effect) : List Packet :=
  log.filterMap fun effect =>
    match effect with
    | .onPacketReceived packet => some packet
    | _ => none

@[simp] theorem packets_append (log more : List Effect) :
    packets (log ++ more) = packets log ++ packets more :=
  List.filterMap_append

@[simp] theorem packets_replicate_rioSend (n : Nat) :
    packets (List.replicate n .rioSend) = [] := by
  rw [packets, List.filterMap_eq_nil_iff]
  intro effect heffect
  rw [List.eq_of_mem_replicate heffect]

theorem tally_sent {weight : Frame → Nat} (h : ∀ f, weight (.send f) = 0)
    (next : Option Rio.Frame) : tally weight (next.toList.map .send) = 0 := by
  cases next <;> simp [h]

/-- The frames of the receive path. One of them has the token while it is not with
the request queue. -/
def Frame.arm : Frame → Nat
  | send _ | startReceiveLoop | userCode => 0
  | _ => 1

variable {ok : World → Label → Prop} {w : World}
variable {choice : Choice} {s s' : Shared} {f : Frame} {fs : List Frame}

theorem Frame.Steps.arm (h : f.Steps choice s s' fs) :
    s'.rioReceives.length + s'.refusedReceives + tally Frame.arm fs +
        s.receiveLoopStarted.toNat ≤
      s.rioReceives.length + s.refusedReceives + f.arm + s'.receiveLoopStarted.toNat := by
  cases h with
  | sent =>
    rw [tally_sent fun _ => rfl]
    exact Nat.le_refl _
  | loopStarted hstarted => simp [hstarted, Frame.arm]
  | recvPosted =>
    simp only [Frame.arm, tally_nil, List.length_append, List.length_singleton]
    omega
  | recvFailed =>
    simp only [Frame.arm, tally_nil]
    omega
  | _ => simp [Frame.arm]

theorem Frame.Steps.unarmed (h : f.Steps choice s s' fs) (hf : f.arm = 0) :
    s'.rioReceives = s.rioReceives ∧ s'.refusedReceives = s.refusedReceives ∧
      s'.arrived = s.arrived ∧ s'.receiveBuffer = s.receiveBuffer ∧
      s'.recvSlice = s.recvSlice ∧ packets s'.log = packets s.log := by
  cases h with
  | announced => simp [packets]
  | sent => simp
  | stored | loopRunning | loopStarted | returned | calledSendMessage => simp
  | _ => cases hf

theorem Frame.Steps.capacity (h : f.Steps choice s s' fs) :
    s'.receiveBuffer.capacity = s.receiveBuffer.capacity ∧ s'.recvSlice = s.recvSlice := by
  cases h with
  | @committed n =>
    refine ⟨?_, rfl⟩
    cases hq : s.receiveBuffer.commitWrite n with
    | none => rfl
    | some q => exact congrArg List.length (RingBuffer.commitWrite_eq_some.mp hq).2.1
  | popped _ hconsume =>
    exact ⟨congrArg List.length (RingBuffer.consume_eq_some hconsume).2.1, rfl⟩
  | _ => exact ⟨rfl, rfl⟩

theorem receives_add_arm_le (hw : system.Reach ok w) :
    w.shared.rioReceives.length + w.shared.refusedReceives + w.weigh Frame.arm ≤
      w.shared.receiveLoopStarted.toNat := by
  refine Program.invariant (p := program) (I := fun w => w.shared.rioReceives.length +
    w.shared.refusedReceives + w.weigh Frame.arm ≤ w.shared.receiveLoopStarted.toNat)
    ?_ ?_ ?_ hw
  · rintro s ⟨recvSlice, sendSlice, recvMemory, sendMemory, -, -, rfl⟩
    exact Nat.zero_le _
  · intro w tid choice f rest _ ih _ hthread
    have hexec := (f.steps_exec choice w.shared).arm
    have hweigh := Stacks.weigh_exec Frame.arm hthread (f.exec choice w.shared).1
      (f.exec choice w.shared).2
    simp only [program] at ih ⊢
    omega
  · intro w event s' fs _ ih _ harrived
    rw [Stacks.weigh_spawn]
    cases Shared.arrived_of_arrive harrived with
    | startReceiveLoop => exact ih
    | send =>
      rw [tally_sent fun _ => rfl]
      exact ih
    | recvCompletion hpending _ =>
      obtain ⟨hlt, -⟩ := List.getElem?_eq_some_iff.mp hpending
      simp only [List.length_eraseIdx_of_lt hlt, tally_cons, tally_nil, Frame.arm]
      omega

theorem arm_le_one (hw : system.Reach ok w) : w.weigh Frame.arm ≤ 1 := by
  have htoken := receives_add_arm_le hw
  have hstarted : w.shared.receiveLoopStarted.toNat ≤ 1 := Bool.toNat_le _
  omega

theorem receives_eq_nil (hw : system.Reach ok w) {tid : Nat} {f : Frame} {rest : List Frame}
    (hthread : w.threads[tid]? = some (f :: rest)) (harm : 0 < f.arm) :
    w.shared.rioReceives = [] := by
  have htoken := receives_add_arm_le hw
  have hstarted : w.shared.receiveLoopStarted.toNat ≤ 1 := Bool.toNat_le _
  have hle : f.arm ≤ w.weigh Frame.arm := Stacks.weight_le_weigh hthread
  exact List.length_eq_zero_iff.mp (by omega)

section

open PacketFramer

structure Opens (s : Shared) (buf : RioBuf) : Prop where
  positive : 0 < buf.length
  room : buf.length ≤ s.receiveBuffer.canWriteSize
  cells : List.range' (buf.offset - s.recvSlice.offset) buf.length =
    window s.receiveBuffer.capacity (s.receiveBuffer.tail + s.receiveBuffer.size) buf.length

structure Delivered (s : Shared) (arrived : List Byte) : Prop where
  content : s.receiveBuffer.content = (decoder.drain arrived).2
  log : packets s.log = (decoder.drain arrived).1.map Packet.ofRaw

structure Arriving (s : Shared) (n : Nat) : Prop where
  le : n ≤ s.arrived.length
  room : n ≤ s.receiveBuffer.canWriteSize
  stored : gather s.receiveBuffer.buffer (window s.receiveBuffer.capacity
    (s.receiveBuffer.tail + s.receiveBuffer.size) n) = s.arrived.drop (s.arrived.length - n)
  delivered : Delivered s (s.arrived.take (s.arrived.length - n))

/-- The loop is on its way: `held` is what it has taken off the ring and not yet
delivered. -/
structure Reading (s : Shared) (held : List Packet) : Prop where
  residue : (decoder.drain s.receiveBuffer.content).2 = (decoder.drain s.arrived).2
  log : packets s.log ++ held ++
      (decoder.drain s.receiveBuffer.content).1.map Packet.ofRaw =
    (decoder.drain s.arrived).1.map Packet.ofRaw

def Stage (s : Shared) : Frame → Prop
  | .requestRecv | .rioReceive | .recvCompletion false _ => Delivered s s.arrived
  | .recvCompletion true n | .commitWrite n => Arriving s n
  | .addRxBytes _ | .readReceivedBuffers => Reading s []
  | .onPacketReceived packet => Reading s [packet]
  | _ => True

structure Idle (s : Shared) : Prop where
  delivered : Delivered s s.arrived
  opens : ∀ buf ∈ s.rioReceives, Opens s buf

theorem Delivered.congr {arrived : List Byte} (h : Delivered s arrived)
    (hbuffer : s'.receiveBuffer.content = s.receiveBuffer.content)
    (hlog : packets s'.log = packets s.log) : Delivered s' arrived where
  content := hbuffer.trans h.content
  log := hlog.trans h.log

theorem Idle.congr (h : Idle s) (hreceives : s'.rioReceives = s.rioReceives)
    (harrived : s'.arrived = s.arrived) (hbuffer : s'.receiveBuffer = s.receiveBuffer)
    (hslice : s'.recvSlice = s.recvSlice) (hlog : packets s'.log = packets s.log) : Idle s' where
  delivered := by
    rw [harrived]
    exact h.delivered.congr (congrArg RingBuffer.content hbuffer) hlog
  opens := by
    intro buf hbuf
    rw [hreceives] at hbuf
    have hopens := h.opens buf hbuf
    exact ⟨hopens.positive, hbuffer ▸ hopens.room, by rw [hslice, hbuffer, hopens.cells]⟩

/-- A step that touches neither the ring nor the packets leaves the stage alone. -/
theorem Stage.congr (h : Stage s f) (hbuffer : s'.receiveBuffer = s.receiveBuffer)
    (harrived : s'.arrived = s.arrived) (hlog : packets s'.log = packets s.log) :
    Stage s' f := by
  have hreading : ∀ held, Reading s held → Reading s' held := by
    intro held h
    constructor
    · rw [hbuffer, harrived, h.residue]
    · rw [hbuffer, harrived, hlog, h.log]
  have hdelivered : ∀ arrived, Delivered s arrived → Delivered s' arrived :=
    fun arrived h => h.congr (congrArg RingBuffer.content hbuffer) hlog
  have harriving : ∀ n, Arriving s n → Arriving s' n := by
    intro n h
    constructor
    · rw [harrived]
      exact h.le
    · rw [hbuffer]
      exact h.room
    · rw [hbuffer, harrived, h.stored]
    · rw [harrived]
      exact hdelivered _ h.delivered
  cases f with
  | recvCompletion success n =>
    cases success with
    | true => exact harriving n h
    | false =>
      simp only [Stage, harrived] at h ⊢
      exact hdelivered _ h
  | requestRecv | rioReceive =>
    simp only [Stage, harrived] at h ⊢
    exact hdelivered _ h
  | commitWrite n => exact harriving n h
  | addRxBytes n | readReceivedBuffers => exact hreading _ h
  | onPacketReceived packet => exact hreading _ h
  | _ => trivial

theorem opens_nextReceive (hcap : s.receiveBuffer.capacity = s.recvSlice.length)
    (hroom : s.receiveBuffer.canWriteSize ≠ 0) : Opens s s.nextReceive := by
  have hfits := s.recvSlice.fits
  have hsize := RingBuffer.size_add_canWriteSize (q := s.receiveBuffer)
  have hhead : s.receiveBuffer.head =
      (s.receiveBuffer.tail + s.receiveBuffer.size) % s.receiveBuffer.capacity :=
    s.receiveBuffer.head_eq
  have hlt : s.receiveBuffer.head < s.receiveBuffer.capacity := by
    rw [hhead]
    exact Nat.mod_lt _ (by omega)
  have hlength : min s.receiveBuffer.canWriteSize
      (s.receiveBuffer.capacity - s.receiveBuffer.head) % 2 ^ 32 =
      min s.receiveBuffer.canWriteSize (s.receiveBuffer.capacity - s.receiveBuffer.head) :=
    Nat.mod_eq_of_lt (by omega)
  have hoffset : (s.recvSlice.offset + s.receiveBuffer.head % 2 ^ 32) % 2 ^ 32 =
      s.recvSlice.offset + s.receiveBuffer.head := by
    rw [Nat.mod_eq_of_lt (show s.receiveBuffer.head < 2 ^ 32 by omega),
      Nat.mod_eq_of_lt (by omega)]
  rw [Shared.nextReceive, hlength, hoffset]
  refine ⟨by simp only; omega, by simp only; omega, ?_⟩
  dsimp only
  rw [Nat.add_sub_cancel_left, ← window_mod, ← hhead, window_eq_range'_of_fits (by omega)]

theorem Arriving.commit {n : Nat} (h : Arriving s n) :
    Reading { s with
      receiveBuffer := (s.receiveBuffer.commitWrite n).getD s.receiveBuffer } [] := by
  obtain ⟨q, hq⟩ := RingBuffer.exists_commitWrite h.room
  have hcontent := RingBuffer.content_commitWrite hq
  rw [h.stored, h.delivered.content] at hcontent
  have happend := decoder.drain_append (s.arrived.take (s.arrived.length - n))
    (s.arrived.drop (s.arrived.length - n))
  rw [List.take_append_drop, ← hcontent] at happend
  rw [hq, Option.getD_some]
  constructor
  · exact (congrArg Prod.snd happend).symm
  · rw [happend, List.map_append, List.append_nil, h.delivered.log]

theorem Reading.popped (h : Reading s []) {n : Nat} {q : ExternalCircleBufferQueue}
    (hnext : nextFrame s.receiveBuffer.content = .frame n)
    (hconsume : s.receiveBuffer.consume n = some q) :
    Reading { s with receiveBuffer := q }
      [Packet.ofRaw (s.receiveBuffer.content.take n)] := by
  have hresidue := h.residue
  have hlog := h.log
  rw [Decoder.drain_of_frame (d := decoder) hnext, ← RingBuffer.content_consume hconsume]
    at hresidue hlog
  exact ⟨hresidue, by simpa using hlog⟩

theorem Reading.done (h : Reading s [])
    (hstop : ∀ n, nextFrame s.receiveBuffer.content ≠ .frame n) : Delivered s s.arrived := by
  have hresidue := h.residue
  have hlog := h.log
  rw [Decoder.drain_of_stop (d := decoder) hstop] at hresidue hlog
  exact ⟨hresidue, by simpa using hlog⟩

theorem Stage.exec (h : Stage s f) (hstep : f.Steps choice s s' fs) (harm : 0 < f.arm)
    (hnone : s.rioReceives = []) (hcap : s.receiveBuffer.capacity = s.recvSlice.length) :
    Stacks.Settled Frame.arm Stage Idle s' fs := by
  have hidle : Delivered s s.arrived → Idle s := fun h => ⟨h, by simp [hnone]⟩
  cases hstep with
  | stored | announced | sent | loopRunning | loopStarted | returned | calledSendMessage =>
    cases harm
  | recvRefused => exact .of_idle (hidle h) rfl
  | recvAllowed => exact .cons h Nat.one_pos rfl
  | recvFull => exact .of_idle (hidle h) rfl
  | recvPosted hroom =>
    have hopens := opens_nextReceive hcap hroom
    refine .of_idle ⟨Delivered.congr h rfl (by simp [packets]), ?_⟩ rfl
    intro buf hbuf
    rw [hnone] at hbuf
    obtain rfl := List.mem_singleton.mp hbuf
    exact ⟨hopens.positive, hopens.room, hopens.cells⟩
  | recvFailed => exact .of_idle ⟨Delivered.congr h rfl rfl, by simp [hnone]⟩ rfl
  | @recvEnded success n hend =>
    refine .of_idle (hidle ?_) rfl
    cases success with
    | false => exact h
    | true =>
      obtain rfl : n = 0 := hend.resolve_left Bool.noConfusion
      have hdelivered := Arriving.delivered h
      rwa [Nat.sub_zero, List.take_length] at hdelivered
  | recvCompleted => exact .cons h Nat.one_pos rfl
  | committed => exact .cons (Arriving.commit h) Nat.one_pos rfl
  | addedRxBytes => exact .cons ⟨h.residue, h.log⟩ Nat.one_pos rfl
  | popped hnext hconsume => exact .cons (Reading.popped h hnext hconsume) Nat.one_pos rfl
  | frameMissing hstop => exact .cons (Reading.done h hstop) Nat.one_pos rfl
  | delivered =>
    refine .skip (.cons ⟨h.residue, ?_⟩ Nat.one_pos rfl) rfl
    simpa [packets] using h.log

theorem Idle.complete (h : Idle s) {buf : RioBuf} {index : Nat} {success : Bool}
    {data : List Byte} (hpending : s.rioReceives[index]? = some buf)
    (hlength : data.length ≤ buf.length) :
    Stacks.Settled Frame.arm Stage Idle { s with
      rioReceives := s.rioReceives.eraseIdx index
      receiveBuffer := s.receiveBuffer.fill
        (List.range' (buf.offset - s.recvSlice.offset) buf.length) data
      arrived := s.arrived ++ if success then data else [] }
      [.recvCompletion success data.length] := by
  have hopens := h.opens buf (List.mem_of_getElem? hpending)
  have hroom : data.length ≤ s.receiveBuffer.canWriteSize := hlength.trans hopens.room
  obtain ⟨hcontent, hstored⟩ := RingBuffer.fill_front
    (List.range' (buf.offset - s.recvSlice.offset) buf.length) hroom
    (by rw [hopens.cells, take_window _ _ hlength])
  refine .cons ?_ Nat.one_pos rfl
  cases success with
  | false =>
    simp only [Stage, Bool.false_eq_true, if_false, List.append_nil]
    exact h.delivered.congr hcontent rfl
  | true =>
    have hsplit : (s.arrived ++ data).length - data.length = s.arrived.length := by simp
    refine ⟨by simp, ?_, ?_, ?_⟩
    · simpa using hroom
    · simp only [if_true, hsplit, List.drop_left']
      simpa using hstored
    · simp only [if_true, hsplit, List.take_left']
      exact h.delivered.congr hcontent rfl

theorem Idle.exec (h : Idle s) (hstep : f.Steps choice s s' fs) (hf : f.arm = 0) :
    Stacks.Settled Frame.arm Stage Idle s' fs := by
  obtain ⟨hreceives, -, harrived, hbuffer, hslice, hlog⟩ := hstep.unarmed hf
  have hidle := h.congr hreceives harrived hbuffer hslice hlog
  cases hstep with
  | loopStarted => exact .cons hidle.delivered Nat.one_pos rfl
  | sent => exact .of_idle hidle (tally_sent (fun _ => rfl) _)
  | stored | announced | loopRunning | returned | calledSendMessage => exact .of_idle hidle rfl
  | _ => cases hf

end

theorem capacity_eq (hw : system.Reach ok w) :
    w.shared.receiveBuffer.capacity = w.shared.recvSlice.length := by
  refine Program.invariant (p := program) (I := fun w =>
    w.shared.receiveBuffer.capacity = w.shared.recvSlice.length) ?_ ?_ ?_ hw
  · rintro s ⟨recvSlice, sendSlice, recvMemory, sendMemory, hmemory, -, rfl⟩
    exact hmemory
  · intro w tid choice f rest _ ih _ _
    obtain ⟨hcapacity, hslice⟩ := (f.steps_exec choice w.shared).capacity
    simp only [program, hcapacity, hslice]
    exact ih
  · intro w event s' fs _ ih _ harrived
    cases Shared.arrived_of_arrive harrived with
    | recvCompletion => exact (RingBuffer.fill_capacity _ _).trans ih
    | _ => exact ih

theorem staged (hw : system.Reach ok w) : Stacks.Staged Frame.arm Stage Idle w := by
  refine Program.token (p := program) (fun h => arm_le_one h) ?_ ?_ ?_ ?_ hw
  · rintro s ⟨recvSlice, sendSlice, recvMemory, sendMemory, -, -, rfl⟩
    have hdrain : PacketFramer.decoder.drain [] = ([], []) := Decoder.drain_nil
    exact ⟨⟨(congrArg Prod.snd hdrain).symm, by simp [Shared.initial, packets, hdrain]⟩,
      by simp [Shared.initial]⟩
  · intro w tid choice f rest hreach _ hthread harm hstage
    exact hstage.exec (f.steps_exec choice w.shared) harm (receives_eq_nil hreach hthread harm)
      (capacity_eq hreach)
  · intro w tid choice f rest _ _ _ hzero
    have hstep := f.steps_exec choice w.shared
    obtain ⟨-, -, harrived, hbuffer, -, hlog⟩ := hstep.unarmed hzero
    exact ⟨fun g _ hstage => hstage.congr hbuffer harrived hlog,
      fun hidle => hidle.exec hstep hzero⟩
  · intro w event s' fs hreach _ harrived
    have htoken := receives_add_arm_le hreach
    have hstarted : w.shared.receiveLoopStarted.toNat ≤ 1 := Bool.toNat_le _
    cases Shared.arrived_of_arrive harrived with
    | startReceiveLoop =>
      exact ⟨fun _ g _ hg => hg, fun _ hidle => .of_idle hidle rfl⟩
    | send =>
      exact ⟨fun _ g _ hg => hg.congr rfl rfl rfl, fun _ hidle =>
        .of_idle (hidle.congr rfl rfl rfl rfl rfl) (tally_sent (fun _ => rfl) _)⟩
    | recvCompletion hpending hlength =>
      obtain ⟨hlt, -⟩ := List.getElem?_eq_some_iff.mp hpending
      exact ⟨fun hsome => by omega, fun _ hidle => hidle.complete hpending hlength⟩

/-- A frame that keeps the loop alive, or is about to declare the session over. -/
def Frame.due (f : Frame) : Nat := f.arm + f.closing

def Armed (s : Shared) (due : Nat) : Prop :=
  0 < s.rioReceives.length + s.refusedReceives + due ∨ s.receiveBuffer.canWriteSize = 0

theorem Frame.Steps.armed (h : f.Steps choice s s' fs) (hf : 0 < f.arm)
    (hdisc : s.isDisconnected = false) : Armed s' (tally Frame.due fs) := by
  unfold Armed
  cases h with
  | stored | announced | sent | loopRunning | loopStarted | returned | calledSendMessage =>
    cases hf
  | recvRefused hset => cases hdisc.symm.trans hset
  | recvFull hfull => exact .inr hfull
  | _ => simp [Frame.due, Frame.arm, Frame.closing]

theorem Frame.Steps.starts (h : f.Steps choice s s' fs) (hf : f.arm = 0)
    (hstarted' : s'.receiveLoopStarted = true) :
    s.receiveLoopStarted = true ∨ fs = [.requestRecv] := by
  cases h with
  | loopStarted => exact .inr rfl
  | stored | announced | sent | loopRunning | returned | calledSendMessage =>
    exact .inl hstarted'
  | _ => cases hf

theorem armed (hw : system.Reach ok w) (hstarted : w.shared.receiveLoopStarted = true)
    (hdisc : w.shared.isDisconnected = false) : Armed w.shared (w.weigh Frame.due) := by
  revert hstarted hdisc
  refine Program.invariant (p := program) (I := fun w =>
    w.shared.receiveLoopStarted = true → w.shared.isDisconnected = false →
      Armed w.shared (w.weigh Frame.due)) ?_ ?_ ?_ hw
  · rintro s ⟨recvSlice, sendSlice, recvMemory, sendMemory, -, -, rfl⟩ hstarted
    cases hstarted
  · intro w tid choice f rest hreach ih _ hthread hstarted hdisc
    have hweigh := Stacks.weigh_exec Frame.due hthread (f.exec choice w.shared).1
      (f.exec choice w.shared).2
    simp only [program] at hstarted hdisc ⊢
    have hstep := f.steps_exec choice w.shared
    have hopen : f.closing = 0 := by
      by_contra hclosing
      obtain rfl := Frame.closing_pos.mp (Nat.pos_of_ne_zero hclosing)
      cases hdisc
    rw [hstep.isDisconnected hopen] at hdisc
    have hle : f.due ≤ w.weigh Frame.due := Stacks.weight_le_weigh hthread
    rcases Nat.eq_zero_or_pos f.arm with hzero | hpos
    · obtain ⟨hreceives, hrefused, -, hbuffer, -, -⟩ := hstep.unarmed hzero
      have hdue : f.due = 0 := by
        unfold Frame.due
        omega
      unfold Armed at ih ⊢
      rw [hreceives, hrefused, hbuffer]
      rcases hstep.starts hzero hstarted with hbefore | hfs
      · have := ih hbefore hdisc
        omega
      · have hnext : tally Frame.due (f.exec choice w.shared).2 = 1 := by
          rw [hfs]
          rfl
        omega
    · have hexec := hstep.armed hpos hdisc
      unfold Armed at hexec ⊢
      omega
  · intro w event s' fs _ ih _ harrived hstarted hdisc
    rw [Stacks.weigh_spawn]
    unfold Armed at ih ⊢
    cases Shared.arrived_of_arrive harrived with
    | startReceiveLoop =>
      have := ih hstarted hdisc
      simp only
      omega
    | send hsent =>
      have := ih hstarted ((arrive_spec hsent).1 ▸ hdisc)
      simp only
      omega
    | recvCompletion =>
      left
      simp only [tally_cons, Frame.due, Frame.arm]
      omega

def Frame.handling (f : Frame) : Nat := f.arm + f.closing + f.announcing

/-- The session is over and has said so, or exactly one receive is posted. -/
def Listening (s : Shared) : Prop :=
  (s.isDisconnected = true ∧ 0 < s.disconnections) ∨ s.rioReceives.length = 1

instance (s : Shared) : Decidable (Listening s) :=
  inferInstanceAs (Decidable ((s.isDisconnected = true ∧ 0 < s.disconnections) ∨
    s.rioReceives.length = 1))

/-- The bytes of a stream behind its complete frames. -/
def residue (stream : List Byte) : List Byte := (PacketFramer.decoder.drain stream).2

/-- A receive that was handled is followed by the next one, unless the session is over,
exactly when no `RIOReceive` has failed and the bytes behind the complete frames of the
stream do not fill the slice. -/
theorem receive_loop_armed {w : World} (hw : system.Reach free w)
    (hstarted : w.shared.receiveLoopStarted = true) (hhandled : w.weigh Frame.handling = 0) :
    Listening w.shared ↔ w.shared.isDisconnected = true ∨
      (w.shared.refusedReceives = 0 ∧
        (residue w.shared.arrived).length < w.shared.recvSlice.length) := by
  have hnone : ∀ {v : Frame → Nat}, (∀ f, v f ≤ f.handling) → w.weigh v = 0 :=
    fun hle => Nat.le_zero.mp (hhandled ▸ Stacks.weigh_le_weigh hle w)
  have harm : w.weigh Frame.arm = 0 := hnone fun f => by unfold Frame.handling; omega
  have hdue : w.weigh Frame.due = 0 := hnone fun f => by
    unfold Frame.handling Frame.due
    omega
  have hannouncing : w.weigh Frame.announcing = 0 := hnone fun f => by
    unfold Frame.handling
    omega
  have htoken := receives_add_arm_le hw
  rw [hstarted, Bool.toNat_true] at htoken
  obtain ⟨hdelivered, hopens⟩ := (staged hw).idle harm
  have hsize : w.shared.receiveBuffer.size = (residue w.shared.arrived).length := by
    rw [← RingBuffer.length_content, hdelivered.content, residue]
  have hroom := RingBuffer.size_add_canWriteSize (q := w.shared.receiveBuffer)
  rw [capacity_eq hw] at hroom
  constructor
  · rintro (⟨hdisc, -⟩ | hone)
    · exact .inl hdisc
    · obtain ⟨buf, hbuf⟩ := List.length_eq_one_iff.mp hone
      have hopen := hopens buf (by simp [hbuf])
      have hpositive := hopen.positive
      have hfree := hopen.room
      exact .inr ⟨by omega, by omega⟩
  · rintro (hdisc | ⟨hrefused, hless⟩)
    · have hsaid := announced hw hdisc
      exact .inl ⟨hdisc, by omega⟩
    · cases hdisc : w.shared.isDisconnected with
      | true =>
        have hsaid := announced hw hdisc
        exact .inl ⟨hdisc, by omega⟩
      | false =>
        rcases armed hw hstarted hdisc with hsome | hfull
        · exact .inr (by omega)
        · omega

/-- The loop starts, and a receive completes with these bytes. -/
def receivingRun (data : List Byte) (steps : Nat) : List Label :=
  .spawn .startReceiveLoop :: List.replicate 3 (.run 0 ⟨true, none⟩) ++
    .spawn (.recvCompletion 0 true data) :: List.replicate steps (.run 1 ⟨true, none⟩)

theorem receive_loop_armed_of_frame :
    ∃ w : World, system.runUnder free (World.fresh 8 8 (by decide) (by decide))
        (receivingRun [0, 5, 0, 1, 9] 9) = some w ∧
      w.shared.log.length = 3 ∧ (w.shared.isDisconnected = true ∨
        (w.shared.refusedReceives = 0 ∧
          (residue w.shared.arrived).length < w.shared.recvSlice.length)) := by
  obtain ⟨w, hrun, hat⟩ := exists_of_runUnder system free
    (World.fresh 8 8 (by decide) (by decide)) (receivingRun [0, 5, 0, 1, 9] 9)
    (fun w => w.shared.receiveLoopStarted && w.weigh Frame.handling == 0 &&
      decide (Listening w.shared) && w.shared.log.length == 3) (by decide)
  simp only [Bool.and_eq_true, beq_iff_eq, decide_eq_true_eq] at hat
  obtain ⟨⟨⟨hstarted, hhandled⟩, hlistening⟩, hlog⟩ := hat
  have hreach : system.Reach free w := (World.reach_fresh _ _).of_runUnder hrun
  exact ⟨w, hrun, hlog, (receive_loop_armed hreach hstarted hhandled).mp hlistening⟩

/-- The first bytes of a frame that is longer than the slice fill it: nothing is posted
any more, and nothing says so. -/
theorem not_receive_loop_armed : ¬ ∀ w : World, system.Reach free w →
    w.shared.receiveLoopStarted = true → w.weigh Frame.handling = 0 → Listening w.shared := by
  intro h
  obtain ⟨w, hrun, hat⟩ := exists_of_runUnder system free
    (World.fresh 4 8 (by decide) (by decide)) (receivingRun [0, 5, 0, 1] 6)
    (fun w => w.shared.receiveLoopStarted && w.weigh Frame.handling == 0 &&
      !decide (Listening w.shared)) (by decide)
  simp only [Bool.and_eq_true, beq_iff_eq, Bool.not_eq_true', decide_eq_false_iff_not] at hat
  obtain ⟨⟨hstarted, hhandled⟩, hsilent⟩ := hat
  exact hsilent (h w ((World.reach_fresh _ _).of_runUnder hrun) hstarted hhandled)

end FastPort.Sessions.Rio.Duplex
