import FastPort.Sessions.Accounting

/-! The receive side as a stream of packets: what `ReadReceivedBuffers` delivers
does not depend on how the stream was cut into arrivals. -/
namespace FastPort.Sessions

open FastPort.Commons FastPort.Core FastPort.Foundation.Circular FastPort.Foundation.Framing
open FastPort.Foundation.Pool FastPort.Foundation.Transition

/-- The frames of one thread, run with nobody else moving: one step for each
choice. -/
def alone : List Choice → Shared → List Frame → Shared × List Frame
  | [], s, fs => (s, fs)
  | _ :: _, s, [] => (s, [])
  | choice :: choices, s, f :: rest =>
      alone choices (f.exec choice s).1 ((f.exec choice s).2 ++ rest)

@[simp] theorem alone_nil (choices : List Choice) (s : Shared) : alone choices s [] = (s, []) := by
  cases choices <;> rfl

theorem alone_append (left right : List Choice) (s : Shared) (fs : List Frame) :
    alone (left ++ right) s fs = alone right (alone left s fs).1 (alone left s fs).2 := by
  induction left generalizing s fs with
  | nil => rfl
  | cons choice left ih =>
    cases fs with
    | nil => simp
    | cons f rest => exact ih _ _

theorem alone_disconnectRequested {choices : List Choice} {s : Shared} {fs : List Frame}
    (h : (alone choices s fs).1.disconnectRequested = false) : s.disconnectRequested = false := by
  induction choices generalizing s fs with
  | nil => exact h
  | cons choice choices ih =>
    cases fs with
    | nil => exact h
    | cons f rest => exact disconnectRequested_of_exec (ih h)

theorem reach_alone {w : World} (hw : system.Reach System.free w) {tid : Nat} {t : Thread}
    (hthread : w.threads[tid]? = some t) (choices : List Choice) :
    system.Reach System.free ⟨(alone choices w.shared t.frames).1,
      w.threads.set tid ⟨t.guard, (alone choices w.shared t.frames).2⟩⟩ := by
  have hsame : w.threads.set tid ⟨t.guard, t.frames⟩ = w.threads := by
    obtain ⟨hlt, hget⟩ := List.getElem?_eq_some_iff.mp hthread
    rw [← hget]
    exact List.set_getElem_self hlt
  induction choices generalizing w t with
  | nil =>
    rw [alone, hsame]
    exact hw
  | cons choice choices ih =>
    obtain ⟨guard, fs⟩ := t
    cases fs with
    | nil =>
      rw [alone_nil, hsame]
      exact hw
    | cons f rest =>
      have hlt := (List.getElem?_eq_some_iff.mp hthread).1
      have hstep : system.step w (.run tid choice) = some ⟨(f.exec choice w.shared).1,
          w.threads.set tid ⟨guard, (f.exec choice w.shared).2 ++ rest⟩⟩ := by
        simp [system, Machine.system, Machine.step, hthread, machine, Thread.run]
      have hnext := ih (hw.step trivial hstep)
        (t := ⟨guard, (f.exec choice w.shared).2 ++ rest⟩) (by simp [hlt]) (by simp)
      simpa [alone] using hnext

section

open PacketFramer

variable {s : Shared}

theorem checkHeader_content (h : getHeaderSize ≤ s.receiveBuffer.size) :
    s.receiveBuffer.peek getHeaderSize = some (s.receiveBuffer.content.take 2) ∧
      checkHeader s.receiveBuffer.size (s.receiveBuffer.content.take 2) =
        nextFrame s.receiveBuffer.content := by
  have hlen : s.receiveBuffer.content.length = s.receiveBuffer.size := RingBuffer.length_content
  have hcheck := checkHeader_take s.receiveBuffer.content (by rw [hlen]; exact h)
  rw [hlen] at hcheck
  refine ⟨?_, hcheck⟩
  rw [RingBuffer.peek_eq, if_neg (Nat.not_lt_of_le h)]
  rfl

theorem getHeaderSize_le_of_frame {n : Nat}
    (hnext : nextFrame s.receiveBuffer.content = .frame n) :
    getHeaderSize ≤ s.receiveBuffer.size := by
  by_contra hshort
  have hless : s.receiveBuffer.content.length < 2 := by
    rw [RingBuffer.length_content]
    exact Nat.lt_of_not_le hshort
  have hnone := nextFrame_short hless
  simp [hnext] at hnone

theorem alone_turn (hdisc : s.disconnectRequested = false) {n : Nat}
    (hnext : nextFrame s.receiveBuffer.content = .frame n) :
    ∃ s', alone (List.replicate 7 ⟨true, 0, none⟩) s [.readReceivedBuffers .checkDisconnect] =
        (s', [.readReceivedBuffers .checkDisconnect]) ∧
      s'.disconnectRequested = false ∧
      s'.receiveBuffer.content = s.receiveBuffer.content.drop n := by
  have hlong := getHeaderSize_le_of_frame hnext
  obtain ⟨hpeek, hcheck⟩ := checkHeader_content hlong
  have hle : n ≤ s.receiveBuffer.size :=
    RingBuffer.length_content (q := s.receiveBuffer) ▸ decoder.frame_le _ _ hnext
  cases hpop : s.receiveBuffer.pop n with
  | none => exact absurd (RingBuffer.pop_eq_none.mp hpop) (Nat.not_lt_of_le hle)
  | some popped =>
    obtain ⟨bytes, q⟩ := popped
    obtain ⟨-, rfl, hconsume⟩ := RingBuffer.pop_eq_some hpop
    refine ⟨{ s with
      receiveBuffer := q
      log := s.log ++ [.onPacketReceived (Packet.ofRaw (s.receiveBuffer.content.take n))] },
      ?_, hdisc, RingBuffer.content_consume hconsume⟩
    simp [alone, Frame.exec, readReceivedBuffers, hdisc, RingBuffer.canReadSize,
      Nat.not_lt_of_le hlong, hpeek, hcheck, hnext, hpop]

theorem exists_alone_stop (hdisc : s.disconnectRequested = false)
    (hnext : nextFrame s.receiveBuffer.content = .needMore) :
    ∃ choices, alone choices s [.readReceivedBuffers .checkDisconnect] = (s, []) := by
  refine ⟨List.replicate 3 ⟨true, 0, none⟩, ?_⟩
  by_cases hlong : getHeaderSize ≤ s.receiveBuffer.size
  · obtain ⟨hpeek, hcheck⟩ := checkHeader_content hlong
    simp [alone, Frame.exec, readReceivedBuffers, hdisc, RingBuffer.canReadSize,
      Nat.not_lt_of_le hlong, hpeek, hcheck, hnext]
  · simp [alone, Frame.exec, readReceivedBuffers, hdisc, RingBuffer.canReadSize,
      Nat.lt_of_not_le hlong]

theorem exists_alone_read (hdisc : s.disconnectRequested = false)
    (hvalid : nextFrame (decoder.drain s.receiveBuffer.content).2 = .needMore) :
    ∃ choices s', alone choices s [.readReceivedBuffers .checkDisconnect] = (s', []) ∧
      s'.disconnectRequested = false := by
  induction hlen : s.receiveBuffer.content.length using Nat.strongRecOn generalizing s with
  | _ len ih =>
    by_cases hframe : ∃ n, decoder.next s.receiveBuffer.content = .frame n
    · obtain ⟨n, hnext⟩ := hframe
      have hpos := decoder.frame_pos _ n hnext
      have hle := decoder.frame_le _ n hnext
      obtain ⟨s', hturn, hdisc', hcontent⟩ := alone_turn hdisc hnext
      rw [Decoder.drain_of_frame hnext, ← hcontent] at hvalid
      -- what the next turn sees is shorter
      obtain ⟨choices, s'', hrest, hdisc''⟩ := ih s'.receiveBuffer.content.length
        (by rw [hcontent, List.length_drop]; omega) hdisc' hvalid rfl
      refine ⟨List.replicate 7 ⟨true, 0, none⟩ ++ choices, s'', ?_, hdisc''⟩
      rw [alone_append, hturn]
      exact hrest
    · have hstop : ∀ n, decoder.next s.receiveBuffer.content ≠ .frame n :=
        fun n hn => hframe ⟨n, hn⟩
      rw [Decoder.drain_of_stop hstop] at hvalid
      obtain ⟨choices, hrun⟩ := exists_alone_stop hdisc hvalid
      exact ⟨choices, s, hrun, hdisc⟩

end

def Shared.stored (s : Shared) (chunk : List Byte) : Shared :=
  { s with
    receiveBuffer := s.receiveBuffer.fill (spanCells s.receiveBuffer.getWriteableBuffers.2) chunk }

/-- The handler of one chunk, from `CommitWrite` to the return of
`ReadReceivedBuffers`. User code may call what it likes; nobody else interferes,
and no disconnect is requested. Of the choices only the clock matters to the
commit. -/
def Received (s : Shared) (chunk : List Byte) (s' : Shared) : Prop :=
  chunk.length ≤ s.receiveBuffer.canWriteSize ∧ s'.disconnectRequested = false ∧
    ∃ (choice : Choice) (choices : List Choice) (s₁ : Shared),
      alone (List.replicate 4 choice) (s.stored chunk)
          [.handleRecvCompletion (.commitWrite chunk.length)] =
        (s₁, [.readReceivedBuffers .checkDisconnect, .handleRecvCompletion .rearm]) ∧
      alone choices s₁ [.readReceivedBuffers .checkDisconnect] = (s', [])

/-- Chunks that arrive one after the other. -/
inductive ReceivedAll (s : Shared) : List (List Byte) → Shared → Prop where
  | nil : ReceivedAll s [] s
  | snoc {chunks : List (List Byte)} {chunk : List Byte} {s₁ s₂ : Shared} :
      ReceivedAll s chunks s₁ → Received s₁ chunk s₂ → ReceivedAll s (chunks ++ [chunk]) s₂

def Frame.bystander : Frame → Bool
  | sendMessage _ _ | tryPostSendFromQueue _ | startReceiveLoop _ | requestReceived _ => true
  | requestRecv zeroByte _ => zeroByte
  | requestDisconnect .claim | callback _ => true
  | _ => false

theorem Frame.Steps.bystander {choice : Choice} {s s' : Shared} {f : Frame} {fs : List Frame}
    (h : f.Steps choice s s' fs) (hf : f.bystander = true)
    (hdisc' : s'.disconnectRequested = false) :
    (∀ g ∈ fs, g.bystander = true) ∧ s'.receiveBuffer = s.receiveBuffer ∧ s'.log = s.log ∧
      s'.totalRxBytes = s.totalRxBytes := by
  cases h
  all_goals simp_all [Frame.bystander]

def ReadReceivedPc.taken : ReadReceivedPc → List Packet
  | .checkPacket packet | .deliver packet => [packet]
  | _ => []

section

open PacketFramer

variable {s s₁ s₂ : Shared} {arrived chunk : List Byte} {choice : Choice}

/-- The loop on its way to `arrived` being drained: what it has delivered, the
packet in its hand and what the ring drains to make up the whole. -/
structure Reading (s : Shared) (arrived : List Byte) (pc : ReadReceivedPc) (s₁ : Shared) :
    Prop where
  residue : (decoder.drain s₁.receiveBuffer.content).2 = (decoder.drain arrived).2
  capacity : s₁.receiveBuffer.capacity = s.receiveBuffer.capacity
  log : s₁.log ++ (pc.taken ++ (decoder.drain s₁.receiveBuffer.content).1.map Packet.ofRaw).map
      Effect.onPacketReceived =
    s.log ++ ((decoder.drain arrived).1.map Packet.ofRaw).map Effect.onPacketReceived
  totalRxBytes : s₁.totalRxBytes = s.totalRxBytes + UInt64.ofNat arrived.length
  header : ∀ n, pc = .peek n → n = s₁.receiveBuffer.size ∧ getHeaderSize ≤ n
  frame : ∀ n, pc = .pop n → nextFrame s₁.receiveBuffer.content = .frame n

structure Delivered (s : Shared) (arrived : List Byte) (s₁ : Shared) : Prop where
  content : s₁.receiveBuffer.content = (decoder.drain arrived).2
  capacity : s₁.receiveBuffer.capacity = s.receiveBuffer.capacity
  log : s₁.log =
    s.log ++ ((decoder.drain arrived).1.map Packet.ofRaw).map Effect.onPacketReceived
  totalRxBytes : s₁.totalRxBytes = s.totalRxBytes + UInt64.ofNat arrived.length

theorem Reading.delivered {pc : ReadReceivedPc} (h : Reading s arrived pc s₁)
    (htaken : pc.taken = []) (hstop : ∀ n, nextFrame s₁.receiveBuffer.content ≠ .frame n) :
    Delivered s arrived s₁ := by
  have hdrain : decoder.drain s₁.receiveBuffer.content = ([], s₁.receiveBuffer.content) :=
    Decoder.drain_of_stop hstop
  have hresidue := h.residue
  have hlog := h.log
  rw [hdrain] at hresidue hlog
  refine ⟨hresidue, h.capacity, ?_, h.totalRxBytes⟩
  simpa [htaken] using hlog

/-- A run inside `ReadReceivedBuffers`: what user code has started stands above
the frame of the loop. -/
inductive InLoop (s : Shared) (arrived : List Byte) (s₁ : Shared) : List Frame → Prop where
  | reading (above : List Frame) {pc : ReadReceivedPc}
      (hbystanders : ∀ f ∈ above, f.bystander = true) (hreading : Reading s arrived pc s₁) :
      InLoop s arrived s₁ (above ++ [.readReceivedBuffers pc])
  | delivered {above : List Frame} (hbystanders : ∀ f ∈ above, f.bystander = true)
      (hdelivered : Delivered s arrived s₁) : InLoop s arrived s₁ above

theorem Reading.inLoop {pc : ReadReceivedPc} (h : Reading s arrived pc s₁) :
    InLoop s arrived s₁ [.readReceivedBuffers pc] :=
  .reading [] (by simp) h

theorem Reading.nextFrame_eq {canRead : Nat} (h : Reading s arrived (.peek canRead) s₁)
    {header : List Byte} (hpeek : s₁.receiveBuffer.peek getHeaderSize = some header) :
    checkHeader canRead header = nextFrame s₁.receiveBuffer.content := by
  obtain ⟨rfl, hlong⟩ := h.header canRead rfl
  obtain ⟨hcontent, hcheck⟩ := checkHeader_content hlong
  rw [hcontent] at hpeek
  cases hpeek
  exact hcheck

theorem Reading.step {pc : ReadReceivedPc} (h : Reading s arrived pc s₁) {fs : List Frame}
    (hstep : (Frame.readReceivedBuffers pc).Steps choice s₁ s₂ fs)
    (hdisc : s₂.disconnectRequested = false) : InLoop s arrived s₂ fs := by
  cases hstep with
  | readRefused hset => simp [hset] at hdisc
  | readAllowed =>
    exact Reading.inLoop
      ⟨h.residue, h.capacity, h.log, h.totalRxBytes, by simp, by simp⟩
  | headerMissing hshort =>
    refine .delivered (by simp) (h.delivered rfl fun n hn => ?_)
    exact Nat.not_lt_of_le (getHeaderSize_le_of_frame hn) hshort
  | headerReadable hlong =>
    refine Reading.inLoop
      ⟨h.residue, h.capacity, h.log, h.totalRxBytes, ?_, by simp⟩
    rintro n ⟨⟩
    exact ⟨rfl, hlong⟩
  | frameInvalid hinvalid =>
    obtain ⟨rfl, hlong⟩ := h.header _ rfl
    have hverdict := hinvalid _ (checkHeader_content hlong).1
    rw [(checkHeader_content hlong).2] at hverdict
    exact .delivered (by simp [Frame.bystander]) (h.delivered rfl (by simp [hverdict]))
  | frameIncomplete hpeek hheader =>
    rw [h.nextFrame_eq hpeek] at hheader
    exact .delivered (by simp) (h.delivered rfl (by simp [hheader]))
  | frameComplete hpeek hheader =>
    rw [h.nextFrame_eq hpeek] at hheader
    refine Reading.inLoop
      ⟨h.residue, h.capacity, h.log, h.totalRxBytes, by simp, ?_⟩
    rintro n ⟨⟩
    exact hheader
  | popFailed hpop =>
    have hle := decoder.frame_le _ _ (h.frame _ rfl)
    rw [RingBuffer.length_content] at hle
    exact absurd (RingBuffer.pop_eq_none.mp hpop) (Nat.not_lt_of_le hle)
  | popped hpop =>
    obtain ⟨-, rfl, hconsume⟩ := RingBuffer.pop_eq_some hpop
    have hdrain := Decoder.drain_of_frame (d := decoder) (h.frame _ rfl)
    have hresidue := h.residue
    have hlog := h.log
    rw [hdrain, ← RingBuffer.content_consume hconsume] at hresidue hlog
    have hcapacity := congrArg List.length (RingBuffer.consume_eq_some hconsume).2.1
    exact Reading.inLoop
      ⟨hresidue, hcapacity.trans h.capacity, hlog, h.totalRxBytes, by simp, by simp⟩
  | packetDropped hset => simp [hset] at hdisc
  | packetKept =>
    exact Reading.inLoop
      ⟨h.residue, h.capacity, h.log, h.totalRxBytes, by simp, by simp⟩
  | delivered =>
    refine .reading [.callback .onPacketReceived] (by simp [Frame.bystander])
      ⟨h.residue, h.capacity, ?_, h.totalRxBytes, by simp, by simp⟩
    rw [← h.log]
    simp [ReadReceivedPc.taken]

theorem Reading.congr {pc : ReadReceivedPc} (h : Reading s arrived pc s₁)
    (hbuffer : s₂.receiveBuffer = s₁.receiveBuffer) (hlog : s₂.log = s₁.log)
    (htotal : s₂.totalRxBytes = s₁.totalRxBytes) : Reading s arrived pc s₂ where
  residue := hbuffer ▸ h.residue
  capacity := hbuffer ▸ h.capacity
  log := by rw [hlog, hbuffer, h.log]
  totalRxBytes := htotal ▸ h.totalRxBytes
  header := hbuffer ▸ h.header
  frame := hbuffer ▸ h.frame

theorem Delivered.congr (h : Delivered s arrived s₁)
    (hbuffer : s₂.receiveBuffer = s₁.receiveBuffer) (hlog : s₂.log = s₁.log)
    (htotal : s₂.totalRxBytes = s₁.totalRxBytes) : Delivered s arrived s₂ where
  content := hbuffer ▸ h.content
  capacity := hbuffer ▸ h.capacity
  log := hlog ▸ h.log
  totalRxBytes := htotal ▸ h.totalRxBytes

theorem InLoop.step {f : Frame} {rest : List Frame} (h : InLoop s arrived s₁ (f :: rest))
    (hdisc : (f.exec choice s₁).1.disconnectRequested = false) :
    InLoop s arrived (f.exec choice s₁).1 ((f.exec choice s₁).2 ++ rest) := by
  have hstep := f.steps_exec choice s₁
  generalize hfs : f :: rest = fs at h
  cases h with
  | reading above hbystanders hreading =>
    cases above with
    | nil =>
      cases hfs
      rw [List.append_nil]
      exact hreading.step hstep hdisc
    | cons g above =>
      cases hfs
      rw [List.forall_mem_cons] at hbystanders
      obtain ⟨hnew, hbuffer, hlog, htotal⟩ := hstep.bystander hbystanders.1 hdisc
      rw [List.append_eq, ← List.append_assoc]
      exact .reading _ (List.forall_mem_append.mpr ⟨hnew, hbystanders.2⟩)
        (hreading.congr hbuffer hlog htotal)
  | delivered hbystanders hdelivered =>
    cases hfs
    rw [List.forall_mem_cons] at hbystanders
    obtain ⟨hnew, hbuffer, hlog, htotal⟩ := hstep.bystander hbystanders.1 hdisc
    exact .delivered (List.forall_mem_append.mpr ⟨hnew, hbystanders.2⟩)
      (hdelivered.congr hbuffer hlog htotal)

theorem InLoop.returned (h : InLoop s arrived s₁ []) : Delivered s arrived s₁ := by
  generalize hfs : [] = fs at h
  cases h with
  | reading => simp at hfs
  | delivered _ hdelivered => exact hdelivered

theorem InLoop.run {choices : List Choice} {fs : List Frame} (h : InLoop s arrived s₁ fs)
    (hrun : alone choices s₁ fs = (s₂, [])) (hdisc : s₂.disconnectRequested = false) :
    Delivered s arrived s₂ := by
  induction choices generalizing s₁ fs with
  | nil =>
    cases hrun
    exact h.returned
  | cons choice choices ih =>
    cases fs with
    | nil =>
      cases hrun
      exact h.returned
    | cons f rest =>
      have hnext : alone choices (f.exec choice s₁).1 ((f.exec choice s₁).2 ++ rest) = (s₂, []) :=
        hrun
      have hend := congrArg (fun r => r.1.disconnectRequested) hnext
      exact ih (h.step (alone_disconnectRequested (hend.trans hdisc))) hnext

theorem alone_commitWrite (hdisc : s.disconnectRequested = false)
    (hfits : chunk.length ≤ s.receiveBuffer.canWriteSize) (choice : Choice) :
    ∃ q, alone (List.replicate 4 choice) (s.stored chunk)
          [.handleRecvCompletion (.commitWrite chunk.length)] =
        ({ s with
            receiveBuffer := q
            lastRecvTimeMs := choice.nowMs
            totalRxBytes := s.totalRxBytes + UInt64.ofNat chunk.length },
          [.readReceivedBuffers .checkDisconnect, .handleRecvCompletion .rearm]) ∧
      q.content = s.receiveBuffer.content ++ chunk ∧ q.capacity = s.receiveBuffer.capacity := by
  obtain ⟨q, hq⟩ := RingBuffer.exists_commitWrite (q := (s.stored chunk).receiveBuffer)
    (n := chunk.length) (by
      simpa [Shared.stored, RingBuffer.canWriteSize] using hfits)
  refine ⟨q, ?_, ?_, ?_⟩
  · have hq' := hq
    simp only [Shared.stored] at hq'
    simp [alone, Frame.exec, handleRecvCompletion, Shared.stored, hq', hdisc]
  · refine RingBuffer.content_commitWrite_fill hfits ?_ hq
    rw [RingBuffer.spanCells_getWriteableBuffers, take_window _ _ hfits]
  · have hbuffer := (RingBuffer.commitWrite_eq_some.mp hq).2.1
    simp only [RingBuffer.capacity, hbuffer]
    exact RingBuffer.fill_capacity _ _

theorem Delivered.received (h : Delivered s arrived s₁) (hdisc : s₁.disconnectRequested = false)
    (hreceived : Received s₁ chunk s₂) : Delivered s (arrived ++ chunk) s₂ := by
  obtain ⟨hfits, hdisc₂, choice, choices, s', hcommit, hread⟩ := hreceived
  obtain ⟨q, hcommit', hcontent, hcapacity⟩ := alone_commitWrite hdisc hfits choice
  obtain rfl := congrArg Prod.fst (hcommit.symm.trans hcommit')
  have happend := decoder.drain_append arrived chunk
  rw [← h.content, ← hcontent] at happend
  refine InLoop.run (Reading.inLoop ⟨?_, ?_, ?_, ?_, by simp, by simp⟩)
    hread hdisc₂
  · rw [happend]
  · exact hcapacity.trans h.capacity
  · simp [h.log, happend, ReadReceivedPc.taken]
  · simp only [h.totalRxBytes, List.length_append, UInt64.ofNat_add, UInt64.add_assoc]

theorem Delivered.exists_received (h : Delivered s arrived s₁)
    (hdisc : s₁.disconnectRequested = false)
    (hvalid : nextFrame (decoder.drain (arrived ++ chunk)).2 = .needMore)
    (hfits : chunk.length ≤ s₁.receiveBuffer.canWriteSize) : ∃ s₂, Received s₁ chunk s₂ := by
  obtain ⟨q, hcommit, hcontent, -⟩ := alone_commitWrite hdisc hfits ⟨true, 0, none⟩
  rw [decoder.drain_append, ← h.content, ← hcontent] at hvalid
  obtain ⟨choices, s₂, hread, hdisc₂⟩ := exists_alone_read
    (s := { s₁ with
      receiveBuffer := q
      lastRecvTimeMs := 0
      totalRxBytes := s₁.totalRxBytes + UInt64.ofNat chunk.length }) hdisc hvalid
  exact ⟨s₂, hfits, hdisc₂, _, choices, _, hcommit, hread⟩

theorem Delivered.initial (hempty : s.receiveBuffer.size = 0) : Delivered s [] s where
  content := by
    rw [List.length_eq_zero_iff.mp ((RingBuffer.length_content).trans hempty), Decoder.drain_nil]
  capacity := rfl
  log := by
    rw [Decoder.drain_nil]
    exact (List.append_nil _).symm
  totalRxBytes := (UInt64.add_zero _).symm

end

section

open PacketFramer

variable {s s' : Shared}

/-- The packet that `Packet(packetId, payload)` makes of a message. -/
def Message.packet (m : Message) : Packet :=
  Packet.create m.packetId m.body

def wire (sent : List Message) : List Byte :=
  (sent.map fun m => m.packet.rawBinaries).flatten

theorem wire_take_succ {sent : List Message} {k : Nat} (hk : k < sent.length) :
    wire (sent.take (k + 1)) = wire (sent.take k) ++ sent[k].packet.rawBinaries := by
  rw [wire, List.take_succ_eq_append_getElem hk, List.map_append, List.flatten_append, wire]
  simp

/-- A stream of packets that breaks off drains to the packets that are complete. -/
theorem drain_prefix_wire {sent : List Message} {arrived : List Byte}
    (hsize : ∀ m ∈ sent, m.body.length ≤ 65531) (harrived : arrived <+: wire sent) :
    ∃ k, k ≤ sent.length ∧ (wire (sent.take k)).length ≤ arrived.length ∧
      (k < sent.length → arrived.length < (wire (sent.take (k + 1))).length) ∧
      decoder.drain arrived = ((sent.take k).map fun m => m.packet.rawBinaries,
        arrived.drop (wire (sent.take k)).length) ∧
      nextFrame (decoder.drain arrived).2 = .needMore := by
  have hframe : ∀ m ∈ sent,
      decoder.next m.packet.rawBinaries = .frame m.packet.rawBinaries.length :=
    fun m hm => nextFrame_makeRawBinaries m.packetId (by have := hsize m hm; omega)
  obtain ⟨k, tail, hk, hsplit, htail⟩ := exists_split_of_prefix harrived
  rw [List.length_map] at hk
  rw [← List.map_take] at hsplit
  have hneed : nextFrame tail = .needMore := by
    rcases htail with rfl | ⟨f, hf, ⟨rest, hrest⟩, hlt⟩
    · rfl
    · obtain ⟨m, hm, rfl⟩ := List.mem_map.mp (List.mem_of_getElem? hf)
      exact decoder.next_prefix (hframe m hm) hrest.symm hlt
  have hdrain : decoder.drain arrived =
      ((sent.take k).map fun m => m.packet.rawBinaries, tail) := by
    rw [hsplit]
    refine Decoder.drain_flatten_append ?_ hneed
    intro f hf
    obtain ⟨m, hm, rfl⟩ := List.mem_map.mp hf
    exact hframe m (List.mem_of_mem_take hm)
  have hlen : arrived.length = (wire (sent.take k)).length + tail.length := by
    rw [hsplit, List.length_append, wire]
  refine ⟨k, hk, by omega, ?_, ?_, by rw [hdrain]; exact hneed⟩
  · intro hlt
    rw [wire_take_succ hlt, List.length_append, hlen]
    have hpos : 0 < sent[k].packet.rawBinaries.length := by
      have := Packet.length_makeRawBinaries sent[k].packetId sent[k].body
      simp only [Message.packet, Packet.create]
      omega
    rcases htail with rfl | ⟨f, hf, -, hshort⟩
    · simpa using hpos
    · have hsame : f = sent[k].packet.rawBinaries := by
        rw [List.getElem?_map, List.getElem?_eq_getElem hlt] at hf
        exact (Option.some.inj hf).symm
      rw [← hsame]
      omega
  · rw [hdrain, hsplit]
    exact congrArg _ (List.drop_left' rfl).symm

/-- What a stream of packets has led to when `arrived` of it has come in: the
first `k` packets are complete and have been delivered. -/
structure Framed (s : Shared) (sent : List Message) (arrived : List Byte) (s' : Shared)
    (k : Nat) : Prop where
  le_length : k ≤ sent.length
  complete : (wire (sent.take k)).length ≤ arrived.length
  incomplete : k < sent.length → arrived.length < (wire (sent.take (k + 1))).length
  delivered : s'.log = s.log ++ (sent.take k).map fun m => .onPacketReceived m.packet
  residue : s'.receiveBuffer.content = arrived.drop (wire (sent.take k)).length
  totalRxBytes : s'.totalRxBytes = s.totalRxBytes +
    UInt64.ofNat ((wire (sent.take k)).length + s'.receiveBuffer.size)

theorem Delivered.framed {sent : List Message} {arrived : List Byte}
    (h : Delivered s arrived s') (hsize : ∀ m ∈ sent, m.body.length ≤ 65531)
    (harrived : arrived <+: wire sent) : ∃ k, Framed s sent arrived s' k := by
  obtain ⟨k, hk, hcomplete, hincomplete, hdrain, -⟩ := drain_prefix_wire hsize harrived
  have hresidue : s'.receiveBuffer.content = arrived.drop (wire (sent.take k)).length := by
    rw [h.content, hdrain]
  refine ⟨k, hk, hcomplete, hincomplete, ?_, hresidue, ?_⟩
  · rw [h.log, hdrain, List.map_map, List.map_map]
    congr 2
    funext m
    exact congrArg Effect.onPacketReceived (Packet.ofRaw_makeRawBinaries m.packetId m.body)
  · rw [h.totalRxBytes, ← RingBuffer.length_content, hresidue, List.length_drop]
    congr 2
    omega

theorem ReceivedAll.disconnectRequested {chunks : List (List Byte)} (h : ReceivedAll s chunks s')
    (hdisc : s.disconnectRequested = false) : s'.disconnectRequested = false := by
  cases h with
  | nil => exact hdisc
  | snoc _ hreceived => exact hreceived.2.1

theorem ReceivedAll.delivered {chunks : List (List Byte)} (h : ReceivedAll s chunks s')
    (hempty : s.receiveBuffer.size = 0) (hdisc : s.disconnectRequested = false) :
    Delivered s chunks.flatten s' := by
  induction h with
  | nil => exact .initial hempty
  | snoc hall hreceived ih =>
    rw [List.flatten_append, List.flatten_singleton]
    exact ih.received (hall.disconnectRequested hdisc) hreceived

theorem exists_receivedAll {sent : List Message} {chunks : List (List Byte)}
    (hsize : ∀ m ∈ sent, m.body.length ≤ 65531) (hempty : s.receiveBuffer.size = 0)
    (hdisc : s.disconnectRequested = false)
    (hroom : (wire sent).length ≤ s.receiveBuffer.capacity)
    (harrived : chunks.flatten <+: wire sent) : ∃ s', ReceivedAll s chunks s' := by
  induction chunks using List.reverseRecOn with
  | nil => exact ⟨s, .nil⟩
  | append_singleton chunks chunk ih =>
    rw [List.flatten_append, List.flatten_singleton] at harrived
    have hbefore : chunks.flatten <+: wire sent := (List.prefix_append _ _).trans harrived
    obtain ⟨s₁, hall⟩ := ih hbefore
    have hdelivered := hall.delivered hempty hdisc
    obtain ⟨k, hframed⟩ := hdelivered.framed hsize hbefore
    -- What is left in the ring is a part of what has arrived.
    have hfits : chunk.length ≤ s₁.receiveBuffer.canWriteSize := by
      have hresidue := congrArg List.length hframed.residue
      rw [RingBuffer.length_content, List.length_drop] at hresidue
      have hlength := harrived.length_le
      rw [List.length_append] at hlength
      have hcapacity := hdelivered.capacity
      have hring := RingBuffer.size_add_canWriteSize (q := s₁.receiveBuffer)
      omega
    obtain ⟨_, -, -, -, -, hneed⟩ := drain_prefix_wire hsize harrived
    obtain ⟨s₂, hreceived⟩ :=
      hdelivered.exists_received (hall.disconnectRequested hdisc) hneed hfits
    exact ⟨s₂, hall.snoc hreceived⟩

/-- However the stream is cut into chunks, the complete packets are delivered and
the rest is kept; every chunk that fits can be handled, and there is room for one
until the whole stream has arrived. -/
theorem framing_of_any_chunking {sent : List Message} {s s' : Shared}
    {chunks : List (List Byte)} (hsize : ∀ m ∈ sent, m.body.length ≤ 65531)
    (hcapacity : ∀ m ∈ sent, m.packet.rawBinaries.length ≤ s.receiveBuffer.capacity)
    (hempty : s.receiveBuffer.size = 0) (hdisc : s.disconnectRequested = false)
    (hreceived : ReceivedAll s chunks s') (harrived : chunks.flatten <+: wire sent) :
    (∃ k, Framed s sent chunks.flatten s' k) ∧
      (chunks.flatten ≠ wire sent → 0 < s'.receiveBuffer.canWriteSize) ∧
      ∀ chunk, chunk.length ≤ s'.receiveBuffer.canWriteSize →
        chunks.flatten ++ chunk <+: wire sent → ∃ s'', Received s' chunk s'' := by
  have hdelivered := hreceived.delivered hempty hdisc
  obtain ⟨k, hframed⟩ := hdelivered.framed hsize harrived
  refine ⟨⟨k, hframed⟩, fun hmore => ?_, fun chunk hfits hnext => ?_⟩
  · have hk : k < sent.length := by
      by_contra hall
      have hcomplete := hframed.complete
      rw [List.take_of_length_le (by omega)] at hcomplete
      exact hmore (harrived.eq_of_length_le hcomplete)
    have hcomplete := hframed.complete
    have hlt := hframed.incomplete hk
    rw [wire_take_succ hk, List.length_append] at hlt
    have hcap := hcapacity sent[k] (List.getElem_mem hk)
    have hresidue := congrArg List.length hframed.residue
    rw [RingBuffer.length_content, List.length_drop] at hresidue
    have hring := hdelivered.capacity
    have hroom := RingBuffer.size_add_canWriteSize (q := s'.receiveBuffer)
    omega
  · obtain ⟨_, -, -, -, -, hneed⟩ := drain_prefix_wire hsize hnext
    exact hdelivered.exists_received (hreceived.disconnectRequested hdisc) hneed hfits

/-- Three packets, the third cut off after its first byte; no chunk ends where a
packet does. -/
theorem framing_of_any_chunking_of_cutPackets :
    ∃ s', ReceivedAll (World.fresh 16 16).shared [[0], [5, 0, 1], [7, 0, 6], [0, 2, 8], [9, 0]] s' ∧
      Framed (World.fresh 16 16).shared [⟨1, [7]⟩, ⟨2, [8, 9]⟩, ⟨3, []⟩]
        [0, 5, 0, 1, 7, 0, 6, 0, 2, 8, 9, 0] s' 2 := by
  have hsize : ∀ m ∈ [(⟨1, [7]⟩ : Message), ⟨2, [8, 9]⟩, ⟨3, []⟩], m.body.length ≤ 65531 := by
    simp
  have hcapacity : ∀ m ∈ [(⟨1, [7]⟩ : Message), ⟨2, [8, 9]⟩, ⟨3, []⟩],
      m.packet.rawBinaries.length ≤ (World.fresh 16 16).shared.receiveBuffer.capacity := by
    decide
  have hcut : ([[0], [5, 0, 1], [7, 0, 6], [0, 2, 8], [9, 0]] : List (List Byte)).flatten <+:
      wire [⟨1, [7]⟩, ⟨2, [8, 9]⟩, ⟨3, []⟩] := by
    decide
  obtain ⟨s', hall⟩ :=
    exists_receivedAll (s := (World.fresh 16 16).shared) hsize rfl rfl (by decide) hcut
  obtain ⟨k, hframed⟩ := (framing_of_any_chunking hsize hcapacity rfl rfl hall hcut).1
  have hk := hframed.le_length
  have hcomplete := hframed.complete
  have hincomplete := hframed.incomplete
  obtain rfl : k = 2 := by
    revert hk hcomplete hincomplete
    rcases k with _ | _ | _ | _ | k
    · decide
    · decide
    · simp
    · decide
    · simp
  exact ⟨s', hall, hframed⟩

end

end FastPort.Sessions
