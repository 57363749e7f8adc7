import FastPort.Sessions.Receive
import FastPort.Sessions.RIOStream

/-! The three encoders put the same bytes on the wire, and the framer takes them
off again as one packet exactly when the size field can hold their number. -/
namespace FastPort.Sessions

open FastPort.Commons FastPort.Core FastPort.Core.PacketFramer FastPort.Foundation.Circular

def Rio.Shared.outgoing (s : Rio.Shared) : List Byte :=
  s.sendBuffer.content ++ Rio.remainders s.pendingSendQueue

/-- The bytes that an accepted message adds to what is to be sent, by each of the
three encoders. -/
inductive Emits (m : Message) : List Byte → Prop where
  | ioSession (choice : Choice) (s : Shared)
      (haccepted : m.totalSize ≤ s.sendBuffer.canWriteSize) :
      Emits m ((alone (List.replicate 4 choice) s
        [.sendMessage m .allocateWrite]).1.sendBuffer.content.drop s.sendBuffer.size)
  | rioSession (s : Rio.Shared) :
      Emits m ((Rio.enqueue m s).outgoing.drop s.outgoing.length)
  | packet : Emits m (Packet.create m.packetId m.body).rawBinaries

theorem content_allocateWrite_fill {q q' : RingBuffer} {data : List Byte} {spans : List Span}
    (h : q.allocateWrite data.length = some (spans, q')) :
    (q'.fill (spanCells spans) data).content = q.content ++ data := by
  obtain ⟨hfit, hcells, hbuffer, htail, hsize⟩ := RingBuffer.allocateWrite_eq_some h
  have hcommit : (q.fill (spanCells spans) data).commitWrite data.length =
      some (q'.fill (spanCells spans) data) := by
    refine RingBuffer.commitWrite_eq_some.mpr ⟨?_, ?_, htail, hsize⟩
    · simpa [RingBuffer.canWriteSize] using hfit
    · rw [RingBuffer.fill_buffer, RingBuffer.fill_buffer, hbuffer]
  refine RingBuffer.content_commitWrite_fill hfit ?_ hcommit
  rw [hcells, take_window _ _ le_rfl]

theorem sendMessage_alone (choice : Choice) (s : Shared) (m : Message)
    (haccepted : m.totalSize ≤ s.sendBuffer.canWriteSize) :
    ∃ s', alone (List.replicate 4 choice) s [.sendMessage m .allocateWrite] =
        (s', [.tryPostSendFromQueue .checkDisconnect]) ∧
      s'.sendBuffer.content = s.sendBuffer.content ++ m.encode := by
  obtain ⟨⟨buffers, q⟩, hroom⟩ : ∃ r, s.sendBuffer.allocateWrite m.totalSize = some r := by
    apply Option.ne_none_iff_exists'.mp
    intro hnone
    exact absurd (RingBuffer.allocateWrite_eq_none.mp hnone) (Nat.not_lt_of_le haccepted)
  have hlen : (spanCells buffers).length = m.totalSize := by
    rw [(RingBuffer.allocateWrite_eq_some hroom).2.1, length_window]
  refine ⟨{ s with sendBuffer := writeMessage q buffers m, accepted := s.accepted ++ [m] }, ?_, ?_⟩
  · simp [alone, Frame.exec, sendMessage, hroom, writeMessage]
  · simp only [writeMessage_spec q hlen]
    exact content_allocateWrite_fill (by rw [Message.length_encode]; exact hroom)

theorem Rio.outgoing_enqueue (s : Rio.Shared) (m : Message) :
    (Rio.enqueue m s).outgoing = s.outgoing ++ m.encode := by
  have hqueued : s.sendBuffer.content ++
      Rio.remainders (s.pendingSendQueue ++ [⟨Rio.packetData m, 0⟩]) =
        s.outgoing ++ m.encode := by
    simp [Rio.Shared.outgoing, Rio.packetData, Message.encode]
  unfold Rio.enqueue
  dsimp only
  split
  · rename_i hdirect
    simp only [Bool.and_eq_true, List.isEmpty_iff] at hdirect
    split
    · rename_i hwrite
      simp only [Rio.Shared.outgoing, RingBuffer.content_write hwrite, hdirect.1,
        Rio.remainders_nil, List.append_nil]
      rfl
    · exact hqueued
  · exact hqueued

theorem Emits.eq_encode {m : Message} {bytes : List Byte} (h : Emits m bytes) :
    bytes = m.encode := by
  cases h with
  | ioSession choice s haccepted =>
    obtain ⟨s', hrun, hcontent⟩ := sendMessage_alone choice s m haccepted
    rw [hrun, hcontent, ← RingBuffer.length_content, List.drop_left]
  | rioSession s => rw [Rio.outgoing_enqueue, List.drop_left]
  | packet => exact (m.encode_eq).symm

/-- The framer takes the message off a ring first, and leaves just what follows. -/
def FramedFirst (q : RingBuffer) (m : Message) (more : List Byte) : Prop :=
  ∃ packet q', tryFrameFromBuffer q = (⟨.ok, some packet⟩, q') ∧
    packet.getPacketId = m.packetId ∧ packet.payload = m.body ∧ q'.content = more

theorem nextFrame_le {xs : List Byte} {n : Nat} (h : nextFrame xs = .frame n) : n ≤ 0xFFFF := by
  unfold nextFrame at h
  split at h
  · rename_i high low rest
    have hle := bigEndian_le high low
    grind
  · cases h

theorem framedFirst_iff {q : RingBuffer} {m : Message} {more : List Byte}
    (hq : q.content = m.encode ++ more) : FramedFirst q m more ↔ 4 + m.body.length ≤ 0xFFFF := by
  have hsize : m.encode.length = 4 + m.body.length := m.length_encode
  have hspec := tryFrameFromBuffer_spec q
  constructor
  · rintro ⟨packet, q', hframe, -, -, hrest⟩
    cases hnext : nextFrame q.content with
    | needMore =>
      rw [hnext] at hspec
      simp [hspec] at hframe
    | invalid =>
      rw [hnext] at hspec
      simp [hspec] at hframe
    | frame n =>
      rw [hnext] at hspec
      obtain ⟨q'', hconsume, hframe'⟩ := hspec
      obtain rfl : q' = q'' := congrArg Prod.snd (hframe.symm.trans hframe')
      -- the rest of the content is what follows the message, so the frame is the message
      have hlen := congrArg List.length (RingBuffer.content_consume hconsume)
      have hle := decoder.frame_le _ n hnext
      rw [hrest, List.length_drop] at hlen
      rw [hq, List.length_append] at hlen hle
      have hmax := nextFrame_le hnext
      omega
  · intro hfits
    have hwhole : decoder.next m.encode = .frame m.encode.length := by
      rw [m.encode_eq]
      exact nextFrame_makeRawBinaries m.packetId (by omega)
    have hnext : nextFrame q.content = .frame m.encode.length := by
      rw [hq]
      exact Foundation.Framing.Decoder.next_append hwhole more
    rw [hnext] at hspec
    obtain ⟨q', hconsume, hframe⟩ := hspec
    rw [hq, List.take_left, m.encode_eq, Packet.ofRaw_makeRawBinaries] at hframe
    refine ⟨_, q', hframe, Packet.getPacketId_create _ _, rfl, ?_⟩
    rw [RingBuffer.content_consume hconsume, hq, List.drop_left]

/-- An accepted message is self-delimiting on the wire, by whichever encoder,
exactly if its size fits the size field. -/
theorem self_delimiting_iff {m : Message} {bytes more : List Byte} {q : RingBuffer}
    (hemits : Emits m bytes) (hq : q.content = bytes ++ more) :
    FramedFirst q m more ↔ 4 + m.body.length ≤ 0xFFFF :=
  framedFirst_iff (hemits.eq_encode ▸ hq)

theorem exists_content (bytes : List Byte) : ∃ q : RingBuffer, q.content = bytes := by
  cases hwrite : (ExternalCircleBufferQueue.create bytes).write bytes with
  | none =>
    have hfull := RingBuffer.write_eq_none.mp hwrite
    simp [RingBuffer.canWriteSize, RingBuffer.capacity, ExternalCircleBufferQueue.create] at hfull
  | some q => exact ⟨q, by rw [RingBuffer.content_write hwrite]; rfl⟩

theorem self_delimiting_iff_of_packet :
    ∃ q : RingBuffer, q.content = (Packet.create 1 [7]).rawBinaries ++ [9] ∧
      FramedFirst q ⟨1, [7]⟩ [9] := by
  have hemits : Emits ⟨1, [7]⟩ (Packet.create 1 [7]).rawBinaries := .packet
  obtain ⟨q, hq⟩ := exists_content ((Packet.create 1 [7]).rawBinaries ++ [9])
  have hfits : 4 + [(7 : Byte)].length ≤ 0xFFFF := by decide
  exact ⟨q, hq, (self_delimiting_iff hemits hq).mpr hfits⟩

/-- The smallest body that is too long has 65532 bytes: its header reads 0. -/
theorem not_self_delimiting :
    ¬ ∀ (m : Message) (bytes more : List Byte) (q : RingBuffer), Emits m bytes →
      q.content = bytes ++ more → FramedFirst q m more := by
  intro hclaim
  have hfits : ∀ body : List Byte, 4 + body.length ≤ 0xFFFF := by
    intro body
    have hemits : Emits ⟨1, body⟩ (Packet.create 1 body).rawBinaries := .packet
    obtain ⟨q, hq⟩ := exists_content ((Packet.create 1 body).rawBinaries ++ [])
    have hframed := hclaim _ _ [] q hemits hq
    rw [hemits.eq_encode] at hq
    exact (framedFirst_iff hq).mp hframed
  have hbody := hfits (List.replicate 65532 0)
  rw [List.length_replicate] at hbody
  omega

end FastPort.Sessions
