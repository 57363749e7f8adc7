import FastPort.Core.PacketFramer

/-! The frame grammar in offsets: where a frame's size, its packet id and its payload
stand among the bytes of a ring, what `TryFrameFromBuffer` answers for each of them,
and the loop that repeats the call. -/
namespace FastPort.Core

open FastPort.Commons FastPort.Foundation.Framing

def fieldAt (data : List Byte) (offset : Nat) : Nat :=
  bigEndian (data.getD offset 0) (data.getD (offset + 1) 0)

/-- The total size a frame announces in its first two bytes. -/
def sizeField (data : List Byte) : Nat := fieldAt data 0

theorem sizeField_take {data : List Byte} {n : Nat} (h : 2 ≤ n) :
    sizeField (data.take n) = sizeField data := by
  simp only [sizeField, fieldAt, List.getD_eq_getElem?_getD]
  rw [List.getElem?_take_of_lt (by omega), List.getElem?_take_of_lt (by omega)]

theorem bigEndian_inj {high low high' low' : Byte} (h : bigEndian high low = bigEndian high' low') :
    high = high' ∧ low = low' := by
  have hlow := low.toNat_lt
  have hlow' := low'.toNat_lt
  unfold bigEndian at h
  constructor
  · apply UInt8.toNat_inj.mp
    omega
  · apply UInt8.toNat_inj.mp
    omega

theorem memoryBytes_htons_of_bigEndian {value : UInt16} {high low : Byte}
    (h : value.toNat = bigEndian high low) : memoryBytes (htons value) = [high, low] := by
  obtain ⟨high', low', hbytes, hvalue⟩ := memoryBytes_htons value
  rw [← hvalue, toNat_ntohs_fromMemory] at h
  obtain ⟨rfl, rfl⟩ := bigEndian_inj h
  exact hbytes

theorem exists_fields {raw : List Byte} (h : 4 ≤ raw.length) :
    ∃ high low idHigh idLow rest, raw = high :: low :: idHigh :: idLow :: rest := by
  match raw with
  | high :: low :: idHigh :: idLow :: rest => exact ⟨high, low, idHigh, idLow, rest, rfl⟩

namespace Packet

/-- What the raw constructor makes of a frame: `GetPacketId` is the big-endian number
at offset 2, the payload is what stands from offset 4 on, and the two subtractions of
the payload's size stay above zero. -/
structure Reads (packet : Packet) (raw : List Byte) : Prop where
  rawBinaries : packet.rawBinaries = raw
  header_le : getHeaderSize + getPacketIdSize ≤ raw.length
  packetId : packet.getPacketId.toNat = fieldAt raw 2
  payload : packet.payload = raw.drop 4
  payload_length : packet.payload.length = raw.length - getHeaderSize - getPacketIdSize

theorem reads_ofRaw {raw : List Byte} (h : 4 ≤ raw.length) : (ofRaw raw).Reads raw := by
  obtain ⟨high, low, idHigh, idLow, rest, rfl⟩ := exists_fields h
  constructor
  · rfl
  · exact h
  · have hlong : ¬ (high :: low :: idHigh :: idLow :: rest).length < getHeaderSize + 2 := by
      simp [getHeaderSize]
    rw [getPacketId, ofRaw, getPacketIdFromBuffer, if_neg hlong]
    exact toNat_ntohs_fromMemory idHigh idLow
  · rfl
  · simp [ofRaw, getHeaderSize, getPacketIdSize]

theorem makeRawBinaries_of_reads {packet : Packet} {raw : List Byte} (h : packet.Reads raw)
    (hsize : sizeField raw = raw.length) :
    makeRawBinaries packet.getPacketId packet.payload = raw := by
  obtain ⟨high, low, idHigh, idLow, rest, rfl⟩ := exists_fields h.header_le
  have hid : packet.getPacketId.toNat = bigEndian idHigh idLow := h.packetId
  have hpayload : packet.payload = rest := h.payload
  have htotal : bigEndian high low = rest.length + 4 := hsize
  have hword : (UInt16.ofNat (packetSize rest)).toNat = bigEndian high low := by
    have hle : bigEndian high low < 2 ^ 16 := by
      have := high.toNat_lt
      have := low.toNat_lt
      unfold bigEndian
      omega
    rw [UInt16.toNat_ofNat', packetSize, getHeaderSize, getPacketIdSize, htotal,
      Nat.mod_eq_of_lt (by omega)]
  rw [makeRawBinaries, hpayload, memoryBytes_htons_of_bigEndian hword,
    memoryBytes_htons_of_bigEndian hid]
  rfl

end Packet

namespace PacketFramer

theorem nextFrame_eq (data : List Byte) :
    nextFrame data =
      if data.length < 2 then .needMore
      else if sizeField data < 4 then .invalid
      else if data.length < sizeField data then .needMore
      else .frame (sizeField data) := by
  match data with
  | [] => rfl
  | [_] => rfl
  | high :: low :: rest => simp [nextFrame, sizeField, fieldAt]

/-- The answer to a call on the ring `q`, and the ring `q'` it leaves, as the grammar
has them: `n` is the size field. -/
structure Decides (q : RingBuffer) (frame : PacketFrame) (q' : RingBuffer) (n : Nat) : Prop where
  invalid_iff : frame.result = .invalid ↔ 2 ≤ q.content.length ∧ n < 4
  ok_iff : frame.result = .ok ↔ 4 ≤ n ∧ n ≤ q.content.length
  needMore_iff : frame.result = .needMore ↔
    ¬ (2 ≤ q.content.length ∧ n < 4) ∧ ¬ (4 ≤ n ∧ n ≤ q.content.length)
  unchanged : frame.result ≠ .ok → frame.packetOpt = none ∧ q' = q
  content : frame.result = .ok → q'.content = q.content.drop n
  indices : frame.result = .ok →
    q'.capacity = q.capacity ∧ q'.head = q.head ∧ q'.tail = (q.tail + n) % q.capacity
  packet : frame.result = .ok → ∃ packet, frame.packetOpt = some packet ∧
    packet.Reads (q.content.take n) ∧
    (Packet.create packet.getPacketId packet.payload).rawBinaries = q.content.take n

theorem decides (q : RingBuffer) :
    Decides q (tryFrameFromBuffer q).1 (tryFrameFromBuffer q).2 (sizeField q.content) := by
  have hspec := tryFrameFromBuffer_spec q
  rw [nextFrame_eq, RingBuffer.length_content] at hspec
  by_cases hshort : q.size < 2
  · rw [if_pos hshort] at hspec
    constructor <;> simp [hspec] <;> omega
  rw [if_neg hshort] at hspec
  by_cases hsmall : sizeField q.content < 4
  · rw [if_pos hsmall] at hspec
    constructor <;> simp [hspec] <;> omega
  rw [if_neg hsmall] at hspec
  by_cases hmore : q.size < sizeField q.content
  · rw [if_pos hmore] at hspec
    constructor <;> simp [hspec] <;> omega
  rw [if_neg hmore] at hspec
  obtain ⟨q', hconsume, hcall⟩ := hspec
  obtain ⟨-, hbuffer, htail, -⟩ := RingBuffer.consume_eq_some hconsume
  have hlen : (q.content.take (sizeField q.content)).length = sizeField q.content := by
    rw [List.length_take, RingBuffer.length_content]
    omega
  have hreads : (Packet.ofRaw (q.content.take (sizeField q.content))).Reads
      (q.content.take (sizeField q.content)) :=
    Packet.reads_ofRaw (by omega)
  have hfield : sizeField (q.content.take (sizeField q.content)) = sizeField q.content :=
    sizeField_take (by omega)
  rw [hcall]
  constructor
  · simp
    omega
  · simp
    omega
  · simp
    omega
  · simp
  · intro _
    exact RingBuffer.content_consume hconsume
  · intro _
    exact ⟨by simp [RingBuffer.capacity, hbuffer], RingBuffer.head_consume hconsume, htail⟩
  · intro _
    refine ⟨_, rfl, hreads, ?_⟩
    exact Packet.makeRawBinaries_of_reads hreads (by rw [hfield, hlen])

/-- The loop of `ReadReceivedBuffers`: the packets framed, the first answer other than
`Ok`, and the ring that is left. It makes at most `calls` calls. -/
def frameAll : Nat → RingBuffer → List Packet × PacketFrameResult × RingBuffer
  | 0, q => ([], .ok, q)
  | calls + 1, q =>
      match tryFrameFromBuffer q with
      | (⟨.ok, packetOpt⟩, q') =>
          let rest := frameAll calls q'
          (packetOpt.toList ++ rest.1, rest.2)
      | (frame, q') => ([], frame.result, q')

/-- A ring of `n` bytes is worked off in `n / 4 + 1` calls, whatever it holds: each
`Ok` takes at least four bytes. -/
theorem frameAll_spec {calls : Nat} {q : RingBuffer} (h : q.size / 4 < calls) :
    (frameAll calls q).2.1 ≠ .ok ∧
      (frameAll calls q).1 = (decoder.drain q.content).1.map Packet.ofRaw ∧
      (frameAll calls q).2.2.content = (decoder.drain q.content).2 := by
  induction calls generalizing q with
  | zero => omega
  | succ calls ih =>
    have hspec := tryFrameFromBuffer_spec q
    cases hnext : nextFrame q.content with
    | needMore =>
      have hstop : decoder.drain q.content = ([], q.content) :=
        Decoder.drain_of_stop (by simp [decoder, hnext])
      rw [hnext] at hspec
      simp [frameAll, hspec, hstop]
    | invalid =>
      have hstop : decoder.drain q.content = ([], q.content) :=
        Decoder.drain_of_stop (by simp [decoder, hnext])
      rw [hnext] at hspec
      simp [frameAll, hspec, hstop]
    | frame n =>
      rw [hnext] at hspec
      obtain ⟨q', hconsume, hcall⟩ := hspec
      have hfour : 4 ≤ n := by
        have hgrammar := nextFrame_eq q.content
        grind
      obtain ⟨hle, -, -, hsize⟩ := RingBuffer.consume_eq_some hconsume
      obtain ⟨hresult, hpackets, hrest⟩ := ih (q := q') (by omega)
      have hdrain := Decoder.drain_of_frame (d := decoder) hnext
      rw [RingBuffer.content_consume hconsume] at hpackets hrest
      simp [frameAll, hcall, hdrain, hresult, hpackets, hrest]

/-- `TryFrameFromBuffer` accepts exactly the frame grammar, and repeating it comes to an
end. -/
theorem tryFrameFromBuffer_exact (q : RingBuffer) :
    Decides q (tryFrameFromBuffer q).1 (tryFrameFromBuffer q).2 (sizeField q.content) ∧
      ∀ calls, q.size / 4 < calls → (frameAll calls q).2.1 ≠ .ok ∧
        (frameAll calls q).1 = (decoder.drain q.content).1.map Packet.ofRaw ∧
        (frameAll calls q).2.2.content = (decoder.drain q.content).2 := by
  constructor
  · exact decides q
  · intro calls hcalls
    exact frameAll_spec hcalls

end PacketFramer

end FastPort.Core
