import FastPort.Core.Packet
import FastPort.Foundation.Framing

/-! `TryFrameFromBuffer` over a ring, and the grammar it decides on the ring's
content. -/
namespace FastPort.Core

open FastPort.Commons FastPort.Foundation.Framing

inductive PacketFrameResult where
  | ok
  | needMore
  | invalid
deriving DecidableEq, Repr

structure PacketFrame where
  result : PacketFrameResult
  packetOpt : Option Packet
deriving DecidableEq

namespace PacketFramer

/-- What the size field of a peeked header leads to. -/
def checkHeader (canRead : Nat) (header : List Byte) : Verdict :=
  let packetSize := (getHeaderFromBuffer header).toNat
  if packetSize < getHeaderSize + getPacketIdSize then .invalid
  else if packetSize > 0xFFFF then .invalid
  else if canRead < packetSize then .needMore
  else .frame packetSize

def tryFrameFromBuffer (q : RingBuffer) : PacketFrame × RingBuffer :=
  let canRead := q.canReadSize
  if canRead < getHeaderSize then (⟨.needMore, none⟩, q)
  else
    match q.peek getHeaderSize with
    | none => (⟨.invalid, none⟩, q)
    | some header =>
        match checkHeader canRead header with
        | .invalid => (⟨.invalid, none⟩, q)
        | .needMore => (⟨.needMore, none⟩, q)
        | .frame packetSize =>
            match q.pop packetSize with
            | none => (⟨.invalid, none⟩, q)
            | some (buffers, q') => (⟨.ok, some (Packet.ofRaw buffers)⟩, q')

/-- The frame grammar: a big-endian total size of at least 4, then that many
bytes in all. -/
def nextFrame : List Byte → Verdict
  | high :: low :: rest =>
      let n := bigEndian high low
      if n < 4 then .invalid
      else if rest.length + 2 < n then .needMore
      else .frame n
  | _ => .needMore

def decoder : Decoder Byte where
  next := nextFrame
  frame_pos := by
    intro xs n h
    unfold nextFrame at h
    split at h <;> grind
  frame_le := by
    intro xs n h
    unfold nextFrame at h
    split at h <;> grind
  stable := by
    intro xs ys h
    match xs with
    | [] => simp [nextFrame] at h
    | [_] => simp [nextFrame] at h
    | high :: low :: rest =>
      simp only [nextFrame, List.cons_append, List.length_append] at h ⊢
      split <;> grind

theorem decoder_prompt : decoder.Prompt := by
  intro xs ys n h hle
  simp only [decoder] at h ⊢
  cases xs with
  | nil =>
    unfold nextFrame at h
    split at h <;> grind
  | cons high xs =>
    cases xs with
    | nil =>
      unfold nextFrame at h
      split at h <;> grind
    | cons low rest =>
      simp only [nextFrame, List.cons_append, List.length_append, List.length_cons] at h hle ⊢
      grind

/-- The grammar over a ring of the given capacity: a frame that can never fit is as
good as an invalid one. -/
def bounded (capacity : Nat) : Decoder Byte :=
  decoder.bounded capacity decoder_prompt

theorem bounded_content (q : RingBuffer) :
    (bounded q.capacity).next q.content = nextFrame q.content := by
  apply Decoder.bounded_next
  rw [RingBuffer.length_content]
  exact q.size_le_capacity

theorem bigEndian_le (high low : Byte) : bigEndian high low ≤ 0xFFFF := by
  have := high.toNat_lt
  have := low.toNat_lt
  unfold bigEndian
  omega

theorem checkHeader_take (xs : List Byte) (h : 2 ≤ xs.length) :
    checkHeader xs.length (xs.take 2) = nextFrame xs := by
  match xs with
  | high :: low :: rest =>
    have hle := bigEndian_le high low
    simp only [checkHeader, nextFrame, List.take_succ_cons, List.take_zero, getHeaderFromBuffer,
      toNat_ntohs_fromMemory, getHeaderSize, getPacketIdSize, List.length_cons]
    rw [if_neg (show ¬ bigEndian high low > 0xFFFF by omega)]

theorem nextFrame_short {xs : List Byte} (h : xs.length < 2) : nextFrame xs = .needMore := by
  match xs with
  | [] => rfl
  | [_] => rfl

/-- `TryFrameFromBuffer` decides the grammar on the content; only `Ok` changes
the ring, by taking the frame off. -/
theorem tryFrameFromBuffer_spec (q : RingBuffer) :
    match nextFrame q.content with
    | .needMore => tryFrameFromBuffer q = (⟨.needMore, none⟩, q)
    | .invalid => tryFrameFromBuffer q = (⟨.invalid, none⟩, q)
    | .frame n => ∃ q', q.consume n = some q' ∧ tryFrameFromBuffer q =
        (⟨.ok, some (Packet.ofRaw (q.content.take n))⟩, q') := by
  have hlen : q.content.length = q.size := RingBuffer.length_content
  unfold tryFrameFromBuffer
  by_cases hshort : q.size < 2
  · rw [nextFrame_short (by omega)]
    simp [RingBuffer.canReadSize, getHeaderSize, hshort]
  · have hcheck := checkHeader_take q.content (by omega)
    rw [hlen] at hcheck
    simp only [RingBuffer.canReadSize, getHeaderSize, hshort, if_false, RingBuffer.peek_eq, hcheck]
    cases hnext : nextFrame q.content with
    | needMore => simp
    | invalid => simp
    | frame n =>
      have hle : n ≤ q.size := hlen ▸ decoder.frame_le _ _ hnext
      cases hpop : q.pop n with
      | none => exact absurd (RingBuffer.pop_eq_none.mp hpop) (by omega)
      | some popped =>
        obtain ⟨bytes, q'⟩ := popped
        obtain ⟨-, rfl, hconsume⟩ := RingBuffer.pop_eq_some hpop
        exact ⟨q', hconsume, by simp [hpop]⟩

theorem nextFrame_makeRawBinaries (packetId : UInt16) {payload : List Byte}
    (h : payload.length + 4 ≤ 0xFFFF) :
    nextFrame (Packet.makeRawBinaries packetId payload) =
      .frame (Packet.makeRawBinaries packetId payload).length := by
  have hheader := Packet.getHeader_makeRawBinaries packetId payload []
  have hlen := Packet.length_makeRawBinaries packetId payload
  rw [List.append_nil, Nat.mod_eq_of_lt (by omega)] at hheader
  match hraw : Packet.makeRawBinaries packetId payload with
  | [] => simp [hraw] at hlen
  | [_] => simp [hraw] at hlen
  | high :: low :: rest =>
    rw [hraw] at hheader hlen
    simp only [getHeaderFromBuffer, toNat_ntohs_fromMemory] at hheader
    simp only [List.length_cons] at hlen
    simp only [nextFrame, hheader, List.length_cons]
    rw [if_neg (by omega), if_neg (by omega)]
    congr 1
    omega

end PacketFramer

end FastPort.Core
