import FastPort.Commons.RingBuffer

/-! The packet and its encoder: a big-endian 16-bit total size, a big-endian
16-bit packet id, the payload. -/
namespace FastPort.Core

open FastPort.Commons

def htons (value : UInt16) : UInt16 :=
  value % 256 * 256 + value / 256

def ntohs (value : UInt16) : UInt16 := htons value

def memoryBytes (value : UInt16) : List Byte :=
  [(value % 256).toUInt8, (value / 256).toUInt8]

def fromMemory (low high : Byte) : UInt16 :=
  low.toUInt16 + high.toUInt16 * 256

def bigEndian (high low : Byte) : Nat :=
  high.toNat * 256 + low.toNat

theorem toNat_htons (value : UInt16) :
    (htons value).toNat = value.toNat % 256 * 256 + value.toNat / 256 := by
  have hlt := value.toNat_lt
  simp only [htons, UInt16.toNat_add, UInt16.toNat_mul, UInt16.toNat_mod, UInt16.toNat_div,
    UInt16.reduceToNat]
  omega

@[simp] theorem toNat_ntohs_fromMemory (high low : Byte) :
    (ntohs (fromMemory high low)).toNat = bigEndian high low := by
  have hhigh := high.toNat_lt
  have hlow := low.toNat_lt
  rw [ntohs, toNat_htons]
  simp only [fromMemory, bigEndian, UInt16.toNat_add, UInt16.toNat_mul, UInt8.toNat_toUInt16,
    UInt16.reduceToNat]
  omega

theorem memoryBytes_htons (value : UInt16) :
    ∃ high low, memoryBytes (htons value) = [high, low] ∧
      ntohs (fromMemory high low) = value := by
  refine ⟨_, _, rfl, ?_⟩
  have hlt := value.toNat_lt
  have hlow : (value.toNat % 256 * 256 + value.toNat / 256) % 256 = value.toNat / 256 := by omega
  have hhigh : (value.toNat % 256 * 256 + value.toNat / 256) / 256 = value.toNat % 256 := by omega
  apply UInt16.toNat_inj.mp
  rw [toNat_ntohs_fromMemory]
  simp only [bigEndian, UInt16.toNat_toUInt8, UInt16.toNat_mod, UInt16.toNat_div, toNat_htons,
    UInt16.reduceToNat, hlow, hhigh]
  omega

@[simp] theorem length_memoryBytes (value : UInt16) : (memoryBytes value).length = 2 := rfl

def getHeaderSize : Nat := 2
def getPacketIdSize : Nat := 2

def getHeaderFromBuffer : List Byte → UInt16
  | b0 :: b1 :: _ => ntohs (fromMemory b0 b1)
  | _ => 0

def getPacketIdFromBuffer (data : List Byte) : UInt16 :=
  if data.length < getHeaderSize + 2 then 0 else getHeaderFromBuffer (data.drop getHeaderSize)

/-- `m_PacketId` is a signed 16-bit field; `GetPacketId` casts it back. -/
structure Packet where
  packetId : Int16
  payload : List Byte
  rawBinaries : List Byte
deriving DecidableEq

namespace Packet

def getPacketId (packet : Packet) : UInt16 := packet.packetId.toUInt16

/-- The constructor over a raw buffer, whose ownership it takes. -/
def ofRaw (buffers : List Byte) : Packet where
  packetId := (getPacketIdFromBuffer buffers).toInt16
  payload := buffers.drop (getHeaderSize + getPacketIdSize)
  rawBinaries := buffers

def packetSize (payload : List Byte) : Nat :=
  payload.length + getHeaderSize + getPacketIdSize

def makeRawBinaries (packetId : UInt16) (payload : List Byte) : List Byte :=
  memoryBytes (htons (UInt16.ofNat (packetSize payload))) ++ memoryBytes (htons packetId) ++
    payload

/-- The constructors over a packet id and its content. -/
def create (packetId : UInt16) (content : List Byte) : Packet where
  packetId := packetId.toInt16
  payload := content
  rawBinaries := makeRawBinaries packetId content

@[simp] theorem getPacketId_create (packetId : UInt16) (content : List Byte) :
    (create packetId content).getPacketId = packetId := by
  simp [create, getPacketId]

@[simp] theorem payload_create (packetId : UInt16) (content : List Byte) :
    (create packetId content).payload = content := rfl

@[simp] theorem length_makeRawBinaries (packetId : UInt16) (payload : List Byte) :
    (makeRawBinaries packetId payload).length = payload.length + 4 := by
  simp only [makeRawBinaries, List.length_append, length_memoryBytes]
  omega

theorem getHeader_makeRawBinaries (packetId : UInt16) (payload more : List Byte) :
    (getHeaderFromBuffer (makeRawBinaries packetId payload ++ more)).toNat =
      (payload.length + 4) % 65536 := by
  obtain ⟨high, low, hbytes, hvalue⟩ := memoryBytes_htons (UInt16.ofNat (packetSize payload))
  simp only [makeRawBinaries, hbytes, List.cons_append, List.nil_append, getHeaderFromBuffer,
    hvalue]
  simp [packetSize, getHeaderSize, getPacketIdSize]

theorem ofRaw_makeRawBinaries (packetId : UInt16) (payload : List Byte) :
    ofRaw (makeRawBinaries packetId payload) = create packetId payload := by
  obtain ⟨high, low, hbytes, hvalue⟩ := memoryBytes_htons packetId
  have hid : getPacketIdFromBuffer (makeRawBinaries packetId payload) = packetId := by
    unfold getPacketIdFromBuffer
    rw [if_neg (by simp [getHeaderSize])]
    rw [makeRawBinaries, hbytes, List.append_assoc]
    exact hvalue
  have hpayload : (makeRawBinaries packetId payload).drop 4 = payload := by
    simp [makeRawBinaries, memoryBytes]
  simp only [ofRaw, hid, getHeaderSize, getPacketIdSize, hpayload, create]

end Packet

end FastPort.Core
