import FastPort.Commons.RingBuffer

/-! The ring buffers with the `size_t` members they have, and their member
functions in the arithmetic of these. `RingBuffer` computes with natural numbers;
up to half of the range of a word the two agree. -/
namespace FastPort.Commons

open FastPort.Foundation.Circular

structure ByteSpan where
  bytes : List Byte
  length_lt : bytes.length < UInt64.size
deriving DecidableEq

def ByteSpan.size (data : ByteSpan) : UInt64 :=
  UInt64.ofNatLT data.bytes.length data.length_lt

@[simp] theorem ByteSpan.toNat_size (data : ByteSpan) : data.size.toNat = data.bytes.length :=
  UInt64.toNat_ofNatLT

structure RingWords where
  buffer : List Byte
  capacity : UInt64
  head : UInt64
  tail : UInt64
  size : UInt64
deriving DecidableEq

/-- `ExternalCircleBufferQueue`, over memory that exists. -/
def RingWords.external (externalBuffer : ByteSpan) : RingWords where
  buffer := externalBuffer.bytes
  capacity := externalBuffer.size
  head := 0
  tail := 0
  size := 0

/-- `CircleBufferQueue`, over fresh memory. -/
def RingWords.circle (capacity : UInt64) : RingWords where
  buffer := List.replicate capacity.toNat 0
  capacity := capacity
  head := 0
  tail := 0
  size := 0

namespace RingWords

variable (q : RingWords)

def canReadSize : UInt64 := q.size

def canWriteSize : UInt64 := q.capacity - q.size

/-- The two blocks of every copy, `firstPart` and the rest. -/
def blocks (index n : UInt64) : List Span :=
  let firstPart := min n (q.capacity - index)
  if n > firstPart then [⟨index.toNat, firstPart.toNat⟩, ⟨0, (n - firstPart).toNat⟩]
  else [⟨index.toNat, firstPart.toNat⟩]

def fill (cells : List Nat) (data : List Byte) : RingWords :=
  { q with buffer := scatter q.buffer cells data }

def commitWrite (n : UInt64) : Option RingWords :=
  if q.capacity - q.size < n then none
  else some { q with head := (q.head + n) % q.capacity, size := q.size + n }

def write (data : ByteSpan) : Option RingWords :=
  if q.capacity - q.size < data.size then none
  else (q.fill (spanCells (q.blocks q.head data.size)) data.bytes).commitWrite data.size

def allocateWrite (n : UInt64) : Option (List Span × RingWords) :=
  if q.capacity - q.size < n then none
  else (q.commitWrite n).map fun q' => (q.blocks q.head n, q')

def consume (n : UInt64) : Option RingWords :=
  if q.size < n then none
  else some { q with tail := (q.tail + n) % q.capacity, size := q.size - n }

def peek (n : UInt64) : Option (List Byte) :=
  if q.size < n then none
  else some (gather q.buffer (spanCells (q.blocks q.tail n)))

def pop (n : UInt64) : Option (List Byte × RingWords) :=
  match q.peek n, q.consume n with
  | some bytes, some q' => some (bytes, q')
  | _, _ => none

def getReadBuffers : UInt64 × List Span :=
  if q.size = 0 then (0, []) else (q.size, q.blocks q.tail q.size)

def getWriteableBuffers : UInt64 × List Span :=
  if q.capacity - q.size = 0 then (0, [])
  else (q.capacity - q.size, q.blocks q.head (q.capacity - q.size))

def clear : RingWords :=
  { q with head := 0, tail := 0, size := 0 }

end RingWords

structure Holds (w : RingWords) (q : RingBuffer) : Prop where
  buffer : w.buffer = q.buffer
  capacity : w.capacity.toNat = q.capacity
  head : w.head.toNat = q.head
  tail : w.tail.toNat = q.tail
  size : w.size.toNat = q.size
  pos : 0 < q.capacity
  lt : q.capacity < 2 ^ 63

namespace Holds

variable {w : RingWords} {q : RingBuffer}

theorem canWriteSize (h : Holds w q) : (w.capacity - w.size).toNat = q.canWriteSize := by
  rw [UInt64.toNat_sub_of_le _ _ ?_, h.capacity, h.size]
  · rfl
  · rw [UInt64.le_iff_toNat_le, h.capacity, h.size]
    exact q.size_le

theorem canWriteSize_lt (h : Holds w q) (n : UInt64) :
    w.capacity - w.size < n ↔ q.canWriteSize < n.toNat := by
  rw [UInt64.lt_iff_toNat_lt, h.canWriteSize]

theorem size_lt (h : Holds w q) (n : UInt64) : w.size < n ↔ q.size < n.toNat := by
  rw [UInt64.lt_iff_toNat_lt, h.size]

theorem advance (h : Holds w q) {index n : UInt64} (hindex : index.toNat < q.capacity)
    (hn : n.toNat ≤ q.capacity) :
    ((index + n) % w.capacity).toNat = (index.toNat + n.toNat) % q.buffer.length := by
  have hlt := h.lt
  have hsum : (index + n).toNat = index.toNat + n.toNat := by
    rw [UInt64.toNat_add, Nat.mod_eq_of_lt (by omega)]
  rw [UInt64.toNat_mod, hsum, h.capacity]
  rfl

theorem head_lt (h : Holds w q) : w.head.toNat < q.capacity := by
  rw [h.head, q.head_eq]
  exact Nat.mod_lt _ h.pos

theorem tail_lt (h : Holds w q) : w.tail.toNat < q.capacity := by
  have hpos := h.pos
  rw [h.tail]
  rcases q.tail_lt with hlt | hzero
  · exact hlt
  · omega

theorem toNat_min (m n : UInt64) : (min m n).toNat = min m.toNat n.toNat := by
  change (if m ≤ n then m else n).toNat = _
  simp only [UInt64.le_iff_toNat_le]
  split
  · rename_i hle
    exact (Nat.min_eq_left hle).symm
  · rename_i hle
    exact (Nat.min_eq_right (Nat.le_of_not_le hle)).symm

theorem blocks (h : Holds w q) {index : UInt64} (n : UInt64) (hindex : index.toNat < q.capacity) :
    w.blocks index n = q.blocks index.toNat n.toNat := by
  have hrest : (w.capacity - index).toNat = q.capacity - index.toNat := by
    rw [UInt64.toNat_sub_of_le _ _ ?_, h.capacity]
    rw [UInt64.le_iff_toNat_le, h.capacity]
    exact Nat.le_of_lt hindex
  have hsecond : (n - min n (w.capacity - index)).toNat =
      n.toNat - min n.toNat (q.capacity - index.toNat) := by
    rw [UInt64.toNat_sub_of_le _ _ ?_, toNat_min, hrest]
    rw [UInt64.le_iff_toNat_le, toNat_min]
    exact Nat.min_le_left _ _
  simp only [RingWords.blocks, RingBuffer.blocks, gt_iff_lt, UInt64.lt_iff_toNat_lt, toNat_min,
    hrest, hsecond]

theorem fill (h : Holds w q) (cells : List Nat) (data : List Byte) :
    Holds (w.fill cells data) (q.fill cells data) where
  buffer := by simp only [RingWords.fill, RingBuffer.fill_buffer, h.buffer]
  capacity := by simpa [RingWords.fill] using h.capacity
  head := h.head
  tail := h.tail
  size := h.size
  pos := by simpa using h.pos
  lt := by simpa using h.lt

theorem commitWrite (h : Holds w q) (n : UInt64) :
    Option.Rel Holds (w.commitWrite n) (q.commitWrite n.toNat) := by
  unfold RingWords.commitWrite RingBuffer.commitWrite
  by_cases hfit : q.canWriteSize < n.toNat
  · rw [if_pos ((h.canWriteSize_lt n).mpr hfit), dif_pos hfit]
    exact .none
  · rw [if_neg (mt (h.canWriteSize_lt n).mp hfit), dif_neg hfit]
    have hle := q.size_add_canWriteSize
    have hlt := h.lt
    refine .some ⟨h.buffer, h.capacity, ?_, h.tail, ?_, h.pos, h.lt⟩
    · rw [h.advance h.head_lt (by omega), h.head]
    · rw [UInt64.toNat_add, Nat.mod_eq_of_lt (by rw [h.size]; omega), h.size]

theorem write (h : Holds w q) (data : ByteSpan) :
    Option.Rel Holds (w.write data) (q.write data.bytes) := by
  unfold RingWords.write RingBuffer.write
  simp only [h.canWriteSize_lt, h.blocks _ h.head_lt, data.toNat_size, h.head]
  split
  · exact .none
  · have hcommit := (h.fill (spanCells (q.blocks q.head data.bytes.length)) data.bytes).commitWrite
      data.size
    rwa [data.toNat_size] at hcommit

theorem allocateWrite (h : Holds w q) (n : UInt64) :
    Option.Rel (fun r s => r.1 = s.1 ∧ Holds r.2 s.2) (w.allocateWrite n)
      (q.allocateWrite n.toNat) := by
  unfold RingWords.allocateWrite RingBuffer.allocateWrite
  simp only [h.canWriteSize_lt, h.blocks _ h.head_lt, h.head]
  split
  · exact .none
  · have hcommit := h.commitWrite n
    generalize w.commitWrite n = low at hcommit
    generalize q.commitWrite n.toNat = high at hcommit
    cases hcommit with
    | none => exact .none
    | some hholds => exact .some ⟨rfl, hholds⟩

theorem consume (h : Holds w q) (n : UInt64) :
    Option.Rel Holds (w.consume n) (q.consume n.toNat) := by
  unfold RingWords.consume RingBuffer.consume
  by_cases hn : q.size < n.toNat
  · rw [if_pos ((h.size_lt n).mpr hn), dif_pos hn]
    exact .none
  · rw [if_neg (mt (h.size_lt n).mp hn), dif_neg hn]
    have hle := q.size_le_capacity
    refine .some ⟨h.buffer, h.capacity, h.head, ?_, ?_, h.pos, h.lt⟩
    · rw [h.advance h.tail_lt (by omega), h.tail]
    · rw [UInt64.toNat_sub_of_le, h.size]
      rw [UInt64.le_iff_toNat_le, h.size]
      omega

theorem peek (h : Holds w q) (n : UInt64) : w.peek n = q.peek n.toNat := by
  simp only [RingWords.peek, RingBuffer.peek, h.size_lt, h.blocks n h.tail_lt, h.tail, h.buffer]

theorem pop (h : Holds w q) (n : UInt64) :
    Option.Rel (fun r s => r.1 = s.1 ∧ Holds r.2 s.2) (w.pop n) (q.pop n.toNat) := by
  unfold RingWords.pop RingBuffer.pop
  rw [h.peek]
  have hconsume := h.consume n
  generalize w.consume n = low at hconsume
  generalize q.consume n.toNat = high at hconsume
  cases q.peek n.toNat with
  | none => exact .none
  | some bytes =>
    cases hconsume with
    | none => exact .none
    | some hholds => exact .some ⟨rfl, hholds⟩

theorem size_eq_zero (h : Holds w q) : w.size = 0 ↔ q.size = 0 := by
  rw [← UInt64.toNat_inj, h.size]
  rfl

theorem getReadBuffers (h : Holds w q) :
    w.getReadBuffers.1.toNat = q.getReadBuffers.1 ∧ w.getReadBuffers.2 = q.getReadBuffers.2 := by
  unfold RingWords.getReadBuffers RingBuffer.getReadBuffers
  rw [h.blocks _ h.tail_lt, h.tail, h.size]
  simp only [h.size_eq_zero]
  split
  · exact ⟨rfl, rfl⟩
  · exact ⟨h.size, rfl⟩

theorem getWriteableBuffers (h : Holds w q) :
    w.getWriteableBuffers.1.toNat = q.getWriteableBuffers.1 ∧
      w.getWriteableBuffers.2 = q.getWriteableBuffers.2 := by
  have hzero : w.capacity - w.size = 0 ↔ q.canWriteSize = 0 := by
    rw [← UInt64.toNat_inj, h.canWriteSize]
    rfl
  unfold RingWords.getWriteableBuffers RingBuffer.getWriteableBuffers
  rw [h.blocks _ h.head_lt, h.head, h.canWriteSize]
  simp only [hzero]
  split
  · exact ⟨rfl, rfl⟩
  · exact ⟨h.canWriteSize, rfl⟩

theorem clear (h : Holds w q) : Holds w.clear q.clear where
  buffer := h.buffer
  capacity := h.capacity
  head := rfl
  tail := rfl
  size := rfl
  pos := h.pos
  lt := h.lt

theorem external {memory : ByteSpan} (hpos : 0 < memory.bytes.length)
    (hlt : memory.bytes.length < 2 ^ 63) :
    Holds (.external memory) (ExternalCircleBufferQueue.create memory.bytes) where
  buffer := rfl
  capacity := memory.toNat_size
  head := rfl
  tail := rfl
  size := rfl
  pos := hpos
  lt := hlt

theorem circle {capacity : UInt64} (hpos : 0 < capacity.toNat) (hlt : capacity.toNat < 2 ^ 63) :
    Holds (.circle capacity) (CircleBufferQueue.create capacity.toNat) := by
  have hlength : (CircleBufferQueue.create capacity.toNat).capacity = capacity.toNat :=
    List.length_replicate
  exact ⟨rfl, hlength.symm, rfl, rfl, rfl, by rwa [hlength], by rwa [hlength]⟩

end Holds

end FastPort.Commons
