import FastPort.Foundation.Circular

/-! The two ring buffers, `CircleBufferQueue` and `ExternalCircleBufferQueue`.
Their member functions are the same line for line; they differ in who owns the
memory and in that the former takes its lock around each call. The member
functions are therefore given once, and each class has its constructor. -/
namespace FastPort.Commons

open FastPort.Foundation.Circular

abbrev Byte := UInt8

structure Span where
  offset : Nat
  length : Nat
deriving DecidableEq, Repr

def Span.cells (span : Span) : List Nat :=
  List.range' span.offset span.length

def spanCells (spans : List Span) : List Nat :=
  spans.flatMap Span.cells

@[simp] theorem spanCells_nil : spanCells [] = [] := rfl

@[simp] theorem spanCells_cons (span : Span) (spans : List Span) :
    spanCells (span :: spans) = span.cells ++ spanCells spans := rfl

@[simp] theorem Span.length_cells (span : Span) : span.cells.length = span.length := by
  simp [Span.cells]

/-- `m_Capacity` is the length of `m_Buffer`. The last three fields are the
class invariant, so every operation below also proves that it keeps it. -/
structure RingBuffer where
  buffer : List Byte
  head : Nat
  tail : Nat
  size : Nat
  size_le : size ≤ buffer.length
  tail_lt : tail < buffer.length ∨ tail = 0
  head_eq : head = (tail + size) % buffer.length
deriving DecidableEq

abbrev CircleBufferQueue := RingBuffer
abbrev ExternalCircleBufferQueue := RingBuffer

/-- A ring over existing memory: the constructor over an external span. -/
def ExternalCircleBufferQueue.create (externalBuffer : List Byte) : ExternalCircleBufferQueue where
  buffer := externalBuffer
  head := 0
  tail := 0
  size := 0
  size_le := Nat.zero_le _
  tail_lt := .inr rfl
  head_eq := by simp

/-- A ring over `capacity` fresh bytes. -/
def CircleBufferQueue.create (capacity : Nat) : CircleBufferQueue :=
  ExternalCircleBufferQueue.create (List.replicate capacity 0)

namespace RingBuffer

variable (q : RingBuffer)

def capacity : Nat := q.buffer.length

/-- The stored bytes, oldest first. -/
def content : List Byte :=
  gather q.buffer (window q.capacity q.tail q.size)

def canReadSize : Nat := q.size

def canWriteSize : Nat := q.capacity - q.size

/-- The blocks of `n` bytes from `index` on: `firstPart` up to the end of the
buffer and, when that is too short, the rest from its start. -/
def blocks (index n : Nat) : List Span :=
  let firstPart := min n (q.capacity - index)
  if n > firstPart then [⟨index, firstPart⟩, ⟨0, n - firstPart⟩] else [⟨index, firstPart⟩]

/-- The bytes that spans handed out earlier show. -/
def read (cells : List Nat) : List Byte :=
  gather q.buffer cells

/-- Store bytes through spans that were handed out earlier; no index moves. -/
def fill (cells : List Nat) (data : List Byte) : RingBuffer where
  buffer := scatter q.buffer cells data
  head := q.head
  tail := q.tail
  size := q.size
  size_le := by simpa using q.size_le
  tail_lt := by simpa using q.tail_lt
  head_eq := by simpa using q.head_eq

private theorem advance_eq (n : Nat) :
    (q.head + n) % q.buffer.length = (q.tail + (q.size + n)) % q.buffer.length := by
  rw [q.head_eq, Nat.mod_add_mod, Nat.add_assoc]

private theorem advance_tail_lt {n : Nat} (h : ¬ q.size < n) :
    (q.tail + n) % q.buffer.length < q.buffer.length ∨ (q.tail + n) % q.buffer.length = 0 := by
  rcases Nat.eq_zero_or_pos q.buffer.length with hcap | hcap
  · have htail := q.tail_lt
    have hsize := q.size_le
    right
    rw [hcap, Nat.mod_zero]
    omega
  · exact .inl (Nat.mod_lt _ hcap)

private theorem advance_head_eq {n : Nat} (h : ¬ q.size < n) :
    q.head = ((q.tail + n) % q.buffer.length + (q.size - n)) % q.buffer.length := by
  rw [Nat.mod_add_mod, q.head_eq]
  congr 1
  omega

/-- The common end of every adding operation: `m_Head` and `m_Size` move. -/
def commitWrite (n : Nat) : Option RingBuffer :=
  if h : q.canWriteSize < n then none
  else some
    { buffer := q.buffer
      head := (q.head + n) % q.buffer.length
      tail := q.tail
      size := q.size + n
      size_le := by
        have := q.size_le
        unfold canWriteSize capacity at h
        omega
      tail_lt := q.tail_lt
      head_eq := q.advance_eq n }

def write (data : List Byte) : Option RingBuffer :=
  if q.canWriteSize < data.length then none
  else (q.fill (spanCells (q.blocks q.head data.length)) data).commitWrite data.length

/-- Reserve `n` bytes: the indices move at once, the caller fills the blocks. -/
def allocateWrite (n : Nat) : Option (List Span × RingBuffer) :=
  if q.canWriteSize < n then none
  else (q.commitWrite n).map fun q' => (q.blocks q.head n, q')

def consume (n : Nat) : Option RingBuffer :=
  if h : q.size < n then none
  else some
    { buffer := q.buffer
      head := q.head
      tail := (q.tail + n) % q.buffer.length
      size := q.size - n
      size_le := (Nat.sub_le _ _).trans q.size_le
      tail_lt := q.advance_tail_lt h
      head_eq := q.advance_head_eq h }

def peek (n : Nat) : Option (List Byte) :=
  if q.size < n then none
  else some (gather q.buffer (spanCells (q.blocks q.tail n)))

def pop (n : Nat) : Option (List Byte × RingBuffer) :=
  match q.peek n, q.consume n with
  | some bytes, some q' => some (bytes, q')
  | _, _ => none

def getReadBuffers : Nat × List Span :=
  if q.size = 0 then (0, []) else (q.size, q.blocks q.tail q.size)

def getWriteableBuffers : Nat × List Span :=
  if q.canWriteSize = 0 then (0, []) else (q.canWriteSize, q.blocks q.head q.canWriteSize)

def clear : RingBuffer where
  buffer := q.buffer
  head := 0
  tail := 0
  size := 0
  size_le := Nat.zero_le _
  tail_lt := .inr rfl
  head_eq := by simp

variable {q}

theorem eq_of_fields {q' : RingBuffer} (hbuffer : q'.buffer = q.buffer) (htail : q'.tail = q.tail)
    (hsize : q'.size = q.size) : q' = q := by
  have hhead : q'.head = q.head := by rw [q'.head_eq, q.head_eq, hbuffer, htail, hsize]
  cases q
  cases q'
  simp_all

@[simp] theorem length_content : q.content.length = q.size := by simp [content]

theorem size_le_capacity : q.size ≤ q.capacity := q.size_le

theorem size_add_canWriteSize : q.size + q.canWriteSize = q.capacity := by
  have := q.size_le_capacity
  unfold canWriteSize
  omega

@[simp] theorem fill_capacity (cells : List Nat) (data : List Byte) :
    (q.fill cells data).capacity = q.capacity := by
  simp [fill, capacity]

@[simp] theorem fill_size (cells : List Nat) (data : List Byte) :
    (q.fill cells data).size = q.size := rfl

@[simp] theorem fill_tail (cells : List Nat) (data : List Byte) :
    (q.fill cells data).tail = q.tail := rfl

@[simp] theorem fill_canWriteSize (cells : List Nat) (data : List Byte) :
    (q.fill cells data).canWriteSize = q.canWriteSize := by
  simp [canWriteSize]

@[simp] theorem fill_buffer (cells : List Nat) (data : List Byte) :
    (q.fill cells data).buffer = scatter q.buffer cells data := rfl

theorem fill_take (cells : List Nat) (data : List Byte) :
    q.fill (cells.take data.length) data = q.fill cells data := by
  apply eq_of_fields
  · exact scatter_take q.buffer cells data
  · rfl
  · rfl

@[simp] theorem fill_nil (cells : List Nat) : q.fill cells [] = q := by
  apply eq_of_fields
  · exact scatter_nil_right q.buffer cells
  · rfl
  · rfl

theorem fill_fill {left : List Nat} {xs : List Byte} (right : List Nat) (ys : List Byte)
    (h : left.length = xs.length) :
    (q.fill left xs).fill right ys = q.fill (left ++ right) (xs ++ ys) := by
  apply eq_of_fields
  · exact (scatter_append q.buffer right ys h).symm
  · rfl
  · rfl

@[simp] theorem clear_size : q.clear.size = 0 := rfl

@[simp] theorem clear_capacity : q.clear.capacity = q.capacity := rfl

theorem spanCells_blocks {index n : Nat} (hindex : index < q.capacity ∨ index = 0)
    (hn : n ≤ q.capacity) : spanCells (q.blocks index n) = window q.capacity index n := by
  rcases Nat.eq_zero_or_pos q.capacity with hcap | hcap
  · obtain rfl : n = 0 := by omega
    simp [blocks, Span.cells]
  · rw [window_eq_range' (by omega) hn]
    unfold blocks
    dsimp only
    split
    · simp [Span.cells]
    · have hzero : n - min n (q.capacity - index) = 0 := by omega
      rw [hzero]
      simp [Span.cells]

theorem spanCells_readBlocks {n : Nat} (hn : n ≤ q.capacity) :
    spanCells (q.blocks q.tail n) = window q.capacity q.tail n :=
  spanCells_blocks q.tail_lt hn

theorem spanCells_writeBlocks {n : Nat} (hn : n ≤ q.canWriteSize) :
    spanCells (q.blocks q.head n) = window q.capacity (q.tail + q.size) n := by
  have hle := q.size_add_canWriteSize
  have hhead : q.head = (q.tail + q.size) % q.capacity := q.head_eq
  rw [spanCells_blocks ?_ (by omega), hhead, window_mod]
  rcases Nat.eq_zero_or_pos q.capacity with hcap | hcap
  · have htail := q.tail_lt
    have hsize := q.size_le
    unfold capacity at *
    right
    rw [hhead, hcap, Nat.mod_zero]
    omega
  · exact .inl (hhead ▸ Nat.mod_lt _ hcap)

theorem commitWrite_eq_some {q' : RingBuffer} {n : Nat} :
    q.commitWrite n = some q' ↔ n ≤ q.canWriteSize ∧ q'.buffer = q.buffer ∧
      q'.tail = q.tail ∧ q'.size = q.size + n := by
  unfold commitWrite
  split
  · simp only [reduceCtorEq, false_iff]
    omega
  · constructor
    · intro h
      cases h
      exact ⟨by omega, rfl, rfl, rfl⟩
    · rintro ⟨-, hbuffer, htail, hsize⟩
      rw [Option.some_inj, eq_comm]
      apply eq_of_fields
      exacts [hbuffer, htail, hsize]

theorem commitWrite_eq_none {n : Nat} : q.commitWrite n = none ↔ q.canWriteSize < n := by
  unfold commitWrite
  split <;> simp <;> omega

theorem exists_commitWrite {n : Nat} (h : n ≤ q.canWriteSize) :
    ∃ q', q.commitWrite n = some q' := by
  unfold commitWrite
  rw [dif_neg (by omega)]
  exact ⟨_, rfl⟩

theorem content_commitWrite {q' : RingBuffer} {n : Nat} (h : q.commitWrite n = some q') :
    q'.content = q.content ++ gather q.buffer (window q.capacity (q.tail + q.size) n) := by
  obtain ⟨-, hbuffer, htail, hsize⟩ := commitWrite_eq_some.mp h
  simp only [content, capacity, hbuffer, htail, hsize, window_add, gather_append]

theorem content_fill_behind {m : Nat} (hm : m ≤ q.canWriteSize) (data : List Byte) :
    (q.fill (window q.capacity (q.tail + q.size) m) data).content = q.content := by
  have hle := q.size_add_canWriteSize
  unfold content
  rw [fill_capacity, fill_tail, fill_size, fill_buffer]
  exact gather_scatter_disjoint _ _ (disjoint_window (by omega))

theorem gather_fill_behind {data : List Byte} (hm : data.length ≤ q.canWriteSize) :
    gather (q.fill (window q.capacity (q.tail + q.size) data.length) data).buffer
      (window q.capacity (q.tail + q.size) data.length) = data := by
  have hle := q.size_add_canWriteSize
  refine gather_scatter _ (nodup_window _ (by omega)) ?_ (by simp)
  intro c hc
  rcases Nat.eq_zero_or_pos q.capacity with hcap | hcap
  · obtain ⟨i, hi, _⟩ := mem_window.mp hc
    omega
  · exact lt_of_mem_window hcap hc

theorem fill_drop {cells : List Nat} {xs : List Byte} (ys : List Byte)
    (h : xs.length ≤ cells.length) :
    (q.fill cells xs).fill (cells.drop xs.length) ys = q.fill cells (xs ++ ys) := by
  have htake : (cells.take xs.length).length = xs.length := by
    rw [List.length_take, Nat.min_eq_left h]
  rw [← fill_take cells xs, fill_fill _ _ htake, List.take_append_drop]

theorem fill_front (cells : List Nat) {data : List Byte} (hfit : data.length ≤ q.canWriteSize)
    (hcells : cells.take data.length = window q.capacity (q.tail + q.size) data.length) :
    (q.fill cells data).content = q.content ∧
      gather (q.fill cells data).buffer
        (window q.capacity (q.tail + q.size) data.length) = data := by
  rw [← fill_take, hcells]
  exact ⟨content_fill_behind hfit data, gather_fill_behind hfit⟩

theorem content_commitWrite_fill {q' : RingBuffer} {cells : List Nat} {data : List Byte}
    (hfit : data.length ≤ q.canWriteSize)
    (hcells : cells.take data.length = window q.capacity (q.tail + q.size) data.length)
    (h : (q.fill cells data).commitWrite data.length = some q') :
    q'.content = q.content ++ data := by
  obtain ⟨hkeep, hnew⟩ := fill_front cells hfit hcells
  rw [content_commitWrite h, hkeep, fill_capacity, fill_tail, fill_size, hnew]

theorem write_eq_none {data : List Byte} : q.write data = none ↔ q.canWriteSize < data.length := by
  unfold write
  split
  · simpa
  · obtain ⟨q', hq'⟩ := exists_commitWrite
      (q := q.fill (spanCells (q.blocks q.head data.length)) data) (n := data.length)
      (by simp only [canWriteSize, fill_capacity, fill_size] at *; omega)
    simp [hq']
    omega

theorem write_spec {q' : RingBuffer} {data : List Byte} (h : q.write data = some q') :
    data.length ≤ q.canWriteSize ∧ q'.capacity = q.capacity ∧ q'.tail = q.tail ∧
      q'.size = q.size + data.length ∧
      q'.buffer = scatter q.buffer (window q.capacity (q.tail + q.size) data.length) data := by
  unfold write at h
  split at h
  · cases h
  · rename_i hfit
    have hfit : data.length ≤ q.canWriteSize := by omega
    rw [spanCells_writeBlocks hfit] at h
    obtain ⟨-, hbuffer, htail, hsize⟩ := commitWrite_eq_some.mp h
    exact ⟨hfit, by simp [capacity, hbuffer], htail, hsize, hbuffer⟩

theorem content_write {q' : RingBuffer} {data : List Byte} (h : q.write data = some q') :
    q'.content = q.content ++ data := by
  obtain ⟨hfit, hcap, htail, hsize, hbuffer⟩ := write_spec h
  have hkeep := content_fill_behind hfit data
  have hnew := gather_fill_behind hfit
  rw [fill_buffer] at hnew
  unfold content at hkeep ⊢
  rw [fill_capacity, fill_tail, fill_size, fill_buffer] at hkeep
  rw [hcap, htail, hsize, hbuffer, window_add, gather_append, hkeep, hnew]

theorem allocateWrite_eq_some {q' : RingBuffer} {n : Nat} {spans : List Span}
    (h : q.allocateWrite n = some (spans, q')) :
    n ≤ q.canWriteSize ∧ spanCells spans = window q.capacity (q.tail + q.size) n ∧
      q'.buffer = q.buffer ∧ q'.tail = q.tail ∧ q'.size = q.size + n := by
  unfold allocateWrite at h
  split at h
  · cases h
  · obtain ⟨q'', hq'', heq⟩ := Option.map_eq_some_iff.mp h
    cases heq
    obtain ⟨hfit, hrest⟩ := commitWrite_eq_some.mp hq''
    exact ⟨hfit, spanCells_writeBlocks hfit, hrest⟩

theorem allocateWrite_eq_none {n : Nat} : q.allocateWrite n = none ↔ q.canWriteSize < n := by
  unfold allocateWrite
  split
  · simpa
  · obtain ⟨q', hq'⟩ := exists_commitWrite (q := q) (n := n) (by omega)
    simp [hq']
    omega

theorem content_fill_reserved {reserved : RingBuffer} {data : List Byte} {spans : List Span}
    (h : q.allocateWrite data.length = some (spans, reserved)) :
    (reserved.fill (spanCells spans) data).content = q.content ++ data := by
  obtain ⟨hfit, hspans, hbuffer, htail, hsize⟩ := allocateWrite_eq_some h
  have hcap : reserved.capacity = q.capacity := by simp [capacity, hbuffer]
  obtain ⟨hkeep, hnew⟩ := fill_front (q := q) (spanCells spans) hfit
    (by rw [hspans, List.take_of_length_le (by simp)])
  unfold content at hkeep ⊢
  simp only [fill_capacity, fill_tail, fill_size, fill_buffer] at hkeep hnew ⊢
  rw [hcap, htail, hsize, hbuffer, window_add, gather_append, hkeep, hnew]

theorem head_le_capacity : q.head ≤ q.capacity := by
  rcases Nat.eq_zero_or_pos q.capacity with hcap | hcap
  · have htail := q.tail_lt
    have hsize := q.size_le
    have hhead := q.head_eq
    unfold capacity at *
    rw [hcap, Nat.mod_zero] at hhead
    omega
  · rw [q.head_eq]
    exact Nat.le_of_lt (Nat.mod_lt _ hcap)

theorem block_le_capacity {index n : Nat} (hindex : index ≤ q.capacity) (hn : n ≤ q.capacity)
    {span : Span} (h : span ∈ q.blocks index n) : span.offset + span.length ≤ q.capacity := by
  unfold blocks at h
  dsimp only at h
  split at h
  · rcases List.mem_cons.mp h with rfl | h
    · simp only
      omega
    · obtain rfl := List.mem_singleton.mp h
      simp only
      omega
  · obtain rfl := List.mem_singleton.mp h
    simp only
    omega

theorem reserved_le_capacity {reserved : RingBuffer} {n : Nat} {spans : List Span}
    (h : q.allocateWrite n = some (spans, reserved)) {span : Span} (hspan : span ∈ spans) :
    span.offset + span.length ≤ q.capacity := by
  have hroom := (allocateWrite_eq_some h).1
  have hle := q.size_add_canWriteSize
  unfold allocateWrite at h
  split at h
  · cases h
  · obtain ⟨_, _, heq⟩ := Option.map_eq_some_iff.mp h
    cases heq
    exact block_le_capacity q.head_le_capacity (by omega) hspan

theorem consume_eq_some {q' : RingBuffer} {n : Nat} (h : q.consume n = some q') :
    n ≤ q.size ∧ q'.buffer = q.buffer ∧ q'.tail = (q.tail + n) % q.capacity ∧
      q'.size = q.size - n := by
  unfold consume at h
  split at h
  · cases h
  · cases h
    exact ⟨by omega, rfl, rfl, rfl⟩

theorem head_consume {q' : RingBuffer} {n : Nat} (h : q.consume n = some q') :
    q'.head = q.head := by
  unfold consume at h
  split at h
  · cases h
  · cases h
    rfl

theorem consume_eq_none {n : Nat} : q.consume n = none ↔ q.size < n := by
  unfold consume
  split <;> simp <;> omega

theorem consume_zero : q.consume 0 = some q := by
  have htail : q.tail % q.capacity = q.tail := by
    rcases q.tail_lt with hlt | hzero
    · exact Nat.mod_eq_of_lt hlt
    · rw [hzero, Nat.zero_mod]
  unfold consume
  rw [dif_neg (Nat.not_lt_zero _)]
  exact congrArg some (eq_of_fields rfl htail rfl)

theorem content_consume {q' : RingBuffer} {n : Nat} (h : q.consume n = some q') :
    q'.content = q.content.drop n := by
  obtain ⟨hn, hbuffer, htail, hsize⟩ := consume_eq_some h
  have hcap : q'.capacity = q.capacity := by simp [capacity, hbuffer]
  simp only [content, hcap, htail, hsize, hbuffer, window_mod, ← gather_drop]
  rw [drop_window _ _ hn]

theorem peek_eq (n : Nat) : q.peek n = if q.size < n then none else some (q.content.take n) := by
  unfold peek
  split
  · rfl
  · have hsize := q.size_le_capacity
    rw [spanCells_readBlocks (by omega), content, ← gather_take, take_window _ _ (by omega)]

theorem pop_eq_some {q' : RingBuffer} {n : Nat} {bytes : List Byte}
    (h : q.pop n = some (bytes, q')) :
    n ≤ q.size ∧ bytes = q.content.take n ∧ q.consume n = some q' := by
  unfold pop at h
  rw [peek_eq] at h
  split at h
  · rename_i hpeek hconsume
    cases h
    split at hpeek
    · cases hpeek
    · cases hpeek
      exact ⟨by omega, rfl, hconsume⟩
  · cases h

theorem pop_eq_none {n : Nat} : q.pop n = none ↔ q.size < n := by
  unfold pop
  rw [peek_eq]
  by_cases hn : q.size < n
  · simp [hn]
  · have hconsume : q.consume n ≠ none := fun h => hn (consume_eq_none.mp h)
    obtain ⟨q', hq'⟩ := Option.ne_none_iff_exists'.mp hconsume
    simp [hn, hq']

theorem getReadBuffers_fst : q.getReadBuffers.1 = q.size := by
  unfold getReadBuffers
  split <;> simp_all

theorem spanCells_getReadBuffers :
    spanCells q.getReadBuffers.2 = window q.capacity q.tail q.size := by
  unfold getReadBuffers
  split
  · rename_i hzero
    simp [hzero]
  · exact spanCells_readBlocks q.size_le_capacity

theorem headD_getReadBuffers (hsome : q.size ≠ 0) (span : Span) :
    q.getReadBuffers.2.headD span = ⟨q.tail, min q.size (q.capacity - q.tail)⟩ := by
  unfold getReadBuffers blocks
  rw [if_neg hsome]
  dsimp only
  split <;> rfl

theorem getWriteableBuffers_fst : q.getWriteableBuffers.1 = q.canWriteSize := by
  unfold getWriteableBuffers
  split <;> simp_all

theorem headD_getWriteableBuffers (hroom : q.canWriteSize ≠ 0) (span : Span) :
    q.getWriteableBuffers.2.headD span = ⟨q.head, min q.canWriteSize (q.capacity - q.head)⟩ := by
  unfold getWriteableBuffers blocks
  rw [if_neg hroom]
  dsimp only
  split <;> rfl

theorem getWriteableBuffers_eq_nil (h : q.getWriteableBuffers.2 = []) : q.canWriteSize = 0 := by
  by_contra hroom
  unfold getWriteableBuffers blocks at h
  rw [if_neg hroom] at h
  dsimp only at h
  split at h <;> cases h

theorem spanCells_getWriteableBuffers :
    spanCells q.getWriteableBuffers.2 =
      window q.capacity (q.tail + q.size) q.canWriteSize := by
  unfold getWriteableBuffers
  split
  · rename_i hzero
    simp [hzero]
  · exact spanCells_writeBlocks le_rfl

end RingBuffer

end FastPort.Commons
