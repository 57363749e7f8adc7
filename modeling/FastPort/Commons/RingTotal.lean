import FastPort.Commons.RingWords

/-! The member functions of the rings with the steps that can go wrong: a remainder, an
address inside the buffer, and the copies between the buffer and a span. -/
namespace FastPort.Commons

open FastPort.Foundation.Circular

inductive RingFault where
  | remainderByZero
  | indexOutside
  | copyPastEnd
deriving DecidableEq, Repr

/-- `CircleBufferQueue` has a vector, which it indexes; `ExternalCircleBufferQueue` has a span,
to whose pointer it adds. -/
inductive RingMemory where
  | vector
  | span
deriving DecidableEq, Repr

def RingMemory.address (memory : RingMemory) (length offset : Nat) : Except RingFault Unit :=
  match memory with
  | .vector => if offset < length then .ok () else .error .indexOutside
  | .span => if offset ≤ length then .ok () else .error .indexOutside

def RingMemory.copies (memory : RingMemory) (length spanLength : Nat) :
    Nat → List Span → Except RingFault Unit
  | _, [] => .ok ()
  | copied, block :: blocks => do
      memory.address length block.offset
      if length < block.offset + block.length ∨ spanLength < copied + block.length then
        throw .copyPastEnd
      memory.copies length spanLength (copied + block.length) blocks

def views (length : Nat) (blocks : List Span) : Except RingFault Unit :=
  if ∀ block ∈ blocks, block.offset + block.length ≤ length then .ok () else .error .indexOutside

namespace RingWords

variable (memory : RingMemory) (q : RingWords)

def remainder : Except RingFault Unit :=
  if q.capacity = 0 then .error .remainderByZero else .ok ()

inductive Op where
  | write (data : ByteSpan)
  | pop (size : UInt64)
  | peek (size : UInt64)
  | getReadBuffers
  | allocateWrite (size : UInt64)
  | consume (size : UInt64)
  | canReadSize
  | canWriteSize
  | clear
  | getWriteableBuffers
  | commitWrite (size : UInt64)
deriving DecidableEq

/-- The ring after an operation, or what goes wrong in it. -/
def Op.run : Op → Except RingFault RingWords
  | .write data =>
      if q.capacity - q.size < data.size then pure q
      else do
        memory.copies q.buffer.length data.bytes.length 0 (q.blocks q.head data.size)
        q.remainder
        pure ((q.write data).getD q)
  | .pop size =>
      if q.size < size then pure q
      else do
        memory.copies q.buffer.length size.toNat 0 (q.blocks q.tail size)
        q.remainder
        pure (((q.pop size).map Prod.snd).getD q)
  | .peek size =>
      if q.size < size then pure q
      else do
        memory.copies q.buffer.length size.toNat 0 (q.blocks q.tail size)
        pure q
  | .getReadBuffers => do
      views q.buffer.length q.getReadBuffers.2
      pure q
  | .allocateWrite size =>
      if q.capacity - q.size < size then pure q
      else do
        views q.buffer.length (q.blocks q.head size)
        q.remainder
        pure (((q.allocateWrite size).map Prod.snd).getD q)
  | .consume size =>
      if q.size < size then pure q
      else do
        q.remainder
        pure ((q.consume size).getD q)
  | .canReadSize => pure q
  | .canWriteSize => pure q
  | .clear => pure q.clear
  | .getWriteableBuffers => do
      views q.buffer.length q.getWriteableBuffers.2
      pure q
  | .commitWrite size =>
      if q.capacity - q.size < size then pure q
      else do
        q.remainder
        pure ((q.commitWrite size).getD q)

def runAll : RingWords → List Op → Except RingFault RingWords
  | q, [] => pure q
  | q, op :: ops => do
      let q' ← op.run memory q
      runAll q' ops

/-- The operations that pass every test of a ring without capacity and then need one. -/
def Op.zeroLength : Op → Bool
  | .write data => data.size == 0
  | .pop size => size == 0
  | .peek size => memory == .vector && size == 0
  | .allocateWrite size => size == 0
  | .consume size => size == 0
  | .commitWrite size => size == 0
  | _ => false

def Index (index : UInt64) : Prop :=
  index.toNat < q.buffer.length ∨ q.buffer.length = 0 ∧ index = 0

structure InBounds : Prop where
  capacity : q.capacity.toNat = q.buffer.length
  size_le : q.size.toNat ≤ q.buffer.length
  head : q.Index q.head
  tail : q.Index q.tail

variable {q : RingWords} {memory : RingMemory}

theorem Index.le {index : UInt64} (h : q.Index index) : index.toNat ≤ q.buffer.length := by
  rcases h with hlt | ⟨hzero, rfl⟩
  · exact Nat.le_of_lt hlt
  · exact Nat.zero_le _

theorem toNat_sub_capacity (hcapacity : q.capacity.toNat = q.buffer.length) {n : UInt64}
    (hn : n.toNat ≤ q.buffer.length) : (q.capacity - n).toNat = q.buffer.length - n.toNat := by
  rw [UInt64.toNat_sub_of_le, hcapacity]
  rw [UInt64.le_iff_toNat_le, hcapacity]
  exact hn

theorem blocks_eq (hcapacity : q.capacity.toNat = q.buffer.length) {index : UInt64}
    (hindex : index.toNat ≤ q.buffer.length) (n : UInt64) :
    q.blocks index n =
      if n.toNat > min n.toNat (q.buffer.length - index.toNat) then
        [⟨index.toNat, min n.toNat (q.buffer.length - index.toNat)⟩,
          ⟨0, n.toNat - min n.toNat (q.buffer.length - index.toNat)⟩]
      else [⟨index.toNat, min n.toNat (q.buffer.length - index.toNat)⟩] := by
  have hrest := toNat_sub_capacity hcapacity hindex
  have hsecond : (n - min n (q.capacity - index)).toNat =
      n.toNat - min n.toNat (q.buffer.length - index.toNat) := by
    rw [UInt64.toNat_sub_of_le, Holds.toNat_min, hrest]
    rw [UInt64.le_iff_toNat_le, Holds.toNat_min]
    exact Nat.min_le_left _ _
  simp only [blocks, gt_iff_lt, UInt64.lt_iff_toNat_lt, Holds.toNat_min, hrest, hsecond]

theorem address_of_lt {length offset : Nat} (h : offset < length) :
    memory.address length offset = .ok () := by
  cases memory with
  | vector => exact if_pos h
  | span => exact if_pos (Nat.le_of_lt h)

theorem copies_blocks (hcapacity : q.capacity.toNat = q.buffer.length)
    (hpos : 0 < q.buffer.length) {index n : UInt64} (hindex : q.Index index)
    (hn : n.toNat ≤ q.buffer.length) :
    memory.copies q.buffer.length n.toNat 0 (q.blocks index n) = .ok () := by
  have hlt : index.toNat < q.buffer.length := by
    rcases hindex with hlt | ⟨hzero, -⟩
    · exact hlt
    · omega
  have hfirst : ¬ (q.buffer.length < index.toNat + min n.toNat (q.buffer.length - index.toNat) ∨
      n.toNat < 0 + min n.toNat (q.buffer.length - index.toNat)) := by omega
  rw [blocks_eq hcapacity (Nat.le_of_lt hlt)]
  split
  · have hsecond : ¬ (q.buffer.length <
          0 + (n.toNat - min n.toNat (q.buffer.length - index.toNat)) ∨
        n.toNat < 0 + min n.toNat (q.buffer.length - index.toNat) +
          (n.toNat - min n.toNat (q.buffer.length - index.toNat))) := by omega
    simp only [RingMemory.copies, address_of_lt hlt, address_of_lt hpos, if_neg hfirst,
      if_neg hsecond]
    rfl
  · simp only [RingMemory.copies, address_of_lt hlt, if_neg hfirst]
    rfl

theorem views_blocks (hcapacity : q.capacity.toNat = q.buffer.length) {index n : UInt64}
    (hindex : index.toNat ≤ q.buffer.length) (hn : n.toNat ≤ q.buffer.length) :
    views q.buffer.length (q.blocks index n) = .ok () := by
  refine if_pos ?_
  rw [blocks_eq hcapacity hindex]
  split
  · refine List.forall_mem_cons.mpr ⟨?_, List.forall_mem_singleton.mpr ?_⟩
    · simp only
      omega
    · simp only
      omega
  · refine List.forall_mem_singleton.mpr ?_
    simp only
    omega

theorem views_getReadBuffers (h : q.InBounds) :
    views q.buffer.length q.getReadBuffers.2 = .ok () := by
  unfold getReadBuffers
  split
  · exact if_pos (List.forall_mem_nil _)
  · exact views_blocks h.capacity h.tail.le h.size_le

theorem views_getWriteableBuffers (h : q.InBounds) :
    views q.buffer.length q.getWriteableBuffers.2 = .ok () := by
  have hroom := toNat_sub_capacity h.capacity h.size_le
  unfold getWriteableBuffers
  split
  · exact if_pos (List.forall_mem_nil _)
  · exact views_blocks h.capacity h.head.le (by omega)

theorem Index.advance (hcapacity : q.capacity.toNat = q.buffer.length)
    (hpos : 0 < q.buffer.length) (index : UInt64) : q.Index (index % q.capacity) := by
  left
  rw [UInt64.toNat_mod, hcapacity]
  exact Nat.mod_lt _ hpos

theorem remainder_of_pos (hpos : 0 < q.capacity) : q.remainder = .ok () :=
  if_neg (UInt64.ne_of_lt hpos).symm

def Kept (q q' : RingWords) : Prop := q'.InBounds ∧ q'.capacity = q.capacity

theorem Kept.getD {result : Option RingWords} (h : q.InBounds)
    (hresult : ∀ q', result = some q' → Kept q q') : Kept q (result.getD q) := by
  cases result with
  | none => exact ⟨h, rfl⟩
  | some q' => exact hresult q' rfl

theorem kept_commitWrite {q' : RingWords} {n : UInt64} (h : q.InBounds)
    (hpos : 0 < q.buffer.length) (hcommit : q.commitWrite n = some q') : Kept q q' := by
  obtain ⟨hfit, heq⟩ := Option.ite_none_left_eq_some.mp hcommit
  cases heq
  have hroom := toNat_sub_capacity h.capacity h.size_le
  rw [UInt64.lt_iff_toNat_lt, hroom] at hfit
  have hsize := h.size_le
  have hlt := q.capacity.toNat_lt
  rw [h.capacity] at hlt
  refine ⟨⟨h.capacity, ?_, Index.advance h.capacity hpos _, h.tail⟩, rfl⟩
  rw [UInt64.toNat_add, Nat.mod_eq_of_lt (by omega)]
  simp only
  omega

theorem kept_consume {q' : RingWords} {n : UInt64} (h : q.InBounds)
    (hpos : 0 < q.buffer.length) (hconsume : q.consume n = some q') : Kept q q' := by
  obtain ⟨hfit, heq⟩ := Option.ite_none_left_eq_some.mp hconsume
  cases heq
  rw [UInt64.lt_iff_toNat_lt] at hfit
  have hsize := h.size_le
  refine ⟨⟨h.capacity, ?_, h.head, Index.advance h.capacity hpos _⟩, rfl⟩
  rw [UInt64.toNat_sub_of_le _ _ (UInt64.le_iff_toNat_le.mpr (by omega))]
  simp only
  omega

theorem length_fill (cells : List Nat) (data : List Byte) :
    (q.fill cells data).buffer.length = q.buffer.length := length_scatter ..

theorem kept_fill (h : q.InBounds) (cells : List Nat) (data : List Byte) :
    (q.fill cells data).InBounds := by
  refine ⟨?_, ?_, ?_, ?_⟩
  · rw [length_fill]
    exact h.capacity
  · rw [length_fill]
    exact h.size_le
  · rw [Index, length_fill]
    exact h.head
  · rw [Index, length_fill]
    exact h.tail

theorem kept_write {q' : RingWords} {data : ByteSpan} (h : q.InBounds)
    (hpos : 0 < q.buffer.length) (hwrite : q.write data = some q') : Kept q q' := by
  obtain ⟨-, hcommit⟩ := Option.ite_none_left_eq_some.mp hwrite
  have hfill := kept_fill h (spanCells (q.blocks q.head data.size)) data.bytes
  obtain ⟨hin, hcapacity⟩ := kept_commitWrite hfill (by rwa [length_fill]) hcommit
  exact ⟨hin, hcapacity⟩

theorem kept_allocateWrite {q' : RingWords} {n : UInt64} (h : q.InBounds)
    (hpos : 0 < q.buffer.length) (hallocate : (q.allocateWrite n).map Prod.snd = some q') :
    Kept q q' := by
  obtain ⟨result, hresult, rfl⟩ := Option.map_eq_some_iff.mp hallocate
  obtain ⟨-, hmap⟩ := Option.ite_none_left_eq_some.mp hresult
  obtain ⟨q'', hcommit, rfl⟩ := Option.map_eq_some_iff.mp hmap
  exact kept_commitWrite h hpos hcommit

theorem kept_pop {q' : RingWords} {n : UInt64} (h : q.InBounds)
    (hpos : 0 < q.buffer.length) (hpop : (q.pop n).map Prod.snd = some q') : Kept q q' := by
  obtain ⟨result, hresult, rfl⟩ := Option.map_eq_some_iff.mp hpop
  unfold pop at hresult
  split at hresult
  · rename_i bytes q'' hpeek hconsume
    cases hresult
    exact kept_consume h hpos hconsume
  · cases hresult

theorem index_zero (q : RingWords) : q.Index 0 := by
  rcases Nat.eq_zero_or_pos q.buffer.length with hnone | hsome
  · exact .inr ⟨hnone, rfl⟩
  · exact .inl hsome

theorem kept_clear (h : q.InBounds) : Kept q q.clear :=
  ⟨⟨h.capacity, Nat.zero_le _, index_zero _, index_zero _⟩, rfl⟩

theorem kept_guarded {full : Prop} [Decidable full] {body : Except RingFault RingWords}
    (h : q.InBounds) (hbody : ¬ full → ∃ q', body = .ok q' ∧ Kept q q') :
    ∃ q', (if full then pure q else body) = .ok q' ∧ Kept q q' := by
  by_cases hfull : full
  · exact ⟨q, if_pos hfull, h, rfl⟩
  · rw [if_neg hfull]
    exact hbody hfull

theorem run_of_pos (h : q.InBounds) (hpos : 0 < q.capacity) (op : Op) :
    ∃ q', op.run memory q = .ok q' ∧ Kept q q' := by
  have hlength : 0 < q.buffer.length := h.capacity ▸ UInt64.lt_iff_toNat_lt.mp hpos
  have hroom := toNat_sub_capacity h.capacity h.size_le
  have hsize := h.size_le
  have hremainder := remainder_of_pos hpos
  cases op with
  | write data =>
    refine kept_guarded h fun hfit => ?_
    rw [UInt64.lt_iff_toNat_lt, hroom] at hfit
    have hcopies : memory.copies q.buffer.length data.size.toNat 0
        (q.blocks q.head data.size) = .ok () :=
      copies_blocks h.capacity hlength h.head (by omega)
    rw [data.toNat_size] at hcopies
    rw [hcopies, hremainder]
    exact ⟨_, rfl, .getD h fun q' => kept_write h hlength⟩
  | pop n =>
    refine kept_guarded h fun hfit => ?_
    rw [UInt64.lt_iff_toNat_lt] at hfit
    rw [copies_blocks h.capacity hlength h.tail (by omega), hremainder]
    exact ⟨_, rfl, .getD h fun q' => kept_pop h hlength⟩
  | peek n =>
    refine kept_guarded h fun hfit => ?_
    rw [UInt64.lt_iff_toNat_lt] at hfit
    rw [copies_blocks h.capacity hlength h.tail (by omega)]
    exact ⟨_, rfl, h, rfl⟩
  | allocateWrite n =>
    refine kept_guarded h fun hfit => ?_
    rw [UInt64.lt_iff_toNat_lt, hroom] at hfit
    rw [views_blocks h.capacity h.head.le (by omega), hremainder]
    exact ⟨_, rfl, .getD h fun q' => kept_allocateWrite h hlength⟩
  | consume n =>
    refine kept_guarded h fun _ => ?_
    rw [hremainder]
    exact ⟨_, rfl, .getD h fun q' => kept_consume h hlength⟩
  | commitWrite n =>
    refine kept_guarded h fun _ => ?_
    rw [hremainder]
    exact ⟨_, rfl, .getD h fun q' => kept_commitWrite h hlength⟩
  | getReadBuffers =>
    rw [Op.run, views_getReadBuffers h]
    exact ⟨_, rfl, h, rfl⟩
  | getWriteableBuffers =>
    rw [Op.run, views_getWriteableBuffers h]
    exact ⟨_, rfl, h, rfl⟩
  | canReadSize | canWriteSize => exact ⟨_, rfl, h, rfl⟩
  | clear => exact ⟨_, rfl, kept_clear h⟩

theorem copies_zero (hcapacity : q.capacity.toNat = q.buffer.length) (hnone : q.buffer.length = 0) :
    memory.copies q.buffer.length (0 : UInt64).toNat 0 (q.blocks 0 0) =
      if memory = .vector then .error .indexOutside else .ok () := by
  rw [blocks_eq hcapacity (Nat.zero_le _), hnone]
  cases memory with
  | _ => rfl

def Settles (q : RingWords) (result : Except RingFault RingWords) : Bool → Prop
  | true => ∀ q', result ≠ .ok q'
  | false => ∃ q', result = .ok q' ∧ Kept q q'

theorem settles_guarded {room n : UInt64} {body : Except RingFault RingWords} (h : q.InBounds)
    (hroom : room = 0) (hbody : n = 0 → ∀ q', body ≠ .ok q') :
    Settles q (if room < n then pure q else body) (n == 0) := by
  rw [hroom]
  by_cases hn : n = 0
  · rw [if_neg (by rw [hn]; exact UInt64.lt_irrefl 0), beq_iff_eq.mpr hn]
    exact hbody hn
  · rw [if_pos (UInt64.pos_iff_ne_zero.mpr hn), beq_eq_false_iff_ne.mpr hn]
    exact ⟨q, rfl, h, rfl⟩

theorem remainder_ne_ok (hzero : q.capacity = 0) (checks : Except RingFault Unit)
    (r q' : RingWords) :
    (do checks; q.remainder; pure r) ≠ .ok q' := by
  have hremainder : q.remainder = .error .remainderByZero := if_pos hzero
  rw [hremainder]
  cases checks with
  | error fault => rintro ⟨⟩
  | ok => rintro ⟨⟩

theorem settles_peek (h : q.InBounds) (hnone : q.buffer.length = 0) (hsize : q.size = 0)
    (n : UInt64) : Settles q ((Op.peek n).run memory q) ((Op.peek n).zeroLength memory) := by
  have htail : q.tail = 0 := by
    rcases h.tail with hlt | ⟨-, htail⟩
    · omega
    · exact htail
  cases memory with
  | vector =>
    refine settles_guarded h hsize fun hn q' => ?_
    rw [hn, htail, copies_zero h.capacity hnone]
    rintro ⟨⟩
  | span =>
    refine kept_guarded h fun hfit => ?_
    have hn : n = 0 := by
      by_contra hne
      rw [hsize] at hfit
      exact hfit (UInt64.pos_iff_ne_zero.mpr hne)
    refine ⟨q, ?_, h, rfl⟩
    rw [hn, htail, copies_zero h.capacity hnone]
    rfl

theorem settles_of_zero (h : q.InBounds) (hzero : q.capacity = 0) (op : Op) :
    Settles q (op.run memory q) (op.zeroLength memory) := by
  have hnone : q.buffer.length = 0 := by
    rw [← h.capacity, hzero]
    rfl
  have hsize : q.size = 0 := by
    have hle := h.size_le
    apply UInt64.toNat_inj.mp
    rw [hnone] at hle
    exact Nat.le_zero.mp hle
  have hroom : q.capacity - q.size = 0 := by
    rw [hzero, hsize]
    rfl
  cases op with
  | write data => exact settles_guarded h hroom fun _ => remainder_ne_ok hzero _ _
  | pop n => exact settles_guarded h hsize fun _ => remainder_ne_ok hzero _ _
  | allocateWrite n => exact settles_guarded h hroom fun _ => remainder_ne_ok hzero _ _
  | consume n => exact settles_guarded h hsize fun _ => remainder_ne_ok hzero (.ok ()) _
  | commitWrite n => exact settles_guarded h hroom fun _ => remainder_ne_ok hzero (.ok ()) _
  | peek n => exact settles_peek h hnone hsize n
  | getReadBuffers =>
    rw [Op.run, views_getReadBuffers h]
    exact ⟨_, rfl, h, rfl⟩
  | getWriteableBuffers =>
    rw [Op.run, views_getWriteableBuffers h]
    exact ⟨_, rfl, h, rfl⟩
  | canReadSize | canWriteSize => exact ⟨_, rfl, h, rfl⟩
  | clear => exact ⟨_, rfl, kept_clear h⟩

theorem settles_run (h : q.InBounds) (op : Op) :
    Settles q (op.run memory q) (q.capacity == 0 && op.zeroLength memory) := by
  by_cases hzero : q.capacity = 0
  · rw [beq_iff_eq.mpr hzero, Bool.true_and]
    exact settles_of_zero h hzero op
  · rw [beq_eq_false_iff_ne.mpr hzero, Bool.false_and]
    exact run_of_pos h (UInt64.pos_iff_ne_zero.mpr hzero) op

/-- A sequence of operations goes through when there is a capacity or none of them is one of
length zero. -/
theorem runAll_iff (h : q.InBounds) (ops : List Op) : (∃ q', runAll memory q ops = .ok q') ↔
    0 < q.capacity ∨ ∀ op ∈ ops, op.zeroLength memory = false := by
  induction ops generalizing q with
  | nil => exact ⟨fun _ => .inr (List.forall_mem_nil _), fun _ => ⟨q, rfl⟩⟩
  | cons op ops ih =>
    have hsettles : Settles q (op.run memory q) (q.capacity == 0 && op.zeroLength memory) :=
      settles_run h op
    cases hfails : (q.capacity == 0 && op.zeroLength memory) with
    | true =>
      rw [hfails] at hsettles
      obtain ⟨hzero, hlength⟩ := Bool.and_eq_true_iff.mp hfails
      rw [beq_iff_eq] at hzero
      constructor
      · rintro ⟨q', hq'⟩
        cases hrun : op.run memory q with
        | error fault =>
          rw [runAll, hrun] at hq'
          cases hq'
        | ok q'' => exact absurd hrun (hsettles q'')
      · rintro (hpos | hnone)
        · rw [hzero] at hpos
          exact absurd hpos (UInt64.lt_irrefl 0)
        · rw [hnone op List.mem_cons_self] at hlength
          cases hlength
    | false =>
      rw [hfails] at hsettles
      obtain ⟨q', hrun, hin, hcapacity⟩ := hsettles
      have hsame : runAll memory q (op :: ops) = runAll memory q' ops := by
        rw [runAll, hrun]
        rfl
      rw [hsame, ih hin, hcapacity, List.forall_mem_cons]
      rcases Bool.and_eq_false_iff.mp hfails with hne | hlength
      · have hpos : 0 < q.capacity := UInt64.pos_iff_ne_zero.mpr (beq_eq_false_iff_ne.mp hne)
        exact ⟨fun _ => .inl hpos, fun _ => .inl hpos⟩
      · rw [hlength]
        simp only [true_and]

theorem inBounds_external (externalBuffer : ByteSpan) : (external externalBuffer).InBounds where
  capacity := externalBuffer.toNat_size
  size_le := Nat.zero_le _
  head := index_zero _
  tail := index_zero _

theorem inBounds_circle (capacity : UInt64) : (circle capacity).InBounds where
  capacity := List.length_replicate.symm
  size_le := Nat.zero_le _
  head := index_zero _
  tail := index_zero _

/-- A sequence of operations on a fresh ring takes no remainder by zero, stays inside the
buffer and inside its spans, exactly if the ring has a capacity or no operation of the
sequence is one of length zero that needs one. -/
theorem operations_total_iff (ops : List Op) :
    (∀ capacity, (∃ q, runAll .vector (circle capacity) ops = .ok q) ↔
      0 < capacity ∨ ∀ op ∈ ops, op.zeroLength .vector = false) ∧
    (∀ externalBuffer, (∃ q, runAll .span (external externalBuffer) ops = .ok q) ↔
      0 < externalBuffer.size ∨ ∀ op ∈ ops, op.zeroLength .span = false) :=
  ⟨fun capacity => runAll_iff (inBounds_circle capacity) ops,
    fun externalBuffer => runAll_iff (inBounds_external externalBuffer) ops⟩

/-- Nothing is written to a ring without capacity, or consumed, or looked at. -/
theorem not_operations_total :
    runAll .span (external ⟨[], by decide⟩) [.write ⟨[], by decide⟩] =
        .error .remainderByZero ∧
      runAll .vector (circle 0) [.consume 0] = .error .remainderByZero ∧
      runAll .vector (circle 0) [.peek 0] = .error .indexOutside :=
  ⟨rfl, rfl, rfl⟩

end RingWords

end FastPort.Commons
