import FastPort.Commons.ByteQueue

/-! Direct writes: between `GetWriteableBuffers` and the matching `CommitWrite` the kernel
fills the blocks that the former gave, while the content may be drained. -/
namespace FastPort.Commons

open FastPort.Foundation FastPort.Foundation.Circular

/-- What may come before `CommitWrite`: the operations that drain, and a byte that the
kernel stores at an index of the concatenated blocks. -/
inductive WindowStep where
  | peek (n : UInt64)
  | pop (n : UInt64)
  | consume (n : UInt64)
  | getReadBuffers
  | kernel (index : Nat) (byte : Byte)

namespace RingWords

def writeable (w : RingWords) : List Nat := spanCells w.getWriteableBuffers.2

def readable (w : RingWords) : List Nat := spanCells w.getReadBuffers.2

def windowStep (cells : List Nat) (w : RingWords) : WindowStep → RingWords
  | .peek n => (w.apply (.peek n)).2
  | .pop n => (w.apply (.pop n)).2
  | .consume n => (w.apply (.consume n)).2
  | .getReadBuffers => (w.apply .getReadBuffers).2
  | .kernel index byte => w.fill cells[index]?.toList [byte]

/-- What the steps make of a ring whose blocks were asked for at the beginning. -/
def during (w : RingWords) (steps : List WindowStep) : RingWords :=
  steps.foldl (windowStep w.writeable) w

end RingWords

/-- What is left of a ring: the head has not moved, and nothing was added. -/
structure RingBuffer.Drained (q q' : RingBuffer) : Prop where
  capacity : q'.capacity = q.capacity
  head : q'.head = q.head
  size : q'.size ≤ q.size
  content : q'.content <:+ q.content

namespace RingBuffer.Drained

variable {q q' q'' : RingBuffer}

theorem refl (q : RingBuffer) : Drained q q :=
  ⟨rfl, rfl, Nat.le_refl _, List.suffix_refl _⟩

theorem canWriteSize (h : Drained q q') : q.canWriteSize ≤ q'.canWriteSize := by
  have hcap := h.capacity
  have hsize := h.size
  unfold RingBuffer.canWriteSize
  omega

theorem cells (h : Drained q q') {n : Nat} :
    window q.capacity (q.tail + q.size) n = window q'.capacity (q'.tail + q'.size) n := by
  have hhead : (q'.tail + q'.size) % q'.capacity = (q.tail + q.size) % q.capacity :=
    q'.head_eq.symm.trans (h.head.trans q.head_eq)
  rw [← window_mod, ← hhead, ← h.capacity, window_mod]

theorem disjoint (h : Drained q q') : List.Disjoint (window q'.capacity q'.tail q'.size)
    (window q.capacity (q.tail + q.size) q.canWriteSize) := by
  have hroom := h.canWriteSize
  have hle := q'.size_add_canWriteSize
  rw [h.cells]
  exact disjoint_window (by omega)

theorem consume (h : Drained q q') {n : Nat} (hconsume : q'.consume n = some q'') :
    Drained q q'' := by
  obtain ⟨-, hbuffer, -, hsize⟩ := consume_eq_some hconsume
  refine ⟨?_, (head_consume hconsume).trans h.head, ?_, ?_⟩
  · rw [← h.capacity, RingBuffer.capacity, hbuffer, RingBuffer.capacity]
  · have hle := h.size
    omega
  · rw [content_consume hconsume]
    exact (List.drop_suffix n _).trans h.content

theorem kernel (h : Drained q q') {cells : List Nat} (data : List Byte)
    (hcells : ∀ c ∈ cells, c ∈ window q.capacity (q.tail + q.size) q.canWriteSize) :
    Drained q (q'.fill cells data) := by
  refine ⟨(fill_capacity cells data).trans h.capacity, h.head, h.size, ?_⟩
  have hkeep : (q'.fill cells data).content = q'.content := by
    unfold RingBuffer.content
    rw [fill_capacity, fill_tail, fill_size, fill_buffer]
    exact gather_scatter_disjoint _ _ fun c hc hin => h.disjoint hc (hcells c hin)
  rw [hkeep]
  exact h.content

theorem commitWrite (h : Drained q q') {n : Nat} (hn : n ≤ q.canWriteSize) :
    ∃ q'', q'.commitWrite n = some q'' ∧ q''.content = q'.content ++
      gather q'.buffer (window q.capacity (q.tail + q.size) n) := by
  obtain ⟨q'', hcommit⟩ := exists_commitWrite (hn.trans h.canWriteSize)
  rw [h.cells]
  exact ⟨q'', hcommit, content_commitWrite hcommit⟩

end RingBuffer.Drained

def Holds.Left (q : RingBuffer) (w' : RingWords) : Prop :=
  ∃ q', Holds w' q' ∧ RingBuffer.Drained q q'

theorem Holds.writeable {w : RingWords} {q : RingBuffer} (h : Holds w q) :
    w.writeable = window q.capacity (q.tail + q.size) q.canWriteSize := by
  unfold RingWords.writeable
  rw [h.getWriteableBuffers.2, RingBuffer.spanCells_getWriteableBuffers]

theorem Holds.readable {w : RingWords} {q : RingBuffer} (h : Holds w q) :
    w.readable = window q.capacity q.tail q.size := by
  unfold RingWords.readable
  rw [h.getReadBuffers.2, RingBuffer.spanCells_getReadBuffers]

namespace Holds.Left

variable {w w' : RingWords} {q : RingBuffer}

theorem consume (h : Holds.Left q w') (n : UInt64) :
    Holds.Left q (w'.apply (.consume n)).2 := by
  obtain ⟨q', hholds, hdrained⟩ := h
  have hrel := hholds.consume n
  simp only [RingWords.apply]
  cases hhigh : q'.consume n.toNat with
  | none =>
    rw [hhigh] at hrel
    cases hlow : w'.consume n with
    | none => exact ⟨q', hholds, hdrained⟩
    | some w'' => rw [hlow] at hrel; cases hrel
  | some q'' =>
    rw [hhigh] at hrel
    cases hlow : w'.consume n with
    | none => rw [hlow] at hrel; cases hrel
    | some w'' =>
      rw [hlow] at hrel
      cases hrel with
      | some hholds' => exact ⟨q'', hholds', hdrained.consume hhigh⟩

theorem pop (h : Holds.Left q w') (n : UInt64) : Holds.Left q (w'.apply (.pop n)).2 := by
  have hconsume := h.consume n
  simp only [RingWords.apply, RingWords.pop] at hconsume ⊢
  cases hpeek : w'.peek n with
  | none => exact h
  | some bytes =>
    cases hlow : w'.consume n with
    | none => exact h
    | some w'' =>
      rw [hlow] at hconsume
      exact hconsume

theorem step (h : Holds.Left q w') (hstart : Holds w q) (step : WindowStep) :
    Holds.Left q (w'.windowStep w.writeable step) := by
  cases step with
  | peek n => exact h
  | getReadBuffers => exact h
  | pop n => exact h.pop n
  | consume n => exact h.consume n
  | kernel index byte =>
    obtain ⟨q', hholds, hdrained⟩ := h
    refine ⟨_, hholds.fill _ _, hdrained.kernel _ fun c hc => ?_⟩
    rw [← hstart.writeable]
    exact List.mem_of_getElem? (Option.mem_toList.mp hc)

theorem during (hstart : Holds w q) (steps : List WindowStep) :
    Holds.Left q (w.during steps) := by
  have hrun : ∀ w', Holds.Left q w' →
      Holds.Left q (steps.foldl (RingWords.windowStep w.writeable) w') := by
    induction steps with
    | nil => exact fun w' h => h
    | cons step steps ih => exact fun w' h => ih _ (h.step hstart step)
  exact hrun w ⟨q, hstart, .refl q⟩

end Holds.Left

/-- The blocks of a ring `w` lie in the buffer, each cell once, and apart from what is
readable in `w'`, which is what is left of the content; and `CommitWrite` of as many bytes
as the blocks hold appends the bytes that the kernel left there. -/
structure WriteWindow (w w' : RingWords) : Prop where
  length : w.writeable.length = w.getWriteableBuffers.1.toNat
  inside : ∀ c ∈ w.writeable, c < w'.buffer.length
  nodup : w.writeable.Nodup
  disjoint : List.Disjoint w'.readable w.writeable
  left : w'.content <:+ w.content
  commitWrite : ∀ n data, n ≤ w.getWriteableBuffers.1 →
    gather w'.buffer (w.writeable.take n.toNat) = data →
      ∃ w'', w'.commitWrite n = some w'' ∧ w''.content = w'.content ++ data

theorem Holds.writeWindow {w w' : RingWords} {q : RingBuffer} (hstart : Holds w q)
    (h : Holds.Left q w') : WriteWindow w w' := by
  obtain ⟨q', hholds, hdrained⟩ := h
  have hsize : w.getWriteableBuffers.1.toNat = q.canWriteSize :=
    hstart.getWriteableBuffers.1.trans RingBuffer.getWriteableBuffers_fst
  have hle := q.size_add_canWriteSize
  refine ⟨?_, ?_, ?_, ?_, ?_, ?_⟩
  · rw [hstart.writeable, length_window, hsize]
  · intro c hc
    rw [hstart.writeable] at hc
    have hlt := lt_of_mem_window hstart.pos hc
    rw [← hdrained.capacity, RingBuffer.capacity] at hlt
    rwa [hholds.buffer]
  · rw [hstart.writeable]
    exact nodup_window _ (by omega)
  · rw [hholds.readable, hstart.writeable]
    exact hdrained.disjoint
  · rw [hholds.content, hstart.content]
    exact hdrained.content
  · rintro n data hn rfl
    have hfit : n.toNat ≤ q.canWriteSize := by
      rw [← hsize]
      exact UInt64.le_iff_toNat_le.mp hn
    obtain ⟨q'', hcommit, hcontent⟩ := hdrained.commitWrite hfit
    have hrel := hholds.commitWrite n
    rw [hcommit] at hrel
    cases hlow : w'.commitWrite n with
    | none => rw [hlow] at hrel; cases hrel
    | some w'' =>
      rw [hlow] at hrel
      cases hrel with
      | some hholds' =>
        refine ⟨w'', rfl, ?_⟩
        rw [hholds'.content, hcontent, hholds.content, hstart.writeable, hholds.buffer,
          take_window _ _ hfit]

/-- The blocks stay as they are while the ring is drained, and what the kernel stores in
them is what `CommitWrite` appends. -/
theorem write_window_stable {capacity : UInt64} (hpos : 0 < capacity.toNat)
    (hlt : capacity.toNat < 2 ^ 63) {start : RingWords} (hstart : Constructed capacity start)
    (ops : List Operation) (steps : List WindowStep) :
    WriteWindow (RingWords.object.run start ops).2
      ((RingWords.object.run start ops).2.during steps) := by
  obtain ⟨-, q, hholds, -⟩ := Implements.simulates.run (hstart.implements hpos hlt) ops
  exact hholds.writeWindow (.during hholds steps)

theorem write_window_stable_drained :
    WriteWindow (RingWords.object.run (.circle 4)
        [.write ⟨[1, 2, 3], by decide⟩, .pop 1]).2
      ((RingWords.object.run (.circle 4) [.write ⟨[1, 2, 3], by decide⟩, .pop 1]).2.during
        [.kernel 0 8, .pop 2, .kernel 1 9]) :=
  write_window_stable (by decide) (by decide) .circle _ _

end FastPort.Commons
