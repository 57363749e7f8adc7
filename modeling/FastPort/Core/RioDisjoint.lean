import FastPort.Core.RioSlices
import FastPort.Foundation.Tiling

/-! One registration: the slices that are out and the free ones cut the registered
chunk, up to the offset, into pieces. -/
namespace FastPort.Core

open FastPort.Foundation.Tally FastPort.Foundation.Tiling FastPort.Foundation.Transition

/-- The bytes of the registered chunk that a slice covers. -/
def RioBufferSlice.block (slice : RioBufferSlice) : Block :=
  ⟨slice.offset.toNat, slice.length.toNat⟩

namespace SlicePool

def slices (w : SlicePool) : List RioBufferSlice :=
  w.live.map Handed.slice ++ w.manager.freeList

def blocks (w : SlicePool) : List Block :=
  w.slices.map RioBufferSlice.block

/-- The pool after `Initialize`, whatever came of it. -/
def started (memory registered : UInt64) (totalSize : UInt32) : SlicePool :=
  { initial with
    manager := (RioBufferManager.default.initializeBuffer memory registered totalSize).2 }

/-- Slices of positive size are allocated, as long as the offset fits 32 bits, and live
ones are given back. -/
def proper (w : SlicePool) : ManagerCall → Prop
  | .allocateSlice size => 0 < size ∧ w.manager.currentOffset.toNat + size.toNat < 2 ^ 32
  | .deallocateSlice _ => True
  | .initializeBuffer _ _ _ => False
  | .finalize => False

structure Cut (w : SlicePool) : Prop where
  tiles : Tiles w.manager.currentOffset.toNat w.blocks
  pos : ∀ block ∈ w.blocks, 0 < block.length
  pData : ∀ slice ∈ w.slices, slice.pData = w.manager.pBuffer + slice.offset.toUInt64
  inside : w.manager.currentOffset.toNat ≤ w.manager.totalSize.toNat
  count : w.manager.allocatedCount.toNat = w.live.length
  idle : w.idle.map Handed.slice = w.manager.freeList

variable {w w' : SlicePool}

theorem cut_started (memory registered : UInt64) (totalSize : UInt32) :
    Cut (started memory registered totalSize) := by
  have hkeeps : (started memory registered totalSize).manager.currentOffset = 0 ∧
      (started memory registered totalSize).manager.allocatedCount = 0 ∧
      (started memory registered totalSize).manager.freeList = [] := by
    unfold started RioBufferManager.initializeBuffer
    split
    · exact ⟨rfl, rfl, rfl⟩
    · split
      · exact ⟨rfl, rfl, rfl⟩
      · split <;> exact ⟨rfl, rfl, rfl⟩
  obtain ⟨hoffset, hcount, hfree⟩ := hkeeps
  have hslices : (started memory registered totalSize).slices = [] := by
    rw [slices, hfree]
    rfl
  constructor
  · rw [blocks, hslices, hoffset]
    exact tiles_zero
  · rw [blocks, hslices]
    simp
  · rw [hslices]
    simp
  · rw [hoffset]
    exact Nat.zero_le _
  · rw [hcount]
    rfl
  · rw [hfree]
    rfl

theorem Cut.length_slices_lt (h : Cut w) : w.slices.length < 2 ^ 32 := by
  have hle := h.tiles.length_le h.pos
  rw [blocks, List.length_map] at hle
  exact Nat.lt_of_le_of_lt hle w.manager.currentOffset.toNat_lt

theorem Cut.perm (h : Cut w) (hperm : w'.slices.Perm w.slices)
    (hoffset : w'.manager.currentOffset = w.manager.currentOffset)
    (htotal : w'.manager.totalSize = w.manager.totalSize)
    (hbase : w'.manager.pBuffer = w.manager.pBuffer)
    (hcount : w'.manager.allocatedCount.toNat = w'.live.length)
    (hidle : w'.idle.map Handed.slice = w'.manager.freeList) : Cut w' := by
  have hblocks : w'.blocks.Perm w.blocks := hperm.map _
  constructor
  · rw [hoffset]
    exact h.tiles.perm hblocks
  · intro block hblock
    exact h.pos block (hblocks.subset hblock)
  · intro slice hslice
    rw [hbase]
    exact h.pData slice (hperm.subset hslice)
  · rw [hoffset, htotal]
    exact h.inside
  · exact hcount
  · exact hidle

theorem succ_allocatedCount {count : UInt32} {n : Nat} (hcount : count.toNat = n)
    (hbound : n + 1 < 2 ^ 32) : (count + 1).toNat = n + 1 := by
  rw [UInt32.toNat_add, hcount]
  exact Nat.mod_eq_of_lt hbound

theorem cut_reuse (h : Cut w) {size : UInt32} {slice : RioBufferSlice}
    (hfree : (w.manager.freeList.find? fun slice => slice.length = size) = some slice)
    (hidle : (w.idle.eraseP fun handed => slice == handed.slice).map Handed.slice =
      w.manager.freeList.erase slice) :
    Cut (w.allocated size slice { w.manager with
      freeList := w.manager.freeList.erase slice
      allocatedCount := w.manager.allocatedCount + 1 }) := by
  have hperm := List.perm_cons_erase (List.mem_of_find?_eq_some hfree)
  have hmoved : (w.allocated size slice { w.manager with
      freeList := w.manager.freeList.erase slice
      allocatedCount := w.manager.allocatedCount + 1 }).slices.Perm w.slices := by
    simp only [slices, allocated, List.map_append, List.map_cons, List.map_nil,
      List.append_assoc, List.singleton_append]
    exact (hperm.symm).append_left _
  apply h.perm hmoved rfl rfl rfl ?_ hidle
  have hlength := h.length_slices_lt
  have hpos := List.length_pos_of_mem (List.mem_of_find?_eq_some hfree)
  rw [slices, List.length_append, List.length_map] at hlength
  simp only [allocated, List.length_append, List.length_singleton]
  exact succ_allocatedCount h.count (by omega)

theorem Cut.add (h : Cut w) {slice : RioBufferSlice} {length : Nat}
    (hslices : w'.slices.Perm (slice :: w.slices))
    (hblock : slice.block = ⟨w.manager.currentOffset.toNat, length⟩) (hpos : 0 < length)
    (hpData : slice.pData = w'.manager.pBuffer + slice.offset.toUInt64)
    (hbase : w'.manager.pBuffer = w.manager.pBuffer)
    (hoffset : w'.manager.currentOffset.toNat = w.manager.currentOffset.toNat + length)
    (hinside : w'.manager.currentOffset.toNat ≤ w'.manager.totalSize.toNat)
    (hcount : w'.slices.length < 2 ^ 32 → w'.manager.allocatedCount.toNat = w'.live.length)
    (hidle : w'.idle.map Handed.slice = w'.manager.freeList) : Cut w' := by
  have hblocks : w'.blocks.Perm (⟨w.manager.currentOffset.toNat, length⟩ :: w.blocks) := by
    rw [← hblock]
    exact hslices.map _
  have htiles : Tiles w'.manager.currentOffset.toNat w'.blocks := by
    rw [hoffset]
    exact (h.tiles.grow length).perm hblocks
  have hpositive : ∀ block ∈ w'.blocks, 0 < block.length := by
    intro block hmem
    rcases List.mem_cons.mp (hblocks.subset hmem) with rfl | hold
    · exact hpos
    · exact h.pos block hold
  constructor
  · exact htiles
  · exact hpositive
  · intro piece hpiece
    rcases List.mem_cons.mp (hslices.subset hpiece) with rfl | hold
    · exact hpData
    · rw [hbase]
      exact h.pData piece hold
  · exact hinside
  · apply hcount
    have hle := htiles.length_le hpositive
    rw [blocks, List.length_map] at hle
    exact Nat.lt_of_le_of_lt hle w'.manager.currentOffset.toNat_lt
  · exact hidle

theorem cut_grow (h : Cut w) {size : UInt32} (hsize : 0 < size)
    (hbound : w.manager.currentOffset.toNat + size.toNat < 2 ^ 32)
    (hroom : w.manager.currentOffset + size ≤ w.manager.totalSize) {slice : RioBufferSlice}
    (hslice : slice = ⟨w.manager.bufferId, w.manager.currentOffset, size,
      w.manager.pBuffer + w.manager.currentOffset.toUInt64⟩)
    {m' : RioBufferManager}
    (hnext : m' = { w.manager with
      currentOffset := w.manager.currentOffset + size
      allocatedCount := w.manager.allocatedCount + 1 })
    (hidle : (w.allocated size slice m').idle.map Handed.slice = m'.freeList) :
    Cut (w.allocated size slice m') := by
  obtain ⟨hle, hsum⟩ := RioBufferManager.sum_le_totalSize hbound hroom
  apply h.add
  · simp only [slices, allocated, hnext, List.map_append, List.map_cons, List.map_nil,
      List.append_assoc, List.singleton_append]
    exact List.perm_middle
  · rw [hslice]
    rfl
  · exact UInt32.lt_iff_toNat_lt.mp hsize
  · rw [hslice, allocated, hnext]
  · rw [allocated, hnext]
  · rw [allocated, hnext]
    exact hsum
  · rw [allocated, hnext]
    change (w.manager.currentOffset + size).toNat ≤ _
    rw [hsum]
    exact hle
  · intro hfew
    rw [slices, allocated, hnext, List.length_append, List.length_map,
      List.length_append, List.length_singleton] at hfew
    rw [allocated, hnext, List.length_append, List.length_singleton]
    exact succ_allocatedCount h.count (by omega)
  · exact hidle

theorem cut_givenBack (h : Cut w) {index : Nat} {handed : Handed}
    (hlive : w.live[index]? = some handed) : Cut (w.givenBack index handed) := by
  obtain ⟨hlt, hget⟩ := List.getElem?_eq_some_iff.mp hlive
  have hperm := List.getElem_cons_eraseIdx_perm hlt
  rw [hget] at hperm
  have hmoved : (w.givenBack index handed).slices.Perm w.slices := by
    have hlives := (hperm.map Handed.slice).append_right w.manager.freeList
    rw [List.map_cons] at hlives
    apply List.Perm.trans ?_ hlives
    rw [slices, givenBack, RioBufferManager.deallocateSlice, ← List.append_assoc]
    exact List.perm_append_singleton _ _
  have hpositive : 0 < w.manager.allocatedCount := by
    rw [UInt32.lt_iff_toNat_lt, h.count]
    exact Nat.lt_of_le_of_lt (Nat.zero_le _) hlt
  apply h.perm hmoved rfl rfl rfl
  · have hone : (1 : UInt32) ≤ w.manager.allocatedCount := by
      rw [UInt32.le_iff_toNat_le]
      exact UInt32.lt_iff_toNat_lt.mp hpositive
    simp only [givenBack, RioBufferManager.deallocateSlice, gt_iff_lt, hpositive, if_true,
      List.length_eraseIdx_of_lt hlt]
    rw [UInt32.toNat_sub_of_le _ _ hone, h.count]
    rfl
  · simp [givenBack, RioBufferManager.deallocateSlice, h.idle]

theorem cut {memory registered : UInt64} {totalSize : UInt32}
    (hw : (system.after (started memory registered totalSize)).Reach proper w) : Cut w := by
  apply hw.invariant (I := Cut)
  · intro w hinit
    cases hinit
    exact cut_started memory registered totalSize
  · intro w call w' _ ih hok hstep
    have hcall := called_of_step hstep
    have hidle := idle_eq_freeList ih.idle hcall
    cases hcall with
    | kept => exact ih
    | refused => exact hok.elim
    | registered => exact hok.elim
    | failed => exact ih
    | allocated halloc =>
      cases halloc with
      | reuse hfree => exact cut_reuse ih hfree hidle
      | grow hnone hroom => exact cut_grow ih hok.1 hok.2 hroom rfl rfl hidle
    | givenBack hlive => exact cut_givenBack ih hlive
    | finalized => exact hok.elim

/-- What holds of the slices of one registration: they are apart, in the pool and add up
to the offset; the counts are those of the slices out and of those given back; and a
call fails only when neither a free slice nor the tail will do, and changes nothing. -/
structure Partition (w : SlicePool) (totalSize : UInt32) : Prop where
  apart : w.blocks.Pairwise Block.Apart
  inside : ∀ slice ∈ w.slices, slice.offset.toNat + slice.length.toNat ≤ totalSize.toNat
  sum : tally (fun slice => slice.length.toNat) w.slices = w.manager.currentOffset.toNat
  pData : ∀ slice ∈ w.slices, slice.pData = w.manager.pBuffer + slice.offset.toUInt64
  allocated : w.manager.getAllocatedCount.toNat = w.live.length
  free : w.manager.getFreeCount.toNat = w.idle.length
  fails : ∀ size outSlice slice m', proper w (.allocateSlice size) →
    w.manager.allocateSlice size outSlice = (false, slice, m') →
    ¬ w.manager.HasFree size ∧
      w.manager.totalSize.toNat - w.manager.currentOffset.toNat < size.toNat ∧
      slice = outSlice ∧ m' = w.manager

/-- `Initialize` sets the size of the pool, or leaves an empty one, and no proper call
changes it. -/
theorem totalSize_eq {memory registered : UInt64} {totalSize : UInt32}
    (hw : (system.after (started memory registered totalSize)).Reach proper w) :
    w.manager.totalSize =
      if (RioBufferManager.default.initializeBuffer memory registered totalSize).1 then totalSize
      else 0 := by
  apply hw.invariant (I := fun w => w.manager.totalSize =
    if (RioBufferManager.default.initializeBuffer memory registered totalSize).1 then totalSize
    else 0)
  · intro w hinit
    cases hinit
    simp only [started, RioBufferManager.initializeBuffer]
    split
    · rename_i hmapped
      exact absurd rfl hmapped
    · split
      · rfl
      · split <;> rfl
  · intro w call w' _ ih hok hstep
    cases called_of_step hstep with
    | kept => exact ih
    | refused => exact hok.elim
    | registered => exact hok.elim
    | failed => exact ih
    | allocated halloc => cases halloc <;> exact ih
    | givenBack hlive => exact ih
    | finalized => exact hok.elim

theorem Cut.fails (h : Cut w) {size : UInt32} (hok : proper w (.allocateSlice size))
    {outSlice slice : RioBufferSlice} {m' : RioBufferManager}
    (hcall : w.manager.allocateSlice size outSlice = (false, slice, m')) :
    ¬ w.manager.HasFree size ∧
      w.manager.totalSize.toNat - w.manager.currentOffset.toNat < size.toNat ∧
      slice = outSlice ∧ m' = w.manager := by
  obtain ⟨hnone, hfull, hslice, hm⟩ := RioBufferManager.allocateSlice_failed hcall
  refine ⟨fun ⟨free, hfree, hlength⟩ => hnone free hfree hlength, ?_, hslice, hm⟩
  rw [UInt32.lt_iff_toNat_lt, UInt32.toNat_add, Nat.mod_eq_of_lt hok.2] at hfull
  have hinside := h.inside
  omega

/-- The slices of one registration are disjoint. -/
theorem slices_disjoint {memory registered : UInt64} {totalSize : UInt32}
    (hw : (system.after (started memory registered totalSize)).Reach proper w) :
    Partition w totalSize := by
  have hcut := cut hw
  have hlength := hcut.length_slices_lt
  rw [slices, List.length_append, ← hcut.idle, List.length_map, List.length_map] at hlength
  constructor
  · exact hcut.tiles.apart hcut.pos
  · intro slice hslice
    have hmem : slice.block ∈ w.blocks := List.mem_map_of_mem hslice
    have hle : w.manager.totalSize.toNat ≤ totalSize.toNat := by
      rw [totalSize_eq hw]
      split
      · exact Nat.le_refl _
      · exact Nat.zero_le _
    exact Nat.le_trans (hcut.tiles.le hmem (hcut.pos _ hmem)) (Nat.le_trans hcut.inside hle)
  · have hsum := hcut.tiles.sum
    rwa [blocks, tally_map] at hsum
  · exact hcut.pData
  · exact hcut.count
  · rw [RioBufferManager.getFreeCount, ← hcut.idle, List.length_map, UInt32.toNat_ofNat',
      Nat.mod_eq_of_lt (by omega)]
  · intro size outSlice slice m' hok hcall
    exact hcut.fails hok hcall

/-- Two slices fill the pool, the first is given back and taken again. -/
def reusing : List ManagerCall :=
  [.allocateSlice 4096, .allocateSlice 4096, .deallocateSlice 0, .allocateSlice 4096]

instance properDecidable (w : SlicePool) (call : ManagerCall) : Decidable (proper w call) :=
  match call with
  | .allocateSlice _ => inferInstanceAs (Decidable (_ ∧ _))
  | .deallocateSlice _ => inferInstanceAs (Decidable True)
  | .initializeBuffer _ _ _ => inferInstanceAs (Decidable False)
  | .finalize => inferInstanceAs (Decidable False)

theorem slices_disjoint_reusing : ∃ w : SlicePool,
    (system.after (started 65536 7 8192)).runUnder proper (started 65536 7 8192) reusing =
      some w ∧ w.live.length = 2 ∧ Partition w 8192 := by
  obtain ⟨w, hrun, hlive⟩ := System.exists_of_runUnder (system.after (started 65536 7 8192))
    proper (started 65536 7 8192) reusing (fun w => w.live.length == 2) (by decide)
  have hw : (system.after (started 65536 7 8192)).Reach proper w :=
    System.Reach.of_runUnder (.init rfl) hrun
  exact ⟨w, hrun, eq_of_beq hlive, slices_disjoint hw⟩

end SlicePool

end FastPort.Core
