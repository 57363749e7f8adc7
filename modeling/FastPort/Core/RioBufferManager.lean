import Mathlib.Data.List.Basic
import Mathlib.Algebra.Group.Nat.Defs

/-! `RioBufferManager`: one registered chunk of memory, cut into slices by a bump
offset, with a free list of the slices that were given back. Each member function
runs under the manager's mutex. -/
namespace FastPort.Core

def rioInvalidBufferId : UInt64 := 0xFFFFFFFF

structure RioBufferSlice where
  bufferId : UInt64
  offset : UInt32
  length : UInt32
  pData : UInt64
deriving DecidableEq, Repr

def RioBufferSlice.default : RioBufferSlice := ⟨rioInvalidBufferId, 0, 0, 0⟩

structure RioBufferManager where
  bufferId : UInt64
  pBuffer : UInt64
  totalSize : UInt32
  currentOffset : UInt32
  allocatedCount : UInt32
  freeList : List RioBufferSlice
deriving DecidableEq, Repr

namespace RioBufferManager

def default : RioBufferManager := ⟨rioInvalidBufferId, 0, 0, 0, 0, []⟩

/-- `Initialize`: `memory` is what `VirtualAlloc` returns and `registered` what
`RIORegisterBuffer` does. -/
def initializeBuffer (m : RioBufferManager) (memory registered : UInt64) (totalSize : UInt32) :
    Bool × RioBufferManager :=
  if m.pBuffer ≠ 0 then (true, m)
  else if memory = 0 then (false, { m with pBuffer := 0 })
  else if registered = rioInvalidBufferId then
    (false, { m with pBuffer := 0, bufferId := registered })
  else (true, { m with
    pBuffer := memory, bufferId := registered, totalSize := totalSize, currentOffset := 0 })

/-- A slice of the same size from the free list, the first there is, else a new one behind
the last. The out parameter keeps its value when there is neither. -/
def allocateSlice (m : RioBufferManager) (size : UInt32) (outSlice : RioBufferSlice) :
    Bool × RioBufferSlice × RioBufferManager :=
  match m.freeList.find? fun slice => slice.length = size with
  | some slice =>
      (true, slice, { m with
        freeList := m.freeList.eraseP fun slice => slice.length = size
        allocatedCount := m.allocatedCount + 1 })
  | none =>
      if m.currentOffset + size > m.totalSize then (false, outSlice, m)
      else
        (true, ⟨m.bufferId, m.currentOffset, size, m.pBuffer + m.currentOffset.toUInt64⟩, { m with
          currentOffset := m.currentOffset + size
          allocatedCount := m.allocatedCount + 1 })

def deallocateSlice (m : RioBufferManager) (slice : RioBufferSlice) : RioBufferManager :=
  { m with
    freeList := m.freeList ++ [slice]
    allocatedCount := if m.allocatedCount > 0 then m.allocatedCount - 1 else m.allocatedCount }

def getAllocatedCount (m : RioBufferManager) : UInt32 := m.allocatedCount

def getFreeCount (m : RioBufferManager) : UInt32 := UInt32.ofNat m.freeList.length

/-- `Finalize`. The free list and the count are not touched. -/
def finalize (m : RioBufferManager) : RioBufferManager :=
  { m with
    bufferId := if m.bufferId ≠ rioInvalidBufferId then rioInvalidBufferId else m.bufferId
    pBuffer := if m.pBuffer ≠ 0 then 0 else m.pBuffer
    totalSize := 0
    currentOffset := 0 }

/-- What a successful `AllocateSlice` does: it takes the first free slice of the size,
or, when there is none, a new slice behind the last. -/
inductive Allocated (m : RioBufferManager) (size : UInt32) :
    RioBufferSlice → RioBufferManager → Prop where
  | reuse {slice : RioBufferSlice}
      (hfree : (m.freeList.find? fun slice => slice.length = size) = some slice) :
      Allocated m size slice { m with
        freeList := m.freeList.erase slice
        allocatedCount := m.allocatedCount + 1 }
  | grow (hnone : ∀ slice ∈ m.freeList, slice.length ≠ size)
      (hroom : m.currentOffset + size ≤ m.totalSize) :
      Allocated m size
        ⟨m.bufferId, m.currentOffset, size, m.pBuffer + m.currentOffset.toUInt64⟩
        { m with
          currentOffset := m.currentOffset + size
          allocatedCount := m.allocatedCount + 1 }

theorem eraseP_eq_erase {α : Type} [DecidableEq α] {l : List α} {p : α → Bool} {a : α}
    (h : l.find? p = some a) : l.eraseP p = l.erase a := by
  induction l with
  | nil => cases h
  | cons b l ih =>
    by_cases hb : p b
    · rw [List.find?_cons_of_pos hb] at h
      cases h
      rw [List.eraseP_cons_of_pos hb, List.erase_cons_head]
    · rw [List.find?_cons_of_neg hb] at h
      have hne : ¬ (b == a) = true := by
        intro heq
        rw [eq_of_beq heq] at hb
        exact hb (List.find?_some h)
      rw [List.eraseP_cons_of_neg hb, List.erase_cons_tail hne, ih h]

/-- `AllocateSlice` hands out a slice, or there is no free slice of the size and no room behind
the last, and nothing changes. -/
theorem allocateSlice_cases (m : RioBufferManager) (size : UInt32) (outSlice : RioBufferSlice) :
    (∃ slice m', m.allocateSlice size outSlice = (true, slice, m') ∧ m.Allocated size slice m') ∨
      m.allocateSlice size outSlice = (false, outSlice, m) ∧
        (∀ slice ∈ m.freeList, slice.length ≠ size) ∧ m.totalSize < m.currentOffset + size := by
  unfold allocateSlice
  cases hfree : m.freeList.find? fun slice => slice.length = size with
  | some slice =>
    have hreuse : m.Allocated size slice _ := .reuse hfree
    rw [← eraseP_eq_erase hfree] at hreuse
    exact .inl ⟨slice, _, rfl, hreuse⟩
  | none =>
    have hnone : ∀ slice ∈ m.freeList, slice.length ≠ size := fun slice hslice hlength =>
      List.find?_eq_none.mp hfree slice hslice (decide_eq_true hlength)
    dsimp only
    split
    · rename_i hfull
      exact .inr ⟨rfl, hnone, hfull⟩
    · rename_i hroom
      exact .inl ⟨_, _, rfl, .grow hnone (UInt32.not_lt.mp hroom)⟩

theorem allocated_of_allocateSlice {m m' : RioBufferManager} {size : UInt32}
    {outSlice slice : RioBufferSlice} (h : m.allocateSlice size outSlice = (true, slice, m')) :
    m.Allocated size slice m' := by
  rcases m.allocateSlice_cases size outSlice with ⟨slice', m'', hcall, halloc⟩ | ⟨hcall, -⟩
  · cases hcall.symm.trans h
    exact halloc
  · cases hcall.symm.trans h

theorem allocateSlice_failed {m m' : RioBufferManager} {size : UInt32}
    {outSlice slice : RioBufferSlice} (h : m.allocateSlice size outSlice = (false, slice, m')) :
    (∀ slice ∈ m.freeList, slice.length ≠ size) ∧ m.totalSize < m.currentOffset + size ∧
      slice = outSlice ∧ m' = m := by
  rcases m.allocateSlice_cases size outSlice with ⟨slice', m'', hcall, -⟩ | ⟨hcall, hnone, hfull⟩
  · cases hcall.symm.trans h
  · cases hcall.symm.trans h
    exact ⟨hnone, hfull, rfl, rfl⟩

theorem finalize_eq (m : RioBufferManager) :
    m.finalize = { m with
      bufferId := rioInvalidBufferId, pBuffer := 0, totalSize := 0, currentOffset := 0 } := by
  unfold finalize
  congr 1
  · split
    · rfl
    · rename_i hinvalid
      exact not_not.mp hinvalid
  · split
    · rfl
    · rename_i hnull
      exact not_not.mp hnull

structure Serves (m : RioBufferManager) (size : UInt32) (slice : RioBufferSlice) : Prop where
  bufferId : slice.bufferId = m.bufferId
  length : slice.length = size
  inside : slice.offset.toNat + slice.length.toNat ≤ m.totalSize.toNat
  pData : slice.pData = m.pBuffer + slice.offset.toUInt64

structure SameChunk (m m' : RioBufferManager) : Prop where
  bufferId : m'.bufferId = m.bufferId
  pBuffer : m'.pBuffer = m.pBuffer
  totalSize : m'.totalSize = m.totalSize

theorem Serves.congr {m m' : RioBufferManager} {size : UInt32} {slice : RioBufferSlice}
    (h : m.Serves size slice) (hsame : m.SameChunk m') : m'.Serves size slice where
  bufferId := h.bufferId.trans hsame.bufferId.symm
  length := h.length
  inside := hsame.totalSize ▸ h.inside
  pData := hsame.pBuffer ▸ h.pData

theorem allocateSlice_of_fits {m : RioBufferManager} {size : UInt32} (outSlice : RioBufferSlice)
    (hfree : m.freeList = []) (hfits : m.currentOffset.toNat + size.toNat ≤ m.totalSize.toNat) :
    ∃ slice m', m.allocateSlice size outSlice = (true, slice, m') ∧ m.Serves size slice ∧
      m.SameChunk m' ∧ m'.freeList = [] ∧
      m'.currentOffset.toNat = m.currentOffset.toNat + size.toNat := by
  have hsum : (m.currentOffset + size).toNat = m.currentOffset.toNat + size.toNat := by
    have htotal := m.totalSize.toNat_lt
    rw [UInt32.toNat_add, Nat.mod_eq_of_lt (by omega)]
  have hroom : ¬ m.currentOffset + size > m.totalSize := by
    rw [gt_iff_lt, UInt32.lt_iff_toNat_lt, hsum]
    omega
  unfold allocateSlice
  rw [hfree, List.find?_nil]
  dsimp only
  rw [if_neg hroom]
  exact ⟨_, _, rfl, ⟨rfl, rfl, hfits, rfl⟩, ⟨rfl, rfl, rfl⟩, rfl, hsum⟩

theorem allocateSlice_of_full {m : RioBufferManager} {size : UInt32} (outSlice : RioBufferSlice)
    (hfree : m.freeList = []) (hbound : m.currentOffset.toNat + size.toNat < 2 ^ 32)
    (hfull : m.totalSize.toNat < m.currentOffset.toNat + size.toNat) :
    m.allocateSlice size outSlice = (false, outSlice, m) := by
  have hover : m.currentOffset + size > m.totalSize := by
    rw [gt_iff_lt, UInt32.lt_iff_toNat_lt, UInt32.toNat_add, Nat.mod_eq_of_lt hbound]
    exact hfull
  unfold allocateSlice
  rw [hfree, List.find?_nil]
  exact if_pos hover

end RioBufferManager

end FastPort.Core
