import FastPort.Core.RioBufferManager
import FastPort.Foundation.Transition

/-! A `RioBufferManager` with the slices it has handed out, through any sequence of
its calls, and what the 32-bit arithmetic of `AllocateSlice` does in it. -/
namespace FastPort.Core

open FastPort.Foundation.Transition

structure Handed where
  slice : RioBufferSlice
  registration : Nat
deriving DecidableEq, Repr

/-- The manager beside its history: `registration` counts the calls of `Finalize`,
`live` are the slices handed out and not given back, `idle` those given back and not
handed out again, `grown` the bytes of the registered chunk that were handed out by
growing. -/
structure SlicePool where
  manager : RioBufferManager
  registration : Nat
  live : List Handed
  idle : List Handed
  grown : Nat
deriving DecidableEq, Repr

/-- The calls, with what the operating system answers to `Initialize` and with the
place of the slice that is given back. -/
inductive ManagerCall where
  | initializeBuffer (memory registered : UInt64) (totalSize : UInt32)
  | allocateSlice (size : UInt32)
  | deallocateSlice (index : Nat)
  | finalize
deriving DecidableEq, Repr

namespace RioBufferManager

def HasFree (m : RioBufferManager) (size : UInt32) : Prop :=
  ∃ slice ∈ m.freeList, slice.length = size

instance (m : RioBufferManager) (size : UInt32) : Decidable (m.HasFree size) :=
  inferInstanceAs (Decidable (∃ slice ∈ m.freeList, slice.length = size))

theorem hasFree_of_find? {m : RioBufferManager} {size : UInt32} {slice : RioBufferSlice}
    (h : (m.freeList.find? fun slice => slice.length = size) = some slice) : m.HasFree size := by
  have hlength := List.find?_some h
  exact ⟨slice, List.mem_of_find?_eq_some h, of_decide_eq_true hlength⟩

/-- The sum in the bound check stays below 2^32, or is not needed, or still exceeds
the pool when it has wrapped. -/
def NoWrap (m : RioBufferManager) (size : UInt32) : Prop :=
  m.HasFree size ∨ m.currentOffset.toNat + size.toNat < 2 ^ 32 ∨
    m.totalSize < m.currentOffset + size

instance (m : RioBufferManager) (size : UInt32) : Decidable (m.NoWrap size) :=
  inferInstanceAs (Decidable (_ ∨ _ ∨ _))

/-- `AllocateSlice` in unbounded arithmetic: a new slice ends within the pool and moves
the offset by its length; a failure changes nothing. -/
structure Exact (m : RioBufferManager) (size : UInt32) (outSlice : RioBufferSlice) : Prop where
  grows : ∀ slice m', m.allocateSlice size outSlice = (true, slice, m') → ¬ m.HasFree size →
    slice.offset.toNat + slice.length.toNat ≤ m.totalSize.toNat ∧
      m'.currentOffset.toNat = m.currentOffset.toNat + slice.length.toNat
  fails : ∀ slice m', m.allocateSlice size outSlice = (false, slice, m') →
    slice = outSlice ∧ m' = m

theorem sum_le_totalSize {m : RioBufferManager} {size : UInt32}
    (hbound : m.currentOffset.toNat + size.toNat < 2 ^ 32)
    (hroom : m.currentOffset + size ≤ m.totalSize) :
    m.currentOffset.toNat + size.toNat ≤ m.totalSize.toNat ∧
      (m.currentOffset + size).toNat = m.currentOffset.toNat + size.toNat := by
  have hsum : (m.currentOffset + size).toNat = m.currentOffset.toNat + size.toNat := by
    rw [UInt32.toNat_add, Nat.mod_eq_of_lt hbound]
  rw [UInt32.le_iff_toNat_le, hsum] at hroom
  exact ⟨hroom, hsum⟩

/-- The call is exact if and only if the sum does not wrap. -/
theorem exact_iff (m : RioBufferManager) (size : UInt32) (outSlice : RioBufferSlice) :
    m.Exact size outSlice ↔ m.NoWrap size := by
  rw [NoWrap]
  have hfails : ∀ slice m', m.allocateSlice size outSlice = (false, slice, m') →
      slice = outSlice ∧ m' = m := fun slice m' hcall => (allocateSlice_failed hcall).2.2
  rcases m.allocateSlice_cases size outSlice with ⟨slice, m', hcall, halloc⟩ | ⟨hcall, -, hfull⟩
  · cases halloc with
    | reuse hfree =>
      have hhas := hasFree_of_find? hfree
      constructor
      · intro _
        exact .inl hhas
      · intro _
        exact ⟨fun _ _ _ hnone => absurd hhas hnone, hfails⟩
    | grow hnone hroom =>
      have hlacks : ¬ m.HasFree size := fun ⟨free, hfree, hlength⟩ => hnone free hfree hlength
      constructor
      · intro hexact
        have hinside := (hexact.grows _ _ hcall hlacks).1
        have htotal := m.totalSize.toNat_lt
        simp only at hinside
        exact .inr (.inl (by omega))
      · rintro (hhas | hbound | hover)
        · exact absurd hhas hlacks
        · obtain ⟨hle, hsum⟩ := sum_le_totalSize hbound hroom
          constructor
          · intro slice' m'' hcall' _
            cases hcall.symm.trans hcall'
            exact ⟨hle, hsum⟩
          · exact hfails
        · exact absurd hroom (UInt32.not_le.mpr hover)
  · constructor
    · intro _
      exact .inr (.inr hfull)
    · intro _
      constructor
      · intro slice m' hcall'
        cases hcall.symm.trans hcall'
      · exact hfails

end RioBufferManager

namespace SlicePool

def initial : SlicePool := ⟨RioBufferManager.default, 0, [], [], 0⟩

def allocated (w : SlicePool) (size : UInt32) (slice : RioBufferSlice) (m' : RioBufferManager) :
    SlicePool where
  manager := m'
  registration := w.registration
  live := w.live ++ [⟨slice, w.registration⟩]
  idle := w.idle.eraseP fun handed => slice == handed.slice
  grown := if w.manager.HasFree size then w.grown else w.grown + size.toNat

def givenBack (w : SlicePool) (index : Nat) (handed : Handed) : SlicePool :=
  { w with
    manager := w.manager.deallocateSlice handed.slice
    live := w.live.eraseIdx index
    idle := w.idle ++ [handed] }

def finalized (w : SlicePool) : SlicePool :=
  { w with
    manager := w.manager.finalize
    registration := w.registration + 1
    grown := 0 }

def step (w : SlicePool) : ManagerCall → Option SlicePool
  | .initializeBuffer memory registered totalSize =>
      some { w with manager := (w.manager.initializeBuffer memory registered totalSize).2 }
  | .allocateSlice size =>
      match w.manager.allocateSlice size .default with
      | (true, slice, m') => some (w.allocated size slice m')
      | (false, _, m') => some { w with manager := m' }
  | .deallocateSlice index =>
      match w.live[index]? with
      | none => none
      | some handed => some (w.givenBack index handed)
  | .finalize => some w.finalized

def system : System SlicePool ManagerCall where
  init w := w = initial
  step := step

/-- The calls of `AllocateSlice` are made where the sum does not wrap. -/
def noWrap (w : SlicePool) : ManagerCall → Prop
  | .allocateSlice size => w.manager.NoWrap size
  | _ => True

instance noWrapDecidable (w : SlicePool) (call : ManagerCall) : Decidable (noWrap w call) :=
  match call with
  | .allocateSlice size => inferInstanceAs (Decidable (w.manager.NoWrap size))
  | .initializeBuffer _ _ _ => inferInstanceAs (Decidable True)
  | .deallocateSlice _ => inferInstanceAs (Decidable True)
  | .finalize => inferInstanceAs (Decidable True)

inductive Called (w : SlicePool) : ManagerCall → SlicePool → Prop where
  | kept (memory registered : UInt64) (totalSize : UInt32) (hmapped : w.manager.pBuffer ≠ 0) :
      Called w (.initializeBuffer memory registered totalSize) w
  | refused (memory registered : UInt64) (totalSize : UInt32) (bufferId : UInt64)
      (hunmapped : w.manager.pBuffer = 0)
      (hid : bufferId = w.manager.bufferId ∨ bufferId = rioInvalidBufferId) :
      Called w (.initializeBuffer memory registered totalSize)
        { w with manager := { w.manager with pBuffer := 0, bufferId := bufferId } }
  | registered (memory registered : UInt64) (totalSize : UInt32)
      (hunmapped : w.manager.pBuffer = 0) (hmemory : memory ≠ 0)
      (hid : registered ≠ rioInvalidBufferId) :
      Called w (.initializeBuffer memory registered totalSize)
        { w with
          manager := { w.manager with
            pBuffer := memory, bufferId := registered, totalSize := totalSize,
            currentOffset := 0 } }
  | failed (size : UInt32) : Called w (.allocateSlice size) w
  | allocated {size : UInt32} {slice : RioBufferSlice} {m' : RioBufferManager}
      (halloc : w.manager.Allocated size slice m') :
      Called w (.allocateSlice size) (w.allocated size slice m')
  | givenBack {index : Nat} {handed : Handed} (hlive : w.live[index]? = some handed) :
      Called w (.deallocateSlice index) (w.givenBack index handed)
  | finalized : Called w .finalize w.finalized

theorem called_of_step {w w' : SlicePool} {call : ManagerCall} (h : w.step call = some w') :
    w.Called call w' := by
  cases call with
  | initializeBuffer memory registered totalSize =>
    simp only [step, RioBufferManager.initializeBuffer, Option.some_inj] at h
    split at h
    · rename_i hmapped
      subst h
      exact .kept memory registered totalSize hmapped
    · rename_i hunmapped
      have hnull := not_not.mp hunmapped
      split at h
      · subst h
        exact .refused memory registered totalSize _ hnull (.inl rfl)
      · rename_i hmemory
        split at h
        · rename_i hinvalid
          subst h
          exact .refused memory registered totalSize _ hnull (.inr hinvalid)
        · rename_i hid
          subst h
          exact .registered memory registered totalSize hnull hmemory hid
  | allocateSlice size =>
    simp only [step] at h
    split at h
    · rename_i halloc
      cases h
      exact .allocated (RioBufferManager.allocated_of_allocateSlice halloc)
    · rename_i hfailed
      cases h
      obtain ⟨-, -, -, rfl⟩ := RioBufferManager.allocateSlice_failed hfailed
      exact .failed size
  | deallocateSlice index =>
    simp only [step] at h
    split at h
    · cases h
    · rename_i hlive
      cases h
      exact .givenBack hlive
  | finalize =>
    cases h
    exact .finalized

variable {ok : SlicePool → ManagerCall → Prop} {w : SlicePool}

theorem idle_eq_freeList (h : w.idle.map Handed.slice = w.manager.freeList) {w' : SlicePool}
    {call : ManagerCall} (hcall : w.Called call w') :
    w'.idle.map Handed.slice = w'.manager.freeList := by
  cases hcall with
  | kept => exact h
  | refused => exact h
  | registered => exact h
  | failed => exact h
  | allocated halloc =>
    cases halloc with
    | reuse hfree =>
      change (w.idle.eraseP fun handed => _ == handed.slice).map Handed.slice = _
      rw [List.erase_eq_eraseP, ← h, List.eraseP_map]
      rfl
    | grow hnone hroom =>
      change (w.idle.eraseP _).map Handed.slice = w.manager.freeList
      rw [List.eraseP_of_forall_not, h]
      intro handed hhanded heq
      apply hnone handed.slice
      · rw [← h]
        exact List.mem_map_of_mem hhanded
      · rw [← eq_of_beq heq]
  | @givenBack index handed hlive =>
    simp [givenBack, RioBufferManager.deallocateSlice, h]
  | finalized => exact h

def Unmapped (m : RioBufferManager) : Prop :=
  m.pBuffer = 0 → m.bufferId = rioInvalidBufferId ∧ m.totalSize = 0 ∧ m.currentOffset = 0

theorem unmapped (hw : system.Reach noWrap w) : Unmapped w.manager := by
  apply hw.invariant (I := fun w => Unmapped w.manager)
  · intro w hinit
    cases hinit
    exact fun _ => ⟨rfl, rfl, rfl⟩
  · intro w call w' _ ih hok hstep
    cases called_of_step hstep with
    | kept => exact ih
    | refused memory registered totalSize bufferId hunmapped hid =>
      intro _
      obtain ⟨hinvalid, htotal, hoffset⟩ := ih hunmapped
      exact ⟨hid.elim (fun h => h.trans hinvalid) id, htotal, hoffset⟩
    | registered memory registered totalSize hunmapped hmemory hid =>
      intro hnull
      exact absurd hnull hmemory
    | failed => exact ih
    | allocated halloc =>
      cases halloc with
      | reuse hfree => exact ih
      | grow hnone hroom =>
        intro hnull
        obtain ⟨hinvalid, htotal, hoffset⟩ := ih hnull
        rw [htotal, hoffset] at hroom
        refine ⟨hinvalid, htotal, ?_⟩
        change w.manager.currentOffset + _ = 0
        rw [hoffset]
        exact UInt32.le_antisymm hroom (UInt32.zero_le)
    | givenBack hlive => exact ih
    | finalized =>
      rw [finalized, RioBufferManager.finalize_eq]
      exact fun _ => ⟨rfl, rfl, rfl⟩

/-- As long as no sum has wrapped, the offset is what was handed out by growing, and
that is within the pool. -/
theorem currentOffset_eq (hw : system.Reach noWrap w) :
    w.manager.currentOffset.toNat = w.grown ∧ w.grown ≤ w.manager.totalSize.toNat := by
  apply hw.invariant (I := fun w =>
    w.manager.currentOffset.toNat = w.grown ∧ w.grown ≤ w.manager.totalSize.toNat)
  · intro w hinit
    cases hinit
    exact ⟨rfl, Nat.le_refl _⟩
  · intro w call w' hreach ih hok hstep
    cases called_of_step hstep with
    | kept => exact ih
    | refused => exact ih
    | registered memory registered totalSize hunmapped hmemory hid =>
      have hzero := (unmapped hreach hunmapped).2.2
      rw [hzero] at ih
      change (0 : UInt32).toNat = w.grown ∧ w.grown ≤ totalSize.toNat
      exact ⟨ih.1, by rw [← ih.1]; exact Nat.zero_le _⟩
    | failed => exact ih
    | @allocated size _ _ halloc =>
      cases halloc with
      | reuse hfree =>
        have hhas := RioBufferManager.hasFree_of_find? hfree
        simp only [SlicePool.allocated, if_pos hhas]
        exact ih
      | grow hnone hroom =>
        have hlacks : ¬ w.manager.HasFree size :=
          fun ⟨free, hfree, hlength⟩ => hnone free hfree hlength
        have hbound : w.manager.currentOffset.toNat + size.toNat < 2 ^ 32 := by
          rcases hok with hhas | hbound | hover
          · exact absurd hhas hlacks
          · exact hbound
          · exact absurd hroom (UInt32.not_le.mpr hover)
        obtain ⟨hle, hsum⟩ := RioBufferManager.sum_le_totalSize hbound hroom
        simp only [SlicePool.allocated, if_neg hlacks]
        rw [hsum, ih.1] at *
        exact ⟨rfl, hle⟩
    | givenBack hlive => exact ih
    | finalized => exact ⟨rfl, Nat.le_refl _⟩

/-- `AllocateSlice` is exact in a state if and only if its sum does not wrap there; in a
run in which none wraps, the offset counts the bytes handed out and never passes the end
of the pool. -/
theorem allocateSlice_exact (hw : system.Reach noWrap w) :
    (w.manager.currentOffset.toNat = w.grown ∧ w.grown ≤ w.manager.totalSize.toNat) ∧
      ∀ m size outSlice, RioBufferManager.Exact m size outSlice ↔ m.NoWrap size := by
  constructor
  · exact currentOffset_eq hw
  · exact RioBufferManager.exact_iff

theorem reach_of_runUnder {w : SlicePool} {calls : List ManagerCall}
    [∀ w call, Decidable (ok w call)] (h : system.runUnder ok initial calls = some w) :
    system.Reach ok w :=
  System.Reach.of_runUnder (.init rfl) h

theorem allocateSlice_exact_small : ∃ w : SlicePool, w.grown = 16 ∧
    w.manager.currentOffset.toNat = w.grown ∧
    (∀ outSlice, w.manager.Exact 4080 outSlice) := by
  obtain ⟨w, hrun, htest⟩ := System.exists_of_runUnder system noWrap initial
    [.initializeBuffer 65536 7 4096, .allocateSlice 16]
    (fun w => w.grown == 16 && decide (w.manager.NoWrap 4080)) (by decide)
  obtain ⟨hgrown, hnoWrap⟩ := Bool.and_eq_true_iff.mp htest
  obtain ⟨⟨hoffset, -⟩, hexact⟩ := allocateSlice_exact (reach_of_runUnder hrun)
  refine ⟨w, eq_of_beq hgrown, hoffset, ?_⟩
  intro outSlice
  exact (hexact w.manager 4080 outSlice).mpr (of_decide_eq_true hnoWrap)

/-- Behind 16 bytes of a pool of one megabyte, a request of 2^32 - 8 is granted. -/
theorem not_allocateSlice_exact : ¬ ∀ w : SlicePool, system.Reach System.free w →
    ∀ size outSlice, w.manager.Exact size outSlice := by
  intro hexact
  obtain ⟨w, hrun, htest⟩ := System.exists_of_runUnder system System.free initial
    [.initializeBuffer 65536 7 1048576, .allocateSlice 16]
    (fun w => decide (¬ w.manager.NoWrap 0xFFFFFFF8)) (by decide)
  have hnoWrap := (RioBufferManager.exact_iff _ _ _).mp
    (hexact w (reach_of_runUnder hrun) 0xFFFFFFF8 RioBufferSlice.default)
  exact of_decide_eq_true htest hnoWrap

end SlicePool

end FastPort.Core
