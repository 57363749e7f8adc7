import FastPort.Core.RioSlices

/-! Several registrations one after the other. `Finalize` keeps the free list and the
count, so what a later registration hands out is its own only as long as it does not
take a slice of an earlier one from there. -/
namespace FastPort.Core

open FastPort.Foundation.Transition

namespace RioBufferManager

structure Current (m : RioBufferManager) (slice : RioBufferSlice) : Prop where
  bufferId : slice.bufferId = m.bufferId
  registered : m.bufferId ≠ rioInvalidBufferId
  mapped : m.pBuffer ≠ 0
  inside : slice.offset.toNat + slice.length.toNat ≤ m.totalSize.toNat
  pData : slice.pData = m.pBuffer + slice.offset.toUInt64

end RioBufferManager

namespace SlicePool

open RioBufferManager

/-- `Finalize` is called with no slice out. `AllocateSlice` finds as its first free slice
of the size, if there is one, a slice of this registration; else its sum does not wrap and
it does not ask an unregistered manager for nothing. -/
def owned (w : SlicePool) : ManagerCall → Prop
  | .allocateSlice size =>
      (∀ handed ∈ w.idle.find? fun handed => handed.slice.length = size,
        handed.registration = w.registration) ∧
      w.manager.NoWrap size ∧ (w.manager.HasFree size ∨ size ≠ 0 ∨ w.manager.pBuffer ≠ 0) ∧
      w.live.length + 1 < 2 ^ 32
  | .finalize => w.live = []
  | .initializeBuffer _ _ _ => True
  | .deallocateSlice _ => True

instance ownedDecidable (w : SlicePool) (call : ManagerCall) : Decidable (owned w call) :=
  match call with
  | .allocateSlice _ => inferInstanceAs (Decidable (_ ∧ _ ∧ _ ∧ _))
  | .finalize => inferInstanceAs (Decidable (w.live = []))
  | .initializeBuffer _ _ _ => inferInstanceAs (Decidable True)
  | .deallocateSlice _ => inferInstanceAs (Decidable True)

theorem noWrap_of_owned (w : SlicePool) (call : ManagerCall) (h : owned w call) :
    noWrap w call := by
  cases call with
  | allocateSlice size => exact h.2.1
  | initializeBuffer => trivial
  | deallocateSlice => trivial
  | finalize => trivial

structure Owned (w : SlicePool) : Prop where
  idle : w.idle.map Handed.slice = w.manager.freeList
  registered : w.manager.pBuffer ≠ 0 → w.manager.bufferId ≠ rioInvalidBufferId
  live : ∀ handed ∈ w.live, handed.registration = w.registration
  past : ∀ handed ∈ w.idle, handed.registration ≤ w.registration
  liveCurrent : ∀ handed ∈ w.live, w.manager.Current handed.slice
  idleCurrent : ∀ handed ∈ w.idle, handed.registration = w.registration →
    w.manager.Current handed.slice
  count : w.manager.allocatedCount.toNat = w.live.length

variable {w w' : SlicePool}

theorem Owned.remap (h : Owned w) (hunmapped : w.manager.pBuffer = 0) {m' : RioBufferManager}
    (hfree : m'.freeList = w.manager.freeList)
    (hcount : m'.allocatedCount = w.manager.allocatedCount)
    (hregistered : m'.pBuffer ≠ 0 → m'.bufferId ≠ rioInvalidBufferId) :
    Owned { w with manager := m' } where
  idle := h.idle.trans hfree.symm
  registered := hregistered
  live := h.live
  past := h.past
  liveCurrent := fun handed hmem => absurd hunmapped (h.liveCurrent handed hmem).mapped
  idleCurrent := fun handed hmem hsame =>
    absurd hunmapped (h.idleCurrent handed hmem hsame).mapped
  count := by rw [hcount]; exact h.count

theorem Owned.allocated (h : Owned w) {size : UInt32} {slice : RioBufferSlice}
    {m' : RioBufferManager} (hidle : (w.allocated size slice m').idle.map Handed.slice =
      m'.freeList) (hslice : w.manager.Current slice)
    (hid : m'.bufferId = w.manager.bufferId) (hbase : m'.pBuffer = w.manager.pBuffer)
    (htotal : m'.totalSize = w.manager.totalSize)
    (hcount : m'.allocatedCount = w.manager.allocatedCount + 1)
    (hfew : w.live.length + 1 < 2 ^ 32) : Owned (w.allocated size slice m') := by
  have hmoved : ∀ {piece : RioBufferSlice}, w.manager.Current piece → m'.Current piece := by
    intro piece hpiece
    constructor
    · rw [hid]
      exact hpiece.bufferId
    · rw [hid]
      exact hpiece.registered
    · rw [hbase]
      exact hpiece.mapped
    · rw [htotal]
      exact hpiece.inside
    · rw [hbase]
      exact hpiece.pData
  have hkept : ∀ handed ∈ (w.allocated size slice m').idle, handed ∈ w.idle := by
    intro handed hmem
    exact List.mem_of_mem_eraseP hmem
  constructor
  · exact hidle
  · intro hmapped
    exact (hmoved hslice).registered
  · intro handed hmem
    rcases List.mem_append.mp hmem with hold | hnew
    · exact h.live handed hold
    · rw [List.mem_singleton.mp hnew]
      rfl
  · intro handed hmem
    exact h.past handed (hkept handed hmem)
  · intro handed hmem
    rcases List.mem_append.mp hmem with hold | hnew
    · exact hmoved (h.liveCurrent handed hold)
    · rw [List.mem_singleton.mp hnew]
      exact hmoved hslice
  · intro handed hmem hsame
    exact hmoved (h.idleCurrent handed (hkept handed hmem) hsame)
  · change m'.allocatedCount.toNat = (w.live ++ [_]).length
    rw [hcount, List.length_append, List.length_singleton, UInt32.toNat_add, h.count]
    exact Nat.mod_eq_of_lt hfew

/-- The slice that a call of `AllocateSlice` is about to hand out. -/
theorem Owned.current (h : Owned w) (hunmapped : Unmapped w.manager) {size : UInt32}
    (hok : owned w (.allocateSlice size)) {slice : RioBufferSlice} {m' : RioBufferManager}
    (halloc : w.manager.Allocated size slice m') : w.manager.Current slice := by
  obtain ⟨hfirst, hbound, hasked, -⟩ := hok
  cases halloc with
  | reuse hfree =>
    rw [← h.idle, List.find?_map] at hfree
    obtain ⟨handed, hfound, rfl⟩ := Option.map_eq_some_iff.mp hfree
    exact h.idleCurrent handed (List.mem_of_find?_eq_some hfound) (hfirst handed hfound)
  | grow hnone hroom =>
    have hlacks : ¬ w.manager.HasFree size :=
      fun ⟨free, hmem, hlength⟩ => hnone free hmem hlength
    have hmapped : w.manager.pBuffer ≠ 0 := by
      intro hnull
      obtain ⟨-, htotal, hoffset⟩ := hunmapped hnull
      rw [htotal, hoffset, UInt32.zero_add] at hroom
      rcases hasked with hhas | hpos | hmapped
      · exact hlacks hhas
      · exact hpos (UInt32.le_antisymm hroom UInt32.zero_le)
      · exact hmapped hnull
    have hsum : w.manager.currentOffset.toNat + size.toNat < 2 ^ 32 := by
      rcases hbound with hhas | hbound | hover
      · exact absurd hhas hlacks
      · exact hbound
      · exact absurd hroom (UInt32.not_le.mpr hover)
    exact ⟨rfl, h.registered hmapped, hmapped, (sum_le_totalSize hsum hroom).1, rfl⟩

theorem Owned.givenBack (h : Owned w) {index : Nat} {handed : Handed}
    (hlive : w.live[index]? = some handed) : Owned (w.givenBack index handed) := by
  have hmem := List.mem_of_getElem? hlive
  obtain ⟨hlt, -⟩ := List.getElem?_eq_some_iff.mp hlive
  have hkept : ∀ other ∈ w.live.eraseIdx index, other ∈ w.live := by
    intro other hother
    exact List.mem_of_mem_eraseIdx hother
  constructor
  · simp [SlicePool.givenBack, deallocateSlice, h.idle]
  · exact h.registered
  · intro other hother
    exact h.live other (hkept other hother)
  · intro other hother
    rcases List.mem_append.mp hother with hold | hnew
    · exact h.past other hold
    · rw [List.mem_singleton.mp hnew]
      exact Nat.le_of_eq (h.live handed hmem)
  · intro other hother
    have hcurrent := h.liveCurrent other (hkept other hother)
    exact ⟨hcurrent.bufferId, hcurrent.registered, hcurrent.mapped, hcurrent.inside,
      hcurrent.pData⟩
  · intro other hother hsame
    have hcurrent : w.manager.Current other.slice := by
      rcases List.mem_append.mp hother with hold | hnew
      · exact h.idleCurrent other hold hsame
      · rw [List.mem_singleton.mp hnew]
        exact h.liveCurrent handed hmem
    exact ⟨hcurrent.bufferId, hcurrent.registered, hcurrent.mapped, hcurrent.inside,
      hcurrent.pData⟩
  · have hone : (1 : UInt32) ≤ w.manager.allocatedCount := by
      rw [UInt32.le_iff_toNat_le, h.count]
      exact Nat.succ_le_of_lt (Nat.lt_of_le_of_lt (Nat.zero_le _) hlt)
    have hpositive : 0 < w.manager.allocatedCount := by
      rw [UInt32.lt_iff_toNat_lt, h.count]
      exact Nat.lt_of_le_of_lt (Nat.zero_le _) hlt
    simp only [SlicePool.givenBack, deallocateSlice, gt_iff_lt, hpositive, if_true,
      List.length_eraseIdx_of_lt hlt]
    rw [UInt32.toNat_sub_of_le _ _ hone, h.count]
    rfl

theorem Owned.finalized (h : Owned w) (hnone : w.live = []) : Owned w.finalized := by
  have hcount := h.count
  rw [hnone] at hcount
  rw [SlicePool.finalized, finalize_eq]
  constructor
  · exact h.idle
  · exact fun hmapped => absurd rfl hmapped
  · simp [hnone]
  · intro handed hmem
    exact Nat.le_succ_of_le (h.past handed hmem)
  · simp [hnone]
  · intro handed hmem hsame
    have hpast := h.past handed hmem
    simp only at hsame
    omega
  · rw [hnone]
    exact hcount

theorem owned_of_reach (hw : system.Reach owned w) : Owned w := by
  apply hw.invariant (I := Owned)
  · intro w hinit
    cases hinit
    constructor <;> simp [initial, RioBufferManager.default]
  · intro w call w' hreach ih hok hstep
    have hcall := called_of_step hstep
    have hidle := idle_eq_freeList ih.idle hcall
    cases hcall with
    | kept => exact ih
    | refused memory registered totalSize bufferId hunmapped hid =>
      exact ih.remap hunmapped rfl rfl fun hmapped => absurd rfl hmapped
    | registered memory registered totalSize hunmapped hmemory hid =>
      exact ih.remap hunmapped rfl rfl fun _ => hid
    | failed => exact ih
    | allocated halloc =>
      have hslice := ih.current (unmapped (hreach.mono noWrap_of_owned)) hok halloc
      cases halloc with
      | reuse hfree => exact ih.allocated hidle hslice rfl rfl rfl rfl hok.2.2.2
      | grow hnone hroom => exact ih.allocated hidle hslice rfl rfl rfl rfl hok.2.2.2
    | givenBack hlive => exact ih.givenBack hlive
    | finalized => exact ih.finalized hok

/-- The slices that are out, and every slice an owned call hands out, are slices of the
registered and mapped chunk, and `GetAllocatedCount` counts those of this registration. -/
structure OfRegistration (w : SlicePool) : Prop where
  live : ∀ handed ∈ w.live, handed.registration = w.registration ∧
    w.manager.Current handed.slice
  serves : ∀ size outSlice slice m', owned w (.allocateSlice size) →
    w.manager.allocateSlice size outSlice = (true, slice, m') → w.manager.Current slice
  allocated : w.manager.getAllocatedCount.toNat =
    (w.live.filter fun handed => handed.registration = w.registration).length

theorem slices_ofRegistration (hw : system.Reach owned w) : OfRegistration w := by
  have howned := owned_of_reach hw
  constructor
  · intro handed hmem
    exact ⟨howned.live handed hmem, howned.liveCurrent handed hmem⟩
  · intro size outSlice slice m' hok halloc
    exact howned.current (unmapped (hw.mono noWrap_of_owned)) hok
      (allocated_of_allocateSlice halloc)
  · rw [List.filter_eq_self.mpr fun handed hmem => decide_eq_true (howned.live handed hmem)]
    exact howned.count

theorem slices_ofRegistration_again : ∃ w : SlicePool, w.registration = 1 ∧
    w.live.length = 1 ∧ OfRegistration w := by
  obtain ⟨w, hrun, htest⟩ := System.exists_of_runUnder system owned initial
    [.initializeBuffer 65536 7 4096, .allocateSlice 16, .deallocateSlice 0, .finalize,
      .initializeBuffer 131072 9 4096, .allocateSlice 32]
    (fun w => w.registration == 1 && w.live.length == 1) (by decide)
  obtain ⟨hregistration, hlive⟩ := Bool.and_eq_true_iff.mp htest
  exact ⟨w, eq_of_beq hregistration, eq_of_beq hlive,
    slices_ofRegistration (reach_of_runUnder hrun)⟩

/-- The second registration asks for the size that was given back to the first. -/
theorem not_slices_ofRegistration : ¬ ∀ w : SlicePool, system.Reach System.free w →
    ∀ size outSlice slice m', w.manager.allocateSlice size outSlice = (true, slice, m') →
      slice.bufferId = m'.bufferId := by
  intro hcurrent
  obtain ⟨w, hrun, htest⟩ := System.exists_of_runUnder system System.free initial
    [.initializeBuffer 65536 7 4096, .allocateSlice 16, .deallocateSlice 0, .finalize,
      .initializeBuffer 131072 9 4096]
    (fun w => w.manager.allocateSlice 16 .default == (true, ⟨7, 0, 16, 65536⟩,
      ⟨9, 131072, 4096, 0, 1, []⟩)) (by decide)
  have hsame := hcurrent w (reach_of_runUnder hrun) 16 _ _ _ (eq_of_beq htest)
  revert hsame
  decide

end SlicePool

end FastPort.Core
