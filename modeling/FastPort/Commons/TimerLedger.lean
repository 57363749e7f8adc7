import FastPort.Commons.TimerSteps
import Mathlib.Data.List.Nodup

/-! Where a timer stands: an id is given out once, its timer is created once, and from then
on the entry is on its way into the map, in it, or in the hands of the one call of
`CancelImpl` that took it out; the duty to close the handle goes with it. -/
namespace FastPort.Commons.TimerQueue

open FastPort.Foundation.Pool FastPort.Foundation.Stack FastPort.Foundation.Tally
open FastPort.Foundation.ThreadpoolTimer FastPort.Foundation.Transition

variable {ok : World → Label → Prop} {w : World} {id : TimerId}

def Shared.allocated (id : TimerId) (s : Shared) : Nat :=
  ((List.range s.nextId).filter (· ≠ kInvalidTimerId)).count id

theorem allocated_le_one (id : TimerId) (s : Shared) : s.allocated id ≤ 1 :=
  List.nodup_iff_count_le_one.mp (List.nodup_range.filter _) id

theorem allocated_invalid (s : Shared) : s.allocated kInvalidTimerId = 0 := by
  apply List.count_eq_zero_of_not_mem
  simp

theorem lt_nextId_of_allocated {s : Shared} (h : 0 < s.allocated id) : id < s.nextId := by
  have hmem := List.count_pos_iff.mp h
  exact List.mem_range.mp (List.mem_filter.mp hmem).1

theorem allocated_allocateId (id : TimerId) (s : Shared) :
    ((List.range (allocateId s.nextId).2).filter (· ≠ kInvalidTimerId)).count id =
      s.allocated id + if (allocateId s.nextId).1 = id then 1 else 0 := by
  unfold allocateId Shared.allocated
  by_cases hzero : s.nextId = kInvalidTimerId
  · simp [hzero, kInvalidTimerId, List.range_succ, List.count_singleton]
  · simp [hzero, List.range_succ, List.filter_append, List.count_append, List.count_singleton]

def Act.creates : Act → Nat
  | scheduleImpl _ _ .createTimer => 1
  | _ => 0

theorem Stepped.created {t t' : Timer} {a : Act} {next : Option Act} (h : Stepped id t a t' next) :
    t'.created = t.created ∧ next.elim 0 Act.creates = 0 := by
  cases h <;> exact ⟨rfl, rfl⟩

theorem exec_nextId (choice : Choice) (s : Shared) (f : Frame)
    (hf : ∀ p i, f ≠ .scheduleImpl p i .allocateId) : (f.exec choice s).1.nextId = s.nextId := by
  cases f with
  | userCode current => rfl
  | scheduleImpl p i pc =>
    cases pc with
    | checkState => rfl
    | allocateId => exact absurd rfl (hf p i)
  | shutdownImpl w current pc =>
    cases pc with
    | cas =>
      simp only [Frame.exec, shutdownImpl]
      split <;> rfl
    | cancel ids => cases ids <;> rfl
    | _ => rfl
  | act i a => rfl

theorem tally_creates_of_calls {acts : List Act} (hcalls : ∀ a ∈ acts, a.IsCall) :
    tally Act.creates acts = 0 := by
  rw [tally_eq_zero]
  intro a ha
  obtain ⟨w, c, rfl⟩ := hcalls a ha
  rfl

theorem created_le (id : TimerId) (hw : system.Reach ok w) :
    (w.shared.timers id).created + w.weigh (share id Act.creates) ≤ w.shared.allocated id := by
  apply Program.focus (p := program) (fun s => s) (share id Act.creates)
    (J := fun s n => (s.timers id).created + n ≤ s.allocated id) ?_ ?_ ?_ hw
  · rintro s rfl
    exact Nat.zero_le _
  · intro w tid choice f rest others _ _ _ _ ih
    have htouched := touched choice w.shared f id
    change ((f.exec choice w.shared).1.timers id).created +
      (tally (share id Act.creates) (f.exec choice w.shared).2 + others) ≤
        (f.exec choice w.shared).1.allocated id
    rw [tally_share]
    by_cases hf : ∃ p i, f = .scheduleImpl p i .allocateId
    · obtain ⟨p, i, rfl⟩ := hf
      have hallocated := allocated_allocateId id w.shared
      change _ = w.shared.allocated id + _ at hallocated
      have hacts : tally Act.creates (((Frame.scheduleImpl p i .allocateId).exec choice
          w.shared).2.filterMap (Frame.on id)) =
            if (allocateId w.shared.nextId).1 = id then 1 else 0 := by
        by_cases hid : (allocateId w.shared.nextId).1 = id <;>
          simp [Frame.exec, Frame.on, hid, Act.creates]
      rw [hacts]
      change _ ≤ ((List.range (allocateId w.shared.nextId).2).filter (· ≠ kInvalidTimerId)).count id
      rw [hallocated]
      have hshare : share id Act.creates (.scheduleImpl p i .allocateId) = 0 := rfl
      change (w.shared.timers id).created + _ ≤ _
      omega
    · have hkeep : (f.exec choice w.shared).1.allocated id = w.shared.allocated id := by
        unfold Shared.allocated
        rw [exec_nextId choice w.shared f (by intro p i hp; exact hf ⟨p, i, hp⟩)]
      rw [hkeep]
      generalize (f.exec choice w.shared).1.timers id = t' at htouched ⊢
      generalize (f.exec choice w.shared).2.filterMap (Frame.on id) = acts at htouched ⊢
      cases htouched with
      | create p i =>
        rw [share_act] at ih
        simp only [Timer.create, tally_cons, tally_nil, Act.creates] at ih ⊢
        omega
      | step h =>
        obtain ⟨hcreated, hnext⟩ := h.created
        rw [tally_toList, hnext, hcreated]
        omega
      | allocate p i => exact absurd ⟨p, i, rfl⟩ hf
      | other hother hcalls =>
        rw [tally_creates_of_calls hcalls]
        omega
  · intro w event s' fs _ _ harrived ih
    have hkeep : s'.allocated id = w.shared.allocated id := by
      obtain ⟨-, timers, rfl⟩ := arrived harrived
      rfl
    rw [tally_share, hkeep]
    rcases occurred harrived id with ⟨next, hoccurred, hacts⟩ | ⟨hsame, hcalls⟩
    · rw [hacts, tally_toList]
      generalize s'.timers id = t' at hoccurred ⊢
      cases hoccurred with
      | expire harmed => simpa using ih
      | start hqueued => simpa [Act.creates] using ih
    · rw [hsame, tally_creates_of_calls hcalls]
      omega

theorem created_le_one (id : TimerId) (hw : system.Reach ok w) :
    (w.shared.timers id).created + w.weigh (share id Act.creates) ≤ 1 :=
  Nat.le_trans (created_le id hw) (allocated_le_one id w.shared)

/-- Before its creation nothing has happened to a timer, and nobody acts on it. -/
theorem fresh (id : TimerId) (hw : system.Reach ok w) (hnone : (w.shared.timers id).created = 0) :
    w.shared.timers id = .initial ∧ w.weigh (share id Act.busy) = 0 := by
  refine Program.focus (p := program) (fun s => s.timers id) (share id Act.busy)
    (J := fun t n => t.created = 0 → t = .initial ∧ n = 0) ?_ ?_ ?_ hw hnone
  · rintro s rfl _
    exact ⟨rfl, rfl⟩
  · intro w tid choice f rest others _ _ _ _ ih
    have htouched := touched choice w.shared f id
    change ((f.exec choice w.shared).1.timers id).created = 0 →
      (f.exec choice w.shared).1.timers id = .initial ∧
        tally (share id Act.busy) (f.exec choice w.shared).2 + others = 0
    rw [tally_share]
    generalize (f.exec choice w.shared).1.timers id = t' at htouched ⊢
    generalize (f.exec choice w.shared).2.filterMap (Frame.on id) = acts at htouched ⊢
    intro hcreated
    cases htouched with
    | create p i => cases hcreated
    | step h =>
      rw [share_act] at ih
      rw [h.created.1] at hcreated
      obtain ⟨hinitial, hzero⟩ := ih hcreated
      rw [tally_toList]
      rw [hinitial] at h
      cases h with
      | createFailed => exact ⟨rfl, hzero⟩
      | invalid => exact ⟨rfl, hzero⟩
      | valid => exact ⟨rfl, hzero⟩
      | notFound => exact ⟨rfl, hzero⟩
      | erase w c hsome => cases hsome
      | _ => simp [Act.busy] at hzero
    | allocate p i => simpa [share, Frame.on, Act.busy] using ih hcreated
    | other hother hcalls =>
      have hbusy : Settles Act.busy := fun a ha => ha
      rw [hbusy.tally hcalls]
      simpa [share, hother] using ih hcreated
  · intro w event s' fs _ _ harrived ih
    rw [tally_share]
    rcases occurred harrived id with ⟨next, hoccurred, hacts⟩ | ⟨hsame, hcalls⟩
    · generalize s'.timers id = t' at hoccurred ⊢
      intro hcreated
      cases hoccurred with
      | expire harmed =>
        rw [(ih hcreated).1] at harmed
        cases harmed
      | start hqueued =>
        rw [(ih hcreated).1] at hqueued
        cases hqueued
    · have hbusy : Settles Act.busy := fun a ha => ha
      rw [hsame, hbusy.tally hcalls, Nat.zero_add]
      exact ih

/-- The rule for one timer: what holds of it and of what the acts on it weigh, as soon as
it has been created. -/
theorem timer_rule (id : TimerId) {weight : Act → Nat} {J : Timer → Nat → Prop}
    (hsettles : Settles weight) (hinit : J .initial 0)
    (hcreate : ∀ p i, J (Timer.initial.create p) (weight (.scheduleImpl p i .emplace)))
    (hstep : ∀ (w : World) tid choice a rest t' next others, system.Reach ok w →
      ok w (.run tid choice) → w.threads[tid]? = some (.act id a :: rest) →
      Stepped id (w.shared.timers id) a t' next →
      w.weigh (share id weight) = weight a + others →
      J (w.shared.timers id) (weight a + others) → J t' (next.elim 0 weight + others))
    (hevent : ∀ (w : World) t' next, system.Reach ok w →
      Occurred (w.shared.timers id) t' next →
      J (w.shared.timers id) (w.weigh (share id weight)) →
      J t' (next.elim 0 weight + w.weigh (share id weight)))
    (hw : system.Reach ok w) : J (w.shared.timers id) (w.weigh (share id weight)) := by
  apply Program.focus (p := program) (fun s => s.timers id) (share id weight) ?_ ?_ ?_ hw
  · rintro s rfl
    exact hinit
  · intro w tid choice f rest others hreach hok hthread hweigh ih
    have htouched := touched choice w.shared f id
    change J ((f.exec choice w.shared).1.timers id)
      (tally (share id weight) (f.exec choice w.shared).2 + others)
    rw [tally_share]
    generalize (f.exec choice w.shared).1.timers id = t' at htouched ⊢
    generalize (f.exec choice w.shared).2.filterMap (Frame.on id) = acts at htouched ⊢
    cases htouched with
    | create p i =>
      have hcreates := weight_le_share Act.creates hthread
      rw [Act.creates] at hcreates
      have hcreated := created_le_one id hreach
      obtain ⟨hinitial, hidle⟩ := fresh id hreach (by omega)
      have hnone := hsettles.weigh hidle
      obtain rfl : others = 0 := by omega
      rw [hinitial]
      exact hcreate p i
    | step h =>
      rw [share_act] at hweigh ih
      rw [tally_toList]
      exact hstep w tid choice _ rest t' _ others hreach hok hthread h hweigh ih
    | allocate p i =>
      simpa [share, Frame.on, hsettles (.scheduleImpl p i .createTimer) rfl] using ih
    | other hother hcalls =>
      rw [hsettles.tally hcalls]
      simpa [share, hother] using ih
  · intro w event s' fs hreach _ harrived ih
    rw [tally_share]
    rcases occurred harrived id with ⟨next, hoccurred, hacts⟩ | ⟨hsame, hcalls⟩
    · rw [hacts, tally_toList]
      exact hevent w _ next hreach hoccurred ih
    · rw [hsame, hsettles.tally hcalls, Nat.zero_add]
      exact ih

theorem timer_invariant (id : TimerId) {I : Timer → Prop} (hinit : I .initial)
    (hcreate : ∀ p, I (Timer.initial.create p))
    (hstep : ∀ (w : World) tid choice a rest t' next, system.Reach ok w →
      ok w (.run tid choice) → w.threads[tid]? = some (.act id a :: rest) →
      Stepped id (w.shared.timers id) a t' next → I (w.shared.timers id) → I t')
    (hevent : ∀ t t' next, Occurred t t' next → I t → I t')
    (hw : system.Reach ok w) : I (w.shared.timers id) := by
  have hsettles : Settles fun _ => 0 := .of_calls (fun _ _ => rfl) (fun _ _ => rfl) (fun _ _ => rfl)
  apply timer_rule id (J := fun t _ => I t) hsettles hinit ?_ ?_ ?_ hw
  · intro p _
    exact hcreate p
  · intro w tid choice a rest t' next _ hreach hok hthread h _ ih
    exact hstep w tid choice a rest t' next hreach hok hthread h ih
  · intro w t' next _ h ih
    exact hevent _ t' next h ih

theorem timer_ledger (id : TimerId) {weight : Act → Nat} (paid due : Timer → Nat)
    (hsettles : Settles weight)
    (hcreate : ∀ p i, paid (Timer.initial.create p) + weight (.scheduleImpl p i .emplace) ≤
      due (Timer.initial.create p))
    (hinit : paid .initial = 0)
    (hstep : ∀ t a t' next, Stepped id t a t' next →
      paid t' + next.elim 0 weight + due t ≤ due t' + (paid t + weight a))
    (hevent : ∀ t t' next, Occurred t t' next →
      paid t' + next.elim 0 weight + due t ≤ due t' + paid t)
    (hw : system.Reach ok w) :
    paid (w.shared.timers id) + w.weigh (share id weight) ≤ due (w.shared.timers id) := by
  apply timer_rule id (J := fun t n => paid t + n ≤ due t) hsettles ?_ hcreate ?_ ?_ hw
  · rw [hinit]
    exact Nat.zero_le _
  · intro w tid choice a rest t' next others _ _ _ h _ ih
    have hledger := hstep _ a t' next h
    omega
  · intro w t' next _ h ih
    have hledger := hevent _ t' next h
    omega

def Act.carries : Act → Nat
  | scheduleImpl _ _ .emplace => 1
  | cancelImpl _ _ .checkId => 0
  | cancelImpl _ _ .erase => 0
  | cancelImpl _ _ _ => 1
  | _ => 0

theorem carries_settles : Settles Act.carries :=
  .of_calls (fun _ _ => rfl) (fun _ _ => rfl) (fun _ _ => rfl)

theorem carried (id : TimerId) (hw : system.Reach ok w) :
    (w.shared.timers id).published.toNat + (w.shared.timers id).cancels +
      w.weigh (share id Act.carries) = (w.shared.timers id).created := by
  have hledger : (w.shared.timers id).created ≤ 1 ∧
      (w.shared.timers id).published.toNat + (w.shared.timers id).cancels +
        w.weigh (share id Act.carries) = (w.shared.timers id).created := by
    apply timer_rule id
      (J := fun t n => t.created ≤ 1 ∧ t.published.toNat + t.cancels + n = t.created)
      carries_settles ?_ ?_ ?_ ?_ hw
    · exact ⟨by decide, rfl⟩
    · intro p i
      exact ⟨by simp [Timer.create, Timer.initial], rfl⟩
    · intro w tid choice a rest t' next others _ _ _ h _ ih
      have hbool := Bool.toNat_le (w.shared.timers id).published
      cases h <;> simp_all [Act.carries] <;> omega
    · intro w t' next _ h ih
      cases h <;> simpa [Act.carries] using ih
  exact hledger.2

/-- Who is to see to it that the handle gets closed. Before the erasure that is the entry in
the map; `CancelImpl` may leave it to the flag, and a callback takes it from there. -/
def Act.mustClose : Act → Nat
  | scheduleImpl _ _ .emplace => 1
  | cancelImpl _ _ .storeCancelled => 1
  | cancelImpl _ _ .readHandle => 1
  | cancelImpl _ _ .disarm => 1
  | cancelImpl _ _ .storeCloseAfter => 1
  | cancelImpl _ _ .withdraw => 1
  | cancelImpl _ _ .wait => 1
  | cancelImpl _ _ .close => 1
  | runEntry .readHandle => 1
  | runEntry (.clearHandle _) => 1
  | runEntry (.close _) => 1
  | _ => 0

theorem mustClose_settles : Settles Act.mustClose :=
  .of_calls (fun _ _ => rfl) (fun _ _ => rfl) (fun _ _ => rfl)

theorem close_le (id : TimerId) (hw : system.Reach ok w) :
    (w.shared.timers id).published.toNat + (w.shared.timers id).closed +
      (w.shared.timers id).closeAfterCallback.toNat + w.weigh (share id Act.mustClose) ≤
        (w.shared.timers id).created := by
  apply timer_ledger id (fun t => t.published.toNat + t.closed + t.closeAfterCallback.toNat)
    (fun t => t.created) mustClose_settles ?_ rfl ?_ ?_ hw
  · intro p i
    simp [Timer.create, Timer.initial, Act.mustClose]
  · intro t a t' next h
    have hbool := Bool.toNat_le t.published
    have hbool' := Bool.toNat_le t.closeAfterCallback
    cases h <;> simp_all [Act.mustClose] <;> omega
  · intro t t' next h
    cases h <;> simp [Act.mustClose] <;> omega

def Act.hasClosed : Act → Nat
  | cancelImpl _ _ .clearHandle => 1
  | _ => 0

theorem hasClosed_settles : Settles Act.hasClosed :=
  .of_calls (fun _ _ => rfl) (fun _ _ => rfl) (fun _ _ => rfl)

theorem hasClosed_le (id : TimerId) (hw : system.Reach ok w) :
    w.weigh (share id Act.hasClosed) ≤ (w.shared.timers id).closed := by
  have hledger := timer_ledger id (fun _ => 0) (fun t => t.closed) hasClosed_settles
    (by intro p i; exact Nat.zero_le _) rfl ?_ ?_ hw
  · omega
  · intro t a t' next h
    cases h <;> simp [Act.hasClosed]
    omega
  · intro t t' next h
    cases h <;> simp [Act.hasClosed]

def Act.findsHandle : Act → Nat
  | runEntry (.clearHandle _) => 0
  | runEntry (.close _) => 0
  | a => a.mustClose

theorem findsHandle_of_mustClose {a : Act} (h : a.mustClose = 0) : a.findsHandle = 0 := by
  unfold Act.findsHandle
  split <;> first | rfl | exact h

theorem findsHandle_settles : Settles Act.findsHandle := by
  intro a ha
  exact findsHandle_of_mustClose (mustClose_settles a ha)

structure HandleLeft (t : Timer) (finders : Nat) : Prop where
  published : t.published = false
  flag : t.closeAfterCallback = false
  finders : finders = 0

theorem handleLeft (hw : system.Reach ok w) (hnull : (w.shared.timers id).handle = false) :
    HandleLeft (w.shared.timers id) (w.weigh (share id Act.findsHandle)) := by
  apply timer_rule id (J := fun t n => t.handle = false → HandleLeft t n) findsHandle_settles
    ?_ ?_ ?_ ?_ hw hnull
  · intro _
    exact ⟨rfl, rfl, rfl⟩
  · intro p i hnull
    cases hnull
  · intro w tid choice a rest t' next others hreach _ hthread h hweigh ih hnull
    have hclose := close_le id hreach
    have hcreated := created_le_one id hreach
    cases h with
    | clearHandle wait c =>
      have hclosed := hasClosed_le id hreach
      have hmine := weight_le_share Act.hasClosed hthread
      rw [Act.hasClosed] at hmine
      have hnone := weigh_share_eq_zero (fun _ => findsHandle_of_mustClose)
        (by omega : w.weigh (share id Act.mustClose) = 0)
      have hpublished : (w.shared.timers id).published = false := Bool.toNat_eq_zero.mp (by omega)
      have hflag : (w.shared.timers id).closeAfterCallback = false :=
        Bool.toNat_eq_zero.mp (by omega)
      rw [hnone] at hweigh
      exact ⟨hpublished, hflag, hweigh.symm⟩
    | giveUpHandle handle =>
      have hmine := weight_le_share Act.mustClose hthread
      rw [Act.mustClose] at hmine
      have hnone := weigh_share_alone (fun _ => findsHandle_of_mustClose) hthread
        (show w.weigh (share id Act.mustClose) ≤ 1 by omega)
      have hpublished : (w.shared.timers id).published = false := Bool.toNat_eq_zero.mp (by omega)
      have hflag : (w.shared.timers id).closeAfterCallback = false :=
        Bool.toNat_eq_zero.mp (by omega)
      rw [hnone] at hweigh
      have hothers : others = 0 := Nat.add_eq_left.mp hweigh.symm
      exact ⟨hpublished, hflag, by rw [hothers]; rfl⟩
    | _ =>
      have hleft := ih hnull
      have hpublished := hleft.published
      have hflag := hleft.flag
      have hfinders := hleft.finders
      constructor <;> simp_all [Act.findsHandle, Act.mustClose]
  · intro w t' next _ h ih hnull
    cases h with
    | expire harmed =>
      obtain ⟨hpublished, hflag, hnone⟩ := ih hnull
      exact ⟨hpublished, hflag, by rw [hnone]; rfl⟩
    | start hqueued =>
      obtain ⟨hpublished, hflag, hnone⟩ := ih hnull
      exact ⟨hpublished, hflag, by rw [hnone]; rfl⟩

def Act.nullHandle : Act → Nat
  | runEntry (.clearHandle false) => 1
  | runEntry (.close false) => 1
  | _ => 0

theorem nullHandle_settles : Settles Act.nullHandle :=
  .of_calls (fun _ _ => rfl) (fun _ _ => rfl) (fun _ _ => rfl)

theorem nullHandle_eq_zero (hw : system.Reach ok w) : w.weigh (share id Act.nullHandle) = 0 := by
  apply timer_rule id (J := fun _ n => n = 0) nullHandle_settles rfl ?_ ?_ ?_ hw
  · intro p i
    rfl
  · intro w tid choice a rest t' next others hreach _ hthread h _ ih
    cases h with
    | takeHandle =>
      have hmine := weight_le_share Act.findsHandle hthread
      cases hhandle : (w.shared.timers id).handle with
      | true => simpa [Act.nullHandle] using ih
      | false =>
        have hnone := (handleLeft hreach hhandle).finders
        rw [hnone] at hmine
        cases hmine
    | giveUpHandle h => cases h <;> exact ih
    | _ => simp_all [Act.nullHandle]
  · intro w t' next _ h ih
    cases h with
    | expire harmed => simpa using ih
    | start hqueued => simpa [Act.nullHandle] using ih

theorem close_eq (id : TimerId) (hw : system.Reach ok w) :
    (w.shared.timers id).published.toNat + (w.shared.timers id).closed +
      (w.shared.timers id).closeAfterCallback.toNat + w.weigh (share id Act.mustClose) =
        (w.shared.timers id).created := by
  apply timer_rule id
    (J := fun t n => t.published.toNat + t.closed + t.closeAfterCallback.toNat + n = t.created)
    mustClose_settles rfl ?_ ?_ ?_ hw
  · intro p i
    rfl
  · intro w tid choice a rest t' next others hreach _ hthread h _ ih
    have hcreated := created_le_one id hreach
    have hbool := Bool.toNat_le (w.shared.timers id).published
    have hbool' := Bool.toNat_le (w.shared.timers id).closeAfterCallback
    cases h with
    | noHandle wait c hnull =>
      have hmine := weight_le_share Act.findsHandle hthread
      rw [(handleLeft hreach hnull).finders] at hmine
      cases hmine
    | closeNull =>
      have hmine := weight_le_share Act.nullHandle hthread
      rw [nullHandle_eq_zero hreach] at hmine
      cases hmine
    | _ => simp_all [Act.mustClose] <;> omega
  · intro w t' next _ h ih
    cases h <;> simpa [Act.mustClose] using ih

def Act.closesLate : Act → Nat
  | cancelImpl _ _ .storeCloseAfter => 1
  | cancelImpl _ _ .withdraw => 1
  | cancelImpl _ _ .wait => 1
  | cancelImpl _ _ .close => 1
  | runEntry .readHandle => 1
  | runEntry (.clearHandle _) => 1
  | runEntry (.close _) => 1
  | _ => 0

theorem closesLate_settles : Settles Act.closesLate :=
  .of_calls (fun _ _ => rfl) (fun _ _ => rfl) (fun _ _ => rfl)

theorem closed_le_disarmed (id : TimerId) (hw : system.Reach ok w) :
    (w.shared.timers id).closed + (w.shared.timers id).closeAfterCallback.toNat +
      w.weigh (share id Act.closesLate) ≤ (w.shared.timers id).disarmed := by
  apply timer_ledger id (fun t => t.closed + t.closeAfterCallback.toNat) (fun t => t.disarmed)
    closesLate_settles ?_ rfl ?_ ?_ hw
  · intro p i
    exact Nat.zero_le _
  · intro t a t' next h
    have hbool := Bool.toNat_le t.closeAfterCallback
    cases h <;> simp_all [Act.closesLate] <;> omega
  · intro t t' next h
    cases h <;> simp [Act.closesLate] <;> omega

def Act.executes : Act → Nat
  | runEntry _ => 1
  | _ => 0

theorem executes_settles : Settles Act.executes :=
  .of_calls (fun _ _ => rfl) (fun _ _ => rfl) (fun _ _ => rfl)

theorem running_eq (hw : system.Reach ok w) :
    (w.shared.timers id).running = w.weigh (share id Act.executes) := by
  apply timer_rule id (J := fun t n => t.running = n) executes_settles rfl ?_ ?_ ?_ hw
  · intro p i
    rfl
  · intro w tid choice a rest t' next others _ _ _ h _ ih
    cases h <;> simp_all [Act.executes]
  · intro w t' next _ h ih
    cases h <;> simp_all [Act.executes]
    omega

def Act.returnsId : Act → Nat
  | scheduleImpl _ _ .createTimer => 0
  | scheduleImpl _ _ _ => 1
  | _ => 0

theorem returnsId_settles : Settles Act.returnsId :=
  .of_calls (fun _ _ => rfl) (fun _ _ => rfl) (fun _ _ => rfl)

theorem returned_le (id : TimerId) (hw : system.Reach ok w) :
    (w.shared.timers id).returned + w.weigh (share id Act.returnsId) ≤
      (w.shared.timers id).created := by
  apply timer_ledger id (fun t => t.returned) (fun t => t.created) returnsId_settles ?_ rfl ?_ ?_ hw
  · intro p i
    exact Nat.le_refl 1
  · intro t a t' next h
    cases h <;> simp [Act.returnsId] <;> omega
  · intro t t' next h
    cases h <;> simp [Act.returnsId] <;> omega

end FastPort.Commons.TimerQueue
