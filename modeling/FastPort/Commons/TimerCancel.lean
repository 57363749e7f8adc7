import FastPort.Commons.TimerLedger
import FastPort.Commons.TimerNesting

/-! `Cancel` is exact: it returns true once, closes the handle once and after disarming the
timer, keeps later executions from the job, and from outside waits for those under way.
One timer can have any number of executions at a time. -/
namespace FastPort.Commons.TimerQueue

open FastPort.Foundation.Pool FastPort.Foundation.Stack FastPort.Foundation.Tally
open FastPort.Foundation.ThreadpoolTimer FastPort.Foundation.Transition

variable {ok : World → Label → Prop} {w : World} {id : TimerId}

def Frame.arms : Frame → Option TimerId
  | act id (.scheduleImpl _ _ .setTimer) => some id
  | _ => none

/-- No timer is armed once it has been disarmed. -/
def ArmsFirst (w : World) (l : Label) : Prop :=
  ∀ id ∈ (w.runs l).bind Frame.arms, (w.shared.timers id).disarmed = 0

instance (w : World) (l : Label) : Decidable (ArmsFirst w l) :=
  inferInstanceAs (Decidable (∀ id ∈ (w.runs l).bind Frame.arms, (w.shared.timers id).disarmed = 0))

theorem ArmsFirst.disarmed {tid : Nat} {choice : Choice} {p : Bool} {i : Duration}
    {rest : List Frame} (h : ArmsFirst w (.run tid choice))
    (hthread : w.threads[tid]? = some (.act id (.scheduleImpl p i .setTimer) :: rest)) :
    (w.shared.timers id).disarmed = 0 := by
  apply h
  rw [Stacks.runs_eq hthread]
  rfl

section ArmsFirst

variable (harms : ∀ w l, ok w l → ArmsFirst w l)
include harms

theorem armed_eq_none (hw : system.Reach ok w) (hdisarmed : 0 < (w.shared.timers id).disarmed) :
    (w.shared.timers id).armed = none := by
  apply timer_invariant id (I := fun t => 0 < t.disarmed → t.armed = none) ?_ ?_ ?_ ?_ hw hdisarmed
  · intro _
    rfl
  · intro p _
    rfl
  · intro w tid choice a rest t' next _ hok hthread h ih hpos
    cases h with
    | setTimer p i =>
      have hnone := (harms w _ hok).disarmed hthread
      change 0 < (w.shared.timers id).disarmed at hpos
      omega
    | disarmOwn wait => rfl
    | disarm wait => rfl
    | _ => exact ih hpos
  · intro t t' next h ih hpos
    cases h with
    | expire harmed =>
      rw [ih hpos] at harmed
      cases harmed
    | start hqueued => exact ih hpos

def Act.hasWaited : Act → Nat
  | cancelImpl _ own .close => (!own).toNat
  | cancelImpl _ own .clearHandle => (!own).toNat
  | cancelImpl _ own .returns => (!own).toNat
  | _ => 0

omit harms in
theorem hasWaited_settles : Settles Act.hasWaited :=
  .of_calls (fun _ _ => rfl) (fun _ _ => rfl) (fun _ _ => rfl)

/-- After the wait of a cancellation from outside nothing runs, and nothing is to come. -/
theorem still (id : TimerId) (hw : system.Reach ok w)
    (hwaited : 0 < (w.shared.timers id).outsideCancels + w.weigh (share id Act.hasWaited)) :
    0 < (w.shared.timers id).disarmed ∧ (w.shared.timers id).Still := by
  apply timer_rule id (J := fun t n => 0 < t.outsideCancels + n → 0 < t.disarmed ∧ t.Still)
    hasWaited_settles ?_ ?_ ?_ ?_ hw hwaited
  · intro hpos
    cases hpos
  · intro p i hpos
    cases hpos
  · intro w tid choice a rest t' next others hreach hok hthread h _ ih hpos
    cases h with
    | setTimer p i =>
      have hnone := (harms w _ hok).disarmed hthread
      obtain ⟨hdisarmed, -⟩ := ih hpos
      omega
    | noHandle wait c hnull =>
      have hmine := weight_le_share Act.findsHandle hthread
      rw [(handleLeft hreach hnull).finders] at hmine
      cases hmine
    | storeCloseAfter wait c =>
      cases own_of_storeCloseAfter hreach hthread
      exact ih hpos
    | waited wait c hnone =>
      have hmine := weight_le_share Act.closesLate hthread
      have hledger := closed_le_disarmed id hreach
      rw [Act.closesLate] at hmine
      have hdisarmed : 0 < (w.shared.timers id).disarmed := by omega
      unfold TpTimer.outstanding at hnone
      exact ⟨hdisarmed, armed_eq_none harms hreach hdisarmed, by omega, by omega⟩
    | disarmOwn wait => exact ⟨Nat.succ_pos _, (ih hpos).2.cease⟩
    | disarm wait => exact ⟨Nat.succ_pos _, (ih hpos).2.cease⟩
    | withdraw wait c => exact ⟨(ih hpos).1, (ih hpos).2.withdraw⟩
    | close wait c => exact ⟨(ih hpos).1, (ih hpos).2.close⟩
    | cancelled wait c =>
      cases c with
      | true => exact ih hpos
      | false =>
        have hmine : 0 < (Act.cancelImpl wait false .returns).hasWaited := Nat.one_pos
        exact ih (by omega)
    | closeAfter => exact ⟨(ih hpos).1, (ih hpos).2.close⟩
    | finish => exact ⟨(ih hpos).1, (ih hpos).2.finish⟩
    | _ => exact ih hpos
  · intro w t' next _ h ih hpos
    cases h with
    | expire harmed =>
      rw [Option.elim_none, Nat.zero_add] at hpos
      rw [(ih hpos).2.armed] at harmed
      cases harmed
    | start hqueued =>
      have hbefore := ih (by simpa [Act.hasWaited] using hpos)
      rw [hbefore.2.queued] at hqueued
      cases hqueued

end ArmsFirst

def Act.looksAtFlag : Act → Nat
  | runEntry .mark => 1
  | runEntry .closeExchange => 1
  | _ => 0

theorem looksAtFlag_settles : Settles Act.looksAtFlag :=
  .of_calls (fun _ _ => rfl) (fun _ _ => rfl) (fun _ _ => rfl)

theorem flag_seen (hw : system.Reach ok w)
    (hflag : (w.shared.timers id).closeAfterCallback = true) :
    0 < w.weigh (share id Act.looksAtFlag) := by
  apply timer_rule id (J := fun t n => t.closeAfterCallback = true → 0 < n) looksAtFlag_settles
    ?_ ?_ ?_ ?_ hw hflag
  · intro hflag
    cases hflag
  · intro p i hflag
    cases hflag
  · intro w tid choice a rest t' next others hreach _ hthread h hweigh ih hflag
    cases h with
    | storeCloseAfter wait c =>
      cases own_of_storeCloseAfter hreach hthread
      have hbelow := callback_below hreach hthread
      have hmem : Act.looksAtFlag (.runEntry .mark) ≤ w.weigh (share id Act.looksAtFlag) := by
        rw [← share_act id Act.looksAtFlag]
        exact Stacks.weight_le_weigh_of_mem hthread (List.mem_cons_of_mem _ hbelow)
      rw [hweigh] at hmem
      exact hmem
    | closeLeft hset => cases hflag
    | noClose hclear =>
      rw [hclear] at hflag
      cases hflag
    | mark => exact ih hflag
    | invoke => exact Nat.add_pos_left Nat.one_pos others
    | _ => exact ih hflag
  · intro w t' next _ h ih hflag
    cases h with
    | expire harmed => simpa using ih hflag
    | start hqueued => simpa [Act.looksAtFlag] using ih hflag

/-- The executions before their compare-exchange, and `ScheduleImpl` before it arms. -/
def Act.pending : Act → Nat
  | scheduleImpl _ _ .emplace => 1
  | scheduleImpl _ _ .setTimer => 1
  | runEntry .tpTimerCallback => 1
  | runEntry .keepAlive => 1
  | runEntry .entryCas => 1
  | _ => 0

theorem pending_settles : Settles Act.pending :=
  .of_calls (fun _ _ => rfl) (fun _ _ => rfl) (fun _ _ => rfl)

def Act.armsPeriodic : Act → Nat
  | scheduleImpl p _ .emplace => p.toNat
  | scheduleImpl p _ .setTimer => p.toNat
  | _ => 0

theorem armsPeriodic_settles : Settles Act.armsPeriodic :=
  .of_calls (fun _ _ => rfl) (fun _ _ => rfl) (fun _ _ => rfl)

theorem armsPeriodic_eq_zero (hw : system.Reach ok w)
    (honce : (w.shared.timers id).isPeriodic = false) :
    w.weigh (share id Act.armsPeriodic) = 0 := by
  apply timer_rule id (J := fun t n => t.isPeriodic = false → n = 0) armsPeriodic_settles
    ?_ ?_ ?_ ?_ hw honce
  · intro _
    rfl
  · rintro p i rfl
    rfl
  · intro w tid choice a rest t' next others _ _ _ h _ ih honce
    cases h <;> simp_all [Act.armsPeriodic]
  · intro w t' next _ h ih honce
    cases h <;> simp_all [Act.armsPeriodic]

theorem Stepped.isPeriodic {t t' : Timer} {a : Act} {next : Option Act}
    (h : Stepped id t a t' next) : t'.isPeriodic = t.isPeriodic := by
  cases h <;> rfl

structure Fires (armed : Option Nat) (spent : Nat) : Prop where
  period : ∀ p, armed = some p → p = 0
  once : armed.isSome.toNat + spent ≤ 1

theorem Fires.mono {armed : Option Nat} {spent spent' : Nat} (h : Fires armed spent)
    (hle : spent' ≤ spent) : Fires armed spent' where
  period := h.period
  once := by
    have honce := h.once
    omega

theorem Fires.cease {armed : Option Nat} {spent : Nat} (h : Fires armed spent) :
    Fires none spent where
  period := by rintro p ⟨⟩
  once := by
    have honce := h.once
    rw [Option.isSome_none, Bool.toNat_false]
    omega

theorem fires (hw : system.Reach ok w) (honce : (w.shared.timers id).isPeriodic = false) :
    Fires (w.shared.timers id).armed ((w.shared.timers id).queued + (w.shared.timers id).entered +
      w.weigh (share id Act.pending)) := by
  apply timer_rule id
    (J := fun t n => t.isPeriodic = false → Fires t.armed (t.queued + t.entered + n))
    pending_settles ?_ ?_ ?_ ?_ hw honce
  · intro _
    exact ⟨by rintro p ⟨⟩, Nat.zero_le 1⟩
  · intro p i _
    exact ⟨by rintro p ⟨⟩, Nat.le_refl 1⟩
  · intro w tid choice a rest t' next others hreach _ hthread h _ ih honce
    rw [h.isPeriodic] at honce
    have hfires := ih honce
    cases h with
    | setTimer p i =>
      have hmine := weight_le_share Act.armsPeriodic hthread
      rw [armsPeriodic_eq_zero hreach honce] at hmine
      obtain rfl : p = false := Bool.toNat_eq_zero.mp (Nat.le_zero.mp hmine)
      have hspent := hfires.once
      rw [show (Act.scheduleImpl false i .setTimer).pending = 1 from rfl] at hspent
      constructor
      · intro p hp
        exact (Option.some.inj hp).symm
      · change 1 + ((w.shared.timers id).queued + (w.shared.timers id).entered + (0 + others)) ≤ 1
        omega
    | disarmOwn wait => exact hfires.cease
    | disarm wait => exact hfires.cease
    | withdraw wait c =>
      have hqueued : ((w.shared.timers id).toTpTimer.withdraw wait).queued ≤
          (w.shared.timers id).queued := TpTimer.withdraw_queued_le
      apply hfires.mono
      change ((w.shared.timers id).toTpTimer.withdraw wait).queued +
        (w.shared.timers id).entered + (0 + others) ≤ _ + _ + (0 + others)
      omega
    | refused hstate =>
      apply hfires.mono
      change (w.shared.timers id).queued + ((w.shared.timers id).entered + 1) + (0 + others) ≤
        (w.shared.timers id).queued + (w.shared.timers id).entered + (1 + others)
      omega
    | enter hstate =>
      apply hfires.mono
      change (w.shared.timers id).queued + ((w.shared.timers id).entered + 1) + (0 + others) ≤
        (w.shared.timers id).queued + (w.shared.timers id).entered + (1 + others)
      omega
    | _ => exact hfires
  · intro w t' next _ h ih honce
    cases h with
    | expire harmed =>
      have hfires := ih honce
      obtain rfl := hfires.period _ harmed
      have hspent := hfires.once
      rw [harmed, Option.isSome_some, Bool.toNat_true] at hspent
      constructor
      · rintro p ⟨⟩
      · change 0 + ((w.shared.timers id).queued + 1 + (w.shared.timers id).entered + (0 + _)) ≤ 1
        omega
    | start hqueued =>
      apply (ih honce).mono
      change (w.shared.timers id).queued - 1 + (w.shared.timers id).entered + (1 + _) ≤ _
      omega

def Act.runsJob : Act → Nat
  | runEntry .invoke => 1
  | runEntry .mark => 1
  | _ => 0

theorem runsJob_settles : Settles Act.runsJob :=
  .of_calls (fun _ _ => rfl) (fun _ _ => rfl) (fun _ _ => rfl)

theorem runsJob_le (id : TimerId) (hw : system.Reach ok w) :
    w.weigh (share id Act.runsJob) ≤ (w.shared.timers id).entered := by
  have hledger := timer_ledger id (fun _ => 0) (fun t => t.entered) runsJob_settles
    (by intro p i; exact Nat.zero_le _) rfl ?_ ?_ hw
  · omega
  · intro t a t' next h
    cases h <;> simp [Act.runsJob] <;> omega
  · intro t t' next h
    cases h <;> simp [Act.runsJob]

/-- The store of `Cancelled` lasts, except that the one execution of a one-shot timer may
overwrite it. -/
theorem state_of_cancelled (hw : system.Reach ok w)
    (hcancelled : 0 < (w.shared.timers id).cancelled) :
    (w.shared.timers id).state = .cancelled ∨
      (w.shared.timers id).isPeriodic = false ∧ 0 < (w.shared.timers id).entered := by
  apply timer_invariant id (I := fun t => 0 < t.cancelled →
    t.state = .cancelled ∨ t.isPeriodic = false ∧ 0 < t.entered) ?_ ?_ ?_ ?_ hw hcancelled
  · intro hpos
    cases hpos
  · intro p hpos
    cases hpos
  · intro w tid choice a rest t' next hreach _ hthread h ih hpos
    cases h with
    | storeCancelled wait c => exact .inl rfl
    | refused hstate => exact .inl hstate
    | enter hstate =>
      obtain ⟨honce, -⟩ := (ih hpos).resolve_left hstate
      exact .inr ⟨honce, Nat.succ_pos _⟩
    | mark =>
      have hmine := weight_le_share Act.runsJob hthread
      have hentered := runsJob_le id hreach
      cases honce : (w.shared.timers id).isPeriodic with
      | false =>
        rw [Act.runsJob] at hmine
        exact .inr ⟨rfl, by change 0 < (w.shared.timers id).entered; omega⟩
      | true =>
        rcases ih hpos with hstate | ⟨hnot, -⟩
        · apply Or.inl
          simp [hstate]
        · rw [honce] at hnot
          cases hnot
    | _ => exact ih hpos
  · intro t t' next h ih hpos
    cases h <;> exact ih hpos

/-- No execution that comes after the store of `Cancelled` gets to the job. -/
theorem enteredLate_eq_zero (hw : system.Reach ok w) : (w.shared.timers id).enteredLate = 0 := by
  apply timer_invariant id (I := fun t => t.enteredLate = 0) rfl ?_ ?_ ?_ hw
  · intro p
    rfl
  · intro w tid choice a rest t' next hreach _ hthread h ih
    cases h with
    | enter hstate =>
      have hnone : ¬ 0 < (w.shared.timers id).cancelled := by
        intro hpos
        obtain ⟨honce, hentered⟩ := (state_of_cancelled hreach hpos).resolve_left hstate
        have hspent := (fires hreach honce).once
        have hmine := weight_le_share Act.pending hthread
        rw [Act.pending] at hmine
        omega
      change (w.shared.timers id).enteredLate +
        (if 0 < (w.shared.timers id).cancelled then 1 else 0) = 0
      rw [if_neg hnone]
      exact ih
    | _ => exact ih
  · intro t t' next h ih
    cases h <;> exact ih

def Act.schedules : Act → Nat
  | scheduleImpl _ _ _ => 1
  | _ => 0

def Frame.erases : Frame → Option TimerId
  | act id (.cancelImpl _ _ .erase) => some id
  | _ => none

/-- No entry is taken out of the map before the `ScheduleImpl` that made it has returned
its id. -/
def HandedOut (w : World) (l : Label) : Prop :=
  ∀ id ∈ (w.runs l).bind Frame.erases, (w.shared.timers id).published = true →
    w.weigh (share id Act.schedules) = 0

instance (w : World) (l : Label) : Decidable (HandedOut w l) :=
  inferInstanceAs (Decidable (∀ id ∈ (w.runs l).bind Frame.erases,
    (w.shared.timers id).published = true → w.weigh (share id Act.schedules) = 0))

def Act.mayDisarm : Act → Nat
  | scheduleImpl _ _ .emplace => 1
  | cancelImpl _ _ .storeCancelled => 1
  | cancelImpl _ _ .readHandle => 1
  | cancelImpl _ _ .disarm => 1
  | _ => 0

theorem mayDisarm_settles : Settles Act.mayDisarm :=
  .of_calls (fun _ _ => rfl) (fun _ _ => rfl) (fun _ _ => rfl)

theorem disarmed_le (id : TimerId) (hw : system.Reach ok w) :
    (w.shared.timers id).published.toNat + (w.shared.timers id).disarmed +
      w.weigh (share id Act.mayDisarm) ≤ (w.shared.timers id).created := by
  apply timer_ledger id (fun t => t.published.toNat + t.disarmed) (fun t => t.created)
    mayDisarm_settles ?_ rfl ?_ ?_ hw
  · intro p i
    exact Nat.le_refl 1
  · intro t a t' next h
    have hbool := Bool.toNat_le t.published
    cases h <;> simp_all [Act.mayDisarm] <;> omega
  · intro t t' next h
    cases h <;> simp [Act.mayDisarm] <;> omega

def Act.hasPublished : Act → Nat
  | scheduleImpl _ _ .setTimer => 1
  | scheduleImpl _ _ .returns => 1
  | _ => 0

theorem hasPublished_settles : Settles Act.hasPublished :=
  .of_calls (fun _ _ => rfl) (fun _ _ => rfl) (fun _ _ => rfl)

section HandedOut

variable (hhanded : ∀ w l, ok w l → HandedOut w l)
include hhanded

theorem published_of_hasPublished (hw : system.Reach ok w)
    (hpublished : 0 < w.weigh (share id Act.hasPublished)) :
    (w.shared.timers id).published = true := by
  apply timer_rule id (J := fun t n => 0 < n → t.published = true) hasPublished_settles
    ?_ ?_ ?_ ?_ hw hpublished
  · intro hpos
    cases hpos
  · intro p i hpos
    cases hpos
  · intro w tid choice a rest t' next others _ hok hthread h hweigh ih hpos
    cases h with
    | emplace p i => rfl
    | erase wait c hsome =>
      have hnone : w.weigh (share id Act.schedules) = 0 := by
        apply hhanded w _ hok id ?_ hsome
        rw [Stacks.runs_eq hthread]
        rfl
      have hnone' : w.weigh (share id Act.hasPublished) = 0 := by
        apply weigh_share_eq_zero ?_ hnone
        intro a ha
        cases a with
        | scheduleImpl p i pc => cases ha
        | _ => rfl
      rw [hnone'] at hweigh
      change 0 < 0 + others at hpos
      omega
    | scheduled p i => exact ih (Nat.add_pos_left Nat.one_pos others)
    | _ => exact ih hpos
  · intro w t' next _ h ih hpos
    cases h with
    | expire harmed => exact ih (by simpa using hpos)
    | start hqueued => exact ih (by simpa [Act.hasPublished] using hpos)

theorem armsFirst_of_handedOut (hw : system.Reach ok w) {l : Label} : ArmsFirst w l := by
  intro id harms
  obtain ⟨f, hruns, harms⟩ := Option.bind_eq_some_iff.mp harms
  obtain ⟨tid, rest, hthread⟩ := Stacks.exists_thread_of_runs hruns
  have hact : ∃ p i, f = .act id (.scheduleImpl p i .setTimer) := by
    unfold Frame.arms at harms
    split at harms
    · cases harms
      exact ⟨_, _, rfl⟩
    · cases harms
  obtain ⟨p, i, rfl⟩ := hact
  have hmine := weight_le_share Act.hasPublished hthread
  have hpublished := published_of_hasPublished hhanded hw hmine
  have hledger := disarmed_le id hw
  have hcreated := created_le_one id hw
  rw [hpublished, Bool.toNat_true] at hledger
  omega

end HandedOut

theorem Stepped.outsideCancels_le {t t' : Timer} {a : Act} {next : Option Act}
    (h : Stepped id t a t' next) : t.outsideCancels ≤ t'.outsideCancels := by
  cases h <;> first | exact Nat.le_refl _ | exact Nat.le_add_right _ _

theorem outsideCancels_later {w' : World} {n : Nat} (hn : n ≤ (w.shared.timers id).outsideCancels)
    (hlater : (system.after w).Reach ok w') : n ≤ (w'.shared.timers id).outsideCancels := by
  apply Program.invariant_after (p := program)
    (I := fun w => n ≤ (w.shared.timers id).outsideCancels) hn ?_ ?_ hlater
  · intro w tid choice f rest hle _
    have htouched := touched choice w.shared f id
    change n ≤ ((f.exec choice w.shared).1.timers id).outsideCancels
    generalize (f.exec choice w.shared).1.timers id = t' at htouched ⊢
    generalize (f.exec choice w.shared).2.filterMap (Frame.on id) = acts at htouched
    cases htouched with
    | create p i => exact hle
    | step h => exact Nat.le_trans hle h.outsideCancels_le
    | allocate p i => exact hle
    | other hother hcalls => exact hle
  · intro w event s' fs hle harrived
    change n ≤ (s'.timers id).outsideCancels
    rcases occurred harrived id with ⟨next, hoccurred, -⟩ | ⟨hsame, -⟩
    · generalize s'.timers id = t' at hoccurred ⊢
      cases hoccurred <;> exact hle
    · rw [hsame]
      exact hle

/-- What `Cancel` promises of a timer. -/
structure CancelExact (w : World) (id : TimerId) : Prop where
  once : (w.shared.timers id).cancels ≤ 1
  closedOnce : (w.shared.timers id).closed ≤ 1
  disarmedFirst : 0 < (w.shared.timers id).closed → 0 < (w.shared.timers id).disarmed
  closed : 0 < (w.shared.timers id).cancels → w.weigh (share id Act.executes) = 0 →
    (w.shared.timers id).closed = 1
  refused : (w.shared.timers id).enteredLate = 0
  stopped : 0 < (w.shared.timers id).outsideCancels →
    ∀ w' : World, (system.after w).Reach HandedOut w' → w'.weigh (share id Act.executes) = 0

theorem closed_of_idle (hw : system.Reach ok w) (hcancelled : 0 < (w.shared.timers id).cancels)
    (hexecutes : w.weigh (share id Act.executes) = 0) : (w.shared.timers id).closed = 1 := by
  have hcarried := carried id hw
  have hclose := close_eq id hw
  have hcreated := created_le_one id hw
  have hcarries : w.weigh (share id Act.carries) = 0 := by omega
  have hduty : w.weigh (share id Act.mustClose) = 0 := by
    apply weigh_share_eq_zero (v := fun a => a.carries + a.executes)
    · intro a ha
      cases a with
      | scheduleImpl p i pc => cases pc <;> first | rfl | cases ha
      | cancelImpl wait c pc => cases pc <;> first | rfl | cases ha
      | runEntry pc => cases ha
    · rw [weigh_share_add, hcarries, hexecutes]
  have hflag : (w.shared.timers id).closeAfterCallback = false := by
    cases hflag : (w.shared.timers id).closeAfterCallback with
    | false => rfl
    | true =>
      have hseen := flag_seen hw hflag
      have hnone : w.weigh (share id Act.looksAtFlag) = 0 := by
        apply weigh_share_eq_zero ?_ hexecutes
        intro a ha
        cases a with
        | runEntry pc => cases ha
        | _ => rfl
      omega
  rw [hduty, hflag, Bool.toNat_false] at hclose
  omega

/-- In every run in which `Cancel` gets only ids that `ScheduleImpl` has returned. -/
theorem cancel_exact (hw : system.Reach HandedOut w) (id : TimerId) : CancelExact w id := by
  have hcarried := carried id hw
  have hclose := close_eq id hw
  have hledger := closed_le_disarmed id hw
  have hcreated := created_le_one id hw
  constructor
  · omega
  · omega
  · omega
  · exact closed_of_idle hw
  · exact enteredLate_eq_zero hw
  · intro hpos w' hlater
    have hw' := System.Reach.of_after hw hlater
    have harms : system.Reach ArmsFirst w' := by
      apply hw'.of_steps
      intro w l hreach _
      exact armsFirst_of_handedOut (fun _ _ h => h) hreach
    have hcancels : 1 ≤ (w'.shared.timers id).outsideCancels := outsideCancels_later hpos hlater
    obtain ⟨-, hstill⟩ := still (fun _ _ h => h) id harms (by omega)
    rw [← running_eq hw']
    exact hstill.running

def Choice.go : Choice := ⟨true, none, []⟩

/-- A periodic timer is cancelled from outside while its job runs. -/
def cancelRunning : List Label :=
  [.spawn (.call (.schedulePeriodic 10))] ++ List.replicate 6 (.run 0 .go) ++
    [.spawn (.expire 1), .spawn (.startCallback 1)] ++ List.replicate 4 (.run 2 .go) ++
    [.spawn (.call (.cancel 1))] ++ List.replicate 7 (.run 3 .go) ++
    List.replicate 5 (.run 2 .go) ++ List.replicate 4 (.run 3 .go)

theorem cancel_exact_running : ∃ w : World, (w.shared.timers 1).outsideCancels = 1 ∧
    CancelExact w 1 := by
  obtain ⟨w, hrun, htest⟩ := System.exists_of_runUnder system HandedOut ⟨Shared.initial, []⟩
    cancelRunning (fun w => decide ((w.shared.timers 1).outsideCancels = 1)) (by decide)
  have hw : system.Reach HandedOut w := .of_runUnder (.init init_initial) hrun
  exact ⟨w, of_decide_eq_true htest, cancel_exact hw 1⟩

end FastPort.Commons.TimerQueue
