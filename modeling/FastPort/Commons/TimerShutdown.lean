import FastPort.Commons.TimerCancel

/-! `Shutdown(true)` against calls of `ScheduleImpl`. It cancels what the map holds when it
lists the ids. So it leaves nothing behind as long as every `ScheduleImpl` that was admitted
has published its entry by then and arms it before it is cancelled. -/
namespace FastPort.Commons.TimerQueue

open FastPort.Foundation.Pool FastPort.Foundation.Stack FastPort.Foundation.Tally
open FastPort.Foundation.ThreadpoolTimer FastPort.Foundation.Transition

variable {ok : World → Label → Prop} {w : World} {id : TimerId}

def ApiCall.isSchedule : ApiCall → Bool
  | scheduleOnce => true
  | schedulePeriodic _ => true
  | _ => false

/-- Jobs call `ScheduleOnce` and `SchedulePeriodic`, and other threads these and
`Shutdown(true)`. -/
def callsAllowed : Label → Bool
  | .run _ choice => choice.call.all ApiCall.isSchedule
  | .spawn (.call call) => call.isSchedule || call == .shutdown true
  | .spawn _ => true

def SchedulesAndShutdown (_ : World) (l : Label) : Prop := callsAllowed l = true

instance (w : World) (l : Label) : Decidable (SchedulesAndShutdown w l) :=
  inferInstanceAs (Decidable (callsAllowed l = true))

def Frame.publishes : Frame → Option TimerId
  | act id (.scheduleImpl _ _ .emplace) => some id
  | _ => none

def PublishesFirst (w : World) (l : Label) : Prop :=
  ∀ id ∈ (w.runs l).bind Frame.publishes, w.shared.snapshotTaken = false

instance (w : World) (l : Label) : Decidable (PublishesFirst w l) :=
  inferInstanceAs (Decidable (∀ id ∈ (w.runs l).bind Frame.publishes,
    w.shared.snapshotTaken = false))

def Orderly (w : World) (l : Label) : Prop :=
  SchedulesAndShutdown w l ∧ PublishesFirst w l ∧ ArmsFirst w l

instance (w : World) (l : Label) : Decidable (Orderly w l) :=
  inferInstanceAs (Decidable (SchedulesAndShutdown w l ∧ PublishesFirst w l ∧ ArmsFirst w l))

def Frame.isPlain : Frame → Bool
  | userCode _ => true
  | scheduleImpl _ _ _ => true
  | shutdownImpl _ _ _ => false
  | act _ (.scheduleImpl _ _ _) => true
  | act _ (.cancelImpl _ _ _) => false
  | act _ (.runEntry _) => true

/-- Without other callers, cancellations run only inside `ShutdownImpl`, and that outside of
callbacks. -/
inductive Driven : List Frame → Prop where
  | plain {stack : List Frame} (h : ∀ f ∈ stack, f.isPlain = true) : Driven stack
  | shutdown (wait : Bool) (pc : ShutdownPc) : Driven [.shutdownImpl wait none pc]
  | cancelling (id : TimerId) (wait : Bool) (pc : CancelPc) (ids : List TimerId) :
      Driven [.act id (.cancelImpl wait false pc), .shutdownImpl wait none (.cancel ids)]

theorem isPlain_frame {call : ApiCall} (current : Option TimerId) (h : call.isSchedule = true) :
    (call.frame current).isPlain = true := by
  cases call with
  | cancel id => cases h
  | shutdown wait => cases h
  | _ => rfl

theorem isPlain_exec {choice : Choice} {s : Shared} {f g : Frame}
    (hcall : choice.call.all ApiCall.isSchedule = true) (hf : f.isPlain = true)
    (hg : g ∈ (f.exec choice s).2) : g.isPlain = true := by
  cases follows hg with
  | call current hchoice =>
    rw [hchoice] at hcall
    exact isPlain_frame current hcall
  | shutdown => cases hf
  | cancel => cases hf
  | cancelImpl => cases hf
  | _ => rfl

theorem driven_exec {choice : Choice} {s : Shared} {f : Frame} {rest : List Frame}
    (hcall : choice.call.all ApiCall.isSchedule = true) (h : Driven (f :: rest)) :
    Driven ((f.exec choice s).2 ++ rest) := by
  cases h with
  | plain h =>
    apply Driven.plain
    intro g hg
    rcases List.mem_append.mp hg with hg | hg
    · exact isPlain_exec hcall (h f List.mem_cons_self) hg
    · exact h g (List.mem_cons_of_mem f hg)
  | shutdown wait pc =>
    cases pc with
    | cas =>
      simp only [Frame.exec, shutdownImpl]
      split
      · exact .shutdown wait .snapshot
      · exact .plain (by simp)
    | snapshot => exact .shutdown wait _
    | cancel ids =>
      cases ids with
      | nil => exact .shutdown wait .dead
      | cons i ids => exact .cancelling i wait .checkId ids
    | dead => exact .plain (by simp [Frame.exec, shutdownImpl])
  | cancelling i wait pc ids =>
    rw [Frame.exec, show Act.calls i (.cancelImpl wait false pc) = [] from rfl, List.nil_append]
    cases hnext : ((Act.cancelImpl wait false pc).exec choice i (s.timers i)).2 with
    | none => exact .shutdown wait (.cancel ids)
    | some next =>
      obtain ⟨pc', rfl, -⟩ := exec_cancelImpl hnext
      exact .cancelling i wait pc' ids

theorem driven (hcalls : ∀ w l, ok w l → SchedulesAndShutdown w l) (hw : system.Reach ok w) :
    ∀ stack ∈ w.threads, Driven stack := by
  apply Program.forall_stack (p := program) (P := Driven) ?_ ?_ hw
  · intro w tid choice f rest _ hok h
    exact driven_exec (hcalls w _ hok) h
  · intro w event s' fs _ hok harrived
    cases (arrived harrived).1 with
    | call call =>
      rcases Bool.or_eq_true_iff.mp (hcalls w _ hok) with hschedule | hshutdown
      · apply Driven.plain
        intro f hf
        rw [List.mem_singleton.mp hf]
        exact isPlain_frame none hschedule
      · rw [beq_iff_eq.mp hshutdown]
        exact .shutdown true .cas
    | expire i => exact .plain (by simp)
    | startCallback i => exact .plain (by simp [Frame.isPlain])

def Frame.shutsDown : Frame → Nat
  | shutdownImpl _ _ .cas => 0
  | shutdownImpl _ _ _ => 1
  | _ => 0

def Frame.isShutdown : Frame → Bool
  | shutdownImpl _ _ _ => true
  | _ => false

theorem shutsDown_frame (call : ApiCall) (current : Option TimerId) :
    (call.frame current).shutsDown = 0 := by
  cases call <;> rfl

theorem exec_apart (choice : Choice) (s : Shared) {f : Frame} (hf : f.isShutdown = false) :
    (f.exec choice s).1.queueState = s.queueState ∧
      (f.exec choice s).1.snapshotTaken = s.snapshotTaken ∧
        tally Frame.shutsDown (f.exec choice s).2 = 0 := by
  have hnone : tally Frame.shutsDown (f.exec choice s).2 = 0 := by
    rw [tally_eq_zero]
    intro g hg
    cases follows hg with
    | call current hcall => exact shutsDown_frame _ current
    | shutdown => cases hf
    | cancel => cases hf
    | _ => rfl
  cases f with
  | shutdownImpl wait current pc => cases hf
  | scheduleImpl p i pc => cases pc <;> exact ⟨rfl, rfl, hnone⟩
  | _ => exact ⟨rfl, rfl, hnone⟩

theorem arrive_apart {s s' : Shared} {event : Event} {fs : List Frame}
    (h : s.arrive event = some (s', fs)) :
    s'.queueState = s.queueState ∧ s'.snapshotTaken = s.snapshotTaken ∧
      tally Frame.shutsDown fs = 0 := by
  obtain ⟨harrives, timers, rfl⟩ := arrived h
  refine ⟨rfl, rfl, ?_⟩
  cases harrives with
  | call call => exact shutsDown_frame call none
  | _ => rfl

theorem tally_of_shutsDown {weight : Frame → Nat} (h : ∀ f, f.shutsDown = 0 → weight f = 0)
    {fs : List Frame} (hnone : tally Frame.shutsDown fs = 0) : tally weight fs = 0 := by
  rw [tally_eq_zero] at hnone ⊢
  intro f hf
  exact h f (hnone f hf)

theorem shutsDown_of_not {f : Frame} (hf : f.isShutdown = false) : f.shutsDown = 0 := by
  cases f with
  | shutdownImpl wait current pc => cases hf
  | _ => rfl

/-- One call of `ShutdownImpl` is at work while the state is `ShuttingDown`, else none. -/
theorem shutsDown_eq (hw : system.Reach ok w) :
    w.weigh Frame.shutsDown = if w.shared.queueState = .shuttingDown then 1 else 0 := by
  apply Program.focus (p := program) (fun s => s.queueState) Frame.shutsDown
    (J := fun q n => n = if q = .shuttingDown then 1 else 0) ?_ ?_ ?_ hw
  · rintro s rfl
    rfl
  · intro w tid choice f rest others _ _ _ _ ih
    change tally Frame.shutsDown (f.exec choice w.shared).2 + others =
      if (f.exec choice w.shared).1.queueState = .shuttingDown then 1 else 0
    cases hf : f.isShutdown with
    | false =>
      obtain ⟨hstate, -, hnone⟩ := exec_apart choice w.shared hf
      rw [shutsDown_of_not hf] at ih
      rw [hstate, hnone]
      exact ih
    | true =>
      cases f with
      | shutdownImpl wait current pc =>
        cases pc with
        | cas =>
          simp only [Frame.exec, shutdownImpl]
          split
          · rename_i hrunning
            rw [hrunning] at ih
            change 1 + others = 1
            change 0 + others = 0 at ih
            omega
          · exact ih
        | snapshot => exact ih
        | cancel ids => cases ids <;> exact ih
        | dead =>
          change 0 + others = 0
          change 1 + others = _ at ih
          split at ih <;> omega
      | _ => cases hf
  · intro w event s' fs _ _ harrived ih
    obtain ⟨hstate, -, hnone⟩ := arrive_apart harrived
    rw [hnone, hstate, Nat.zero_add]
    exact ih

def Frame.hasListed : Frame → Nat
  | shutdownImpl _ _ (.cancel _) => 1
  | shutdownImpl _ _ .dead => 1
  | _ => 0

theorem hasListed_of_shutsDown {f : Frame} (h : f.shutsDown = 0) : f.hasListed = 0 := by
  cases f with
  | shutdownImpl wait current pc => cases pc <;> first | rfl | cases h
  | _ => rfl

theorem snapshotTaken_of_hasListed (hw : system.Reach ok w)
    (hlisted : w.shared.queueState = .dead ∨ 0 < w.weigh Frame.hasListed) :
    w.shared.snapshotTaken = true := by
  apply Program.focus (p := program) (fun s => (s.queueState, s.snapshotTaken)) Frame.hasListed
    (J := fun v n => v.1 = .dead ∨ 0 < n → v.2 = true) ?_ ?_ ?_ hw hlisted
  · rintro s rfl hlisted
    rcases hlisted with hdead | hpos
    · cases hdead
    · cases hpos
  · intro w tid choice f rest others _ _ _ _ ih
    change (f.exec choice w.shared).1.queueState = .dead ∨
      0 < tally Frame.hasListed (f.exec choice w.shared).2 + others →
        (f.exec choice w.shared).1.snapshotTaken = true
    cases hf : f.isShutdown with
    | false =>
      obtain ⟨hstate, htaken, hnone⟩ := exec_apart choice w.shared hf
      rw [hasListed_of_shutsDown (shutsDown_of_not hf)] at ih
      rw [hstate, htaken, tally_of_shutsDown (fun _ => hasListed_of_shutsDown) hnone]
      exact ih
    | true =>
      cases f with
      | shutdownImpl wait current pc =>
        cases pc with
        | cas =>
          simp only [Frame.exec, shutdownImpl]
          split
          · rintro (hdead | hpos)
            · cases hdead
            · exact ih (.inr hpos)
          · exact ih
        | snapshot => exact fun _ => rfl
        | cancel ids => cases ids <;> exact fun _ => ih (.inr (Nat.add_pos_left Nat.one_pos _))
        | dead => exact fun _ => ih (.inr (Nat.add_pos_left Nat.one_pos _))
      | _ => cases hf
  · intro w event s' fs _ _ harrived ih
    obtain ⟨hstate, htaken, hnone⟩ := arrive_apart harrived
    rw [hstate, htaken, tally_of_shutsDown (fun _ => hasListed_of_shutsDown) hnone, Nat.zero_add]
    exact ih

def Frame.lists (id : TimerId) : Frame → Nat
  | shutdownImpl _ _ (.cancel ids) => ids.count id
  | _ => 0

theorem lists_of_shutsDown {f : Frame} (h : f.shutsDown = 0) : f.lists id = 0 := by
  cases f with
  | shutdownImpl wait current pc => cases pc <;> first | rfl | cases h
  | _ => rfl

def Act.looksUp : Act → Nat
  | cancelImpl _ _ .checkId => 1
  | cancelImpl _ _ .erase => 1
  | _ => 0

theorem count_entries {s : Shared} (order : List TimerId)
    (hpublished : (s.timers id).published = true) (hlt : id < s.nextId) :
    0 < (s.entries order).count id := by
  have hmem : id ∈ (List.range s.nextId).filter fun id => (s.timers id).published :=
    List.mem_filter.mpr ⟨List.mem_range.mpr hlt, hpublished⟩
  rw [List.count_pos_iff]
  simp only [Shared.entries]
  split
  · rename_i hperm
    exact hperm.mem_iff.mpr hmem
  · exact hmem

theorem lt_nextId_of_published (hw : system.Reach ok w)
    (hpublished : (w.shared.timers id).published = true) :
    id < w.shared.nextId ∧ id ≠ kInvalidTimerId := by
  have hcarried := carried id hw
  have hcreated := created_le id hw
  rw [hpublished, Bool.toNat_true] at hcarried
  have hallocated : 0 < w.shared.allocated id := by omega
  refine ⟨lt_nextId_of_allocated hallocated, ?_⟩
  rintro rfl
  rw [allocated_invalid] at hallocated
  cases hallocated

/-- After the listing, what is in the map is about to be cancelled. -/
theorem published_le (id : TimerId) (hpublishes : ∀ w l, ok w l → PublishesFirst w l)
    (hw : system.Reach ok w) (htaken : w.shared.snapshotTaken = true) :
    (w.shared.timers id).published.toNat ≤
      w.weigh fun f => share id Act.looksUp f + f.lists id := by
  apply Program.focus (p := program) (fun s => (s.snapshotTaken, s.timers id))
    (fun f => share id Act.looksUp f + f.lists id)
    (J := fun v n => v.1 = true → v.2.published.toNat ≤ n) ?_ ?_ ?_ hw htaken
  · rintro s rfl htaken
    cases htaken
  · intro w tid choice f rest others hreach hok hthread _ ih
    change (f.exec choice w.shared).1.snapshotTaken = true →
      ((f.exec choice w.shared).1.timers id).published.toNat ≤
        tally (fun f => share id Act.looksUp f + f.lists id) (f.exec choice w.shared).2 + others
    rw [tally_add, tally_share]
    cases hf : f.isShutdown with
    | false =>
      obtain ⟨-, htaken, hnone⟩ := exec_apart choice w.shared hf
      have htouched := touched choice w.shared f id
      rw [htaken, tally_of_shutsDown (fun _ => lists_of_shutsDown) hnone]
      rw [lists_of_shutsDown (shutsDown_of_not hf)] at ih
      generalize (f.exec choice w.shared).1.timers id = t' at htouched ⊢
      generalize (f.exec choice w.shared).2.filterMap (Frame.on id) = acts at htouched ⊢
      intro hset
      have hbefore := ih hset
      cases htouched with
      | create p i =>
        rw [share_act] at hbefore
        exact hbefore
      | step h =>
        rw [share_act] at hbefore
        rw [tally_toList]
        cases h with
        | emplace p i =>
          have hnot := hpublishes w _ hok id (by rw [Stacks.runs_eq hthread]; rfl)
          rw [hnot] at hset
          cases hset
        | invalid wait c hid =>
          have hunpublished : (w.shared.timers id).published = false := by
            apply Bool.eq_false_iff.mpr
            intro hpublished
            exact (lt_nextId_of_published hreach hpublished).2 hid
          rw [hunpublished]
          exact Nat.zero_le _
        | notFound wait c hunpublished =>
          rw [hunpublished]
          exact Nat.zero_le _
        | erase wait c hsome => exact Nat.zero_le _
        | _ => exact hbefore
      | allocate p i => exact hbefore
      | other hother hcalls =>
        rw [share, hother, Option.elim_none] at hbefore
        change (w.shared.timers id).published.toNat ≤ 0 + 0 + others at hbefore
        omega
    | true =>
      cases f with
      | shutdownImpl wait current pc =>
        cases pc with
        | cas =>
          simp only [Frame.exec, shutdownImpl]
          split <;> exact ih
        | snapshot =>
          intro _
          cases hpublished : (w.shared.timers id).published with
          | false =>
            change (w.shared.timers id).published.toNat ≤ _
            rw [hpublished]
            exact Nat.zero_le _
          | true =>
            have hlt := (lt_nextId_of_published hreach hpublished).1
            have hcount := count_entries choice.order hpublished hlt
            change (w.shared.timers id).published.toNat ≤
              0 + ((w.shared.entries choice.order).count id + 0) + others
            rw [hpublished, Bool.toNat_true]
            omega
        | cancel ids =>
          cases ids with
          | nil => exact ih
          | cons i ids =>
            intro hset
            have hbefore := ih hset
            change (w.shared.timers id).published.toNat ≤
              0 + (i :: ids).count id + others at hbefore
            change (w.shared.timers id).published.toNat ≤ _
            by_cases hi : i = id
            · rw [hi, List.count_cons_self] at hbefore
              simp [Frame.exec, shutdownImpl, Frame.on, hi, Act.looksUp, Frame.lists]
              omega
            · rw [List.count_cons_of_ne hi] at hbefore
              simp [Frame.exec, shutdownImpl, Frame.on, hi, Frame.lists]
              omega
        | dead => exact ih
      | _ => cases hf
  · intro w event s' fs _ _ harrived ih
    obtain ⟨-, htaken, hnone⟩ := arrive_apart harrived
    rw [htaken, tally_add, tally_share, tally_of_shutsDown (fun _ => lists_of_shutsDown) hnone]
    intro hset
    have hbefore := ih hset
    have hsame : (s'.timers id).published = (w.shared.timers id).published := by
      rcases occurred harrived id with ⟨next, hoccurred, -⟩ | ⟨hsame, -⟩
      · generalize s'.timers id = t' at hoccurred ⊢
        cases hoccurred <;> rfl
      · rw [hsame]
    rw [hsame]
    exact Nat.le_trans hbefore (Nat.le_add_left _ _)

section Outside

variable (hcalls : ∀ w l, ok w l → SchedulesAndShutdown w l)
include hcalls

theorem outside_of_cancelImpl (hw : system.Reach ok w) {tid : Nat} {wait own : Bool} {pc : CancelPc}
    {rest : List Frame}
    (hthread : w.threads[tid]? = some (.act id (.cancelImpl wait own pc) :: rest)) :
    own = false := by
  have hdriven := driven hcalls hw _ (List.mem_of_getElem? hthread)
  cases hdriven with
  | plain h => cases h _ List.mem_cons_self
  | cancelling => rfl

theorem outside (id : TimerId) (hw : system.Reach ok w) :
    (w.shared.timers id).closeAfterCallback = false ∧
      (w.shared.timers id).outsideCancels = (w.shared.timers id).cancels := by
  apply timer_invariant id
    (I := fun t => t.closeAfterCallback = false ∧ t.outsideCancels = t.cancels)
    ⟨rfl, rfl⟩ ?_ ?_ ?_ hw
  · intro p
    exact ⟨rfl, rfl⟩
  · intro w tid choice a rest t' next hreach _ hthread h ih
    cases h with
    | storeCloseAfter wait c =>
      have howns := own_of_storeCloseAfter hreach hthread
      have houtside := outside_of_cancelImpl hcalls hreach hthread
      rw [howns] at houtside
      cases houtside
    | cancelled wait c =>
      cases outside_of_cancelImpl hcalls hreach hthread
      exact ⟨ih.1, congrArg Nat.succ ih.2⟩
    | closeLeft hflag => exact ⟨rfl, ih.2⟩
    | _ => exact ih
  · intro t t' next h ih
    cases h <;> exact ih

theorem cancels_eq_zero (hw : system.Reach ok w) (hdone : w.weigh Frame.shutsDown = 0) :
    ∀ stack ∈ w.threads, ∀ f ∈ stack, f.isPlain = true ∨ f.isShutdown = true := by
  intro stack hstack f hf
  have hdriven := driven hcalls hw stack hstack
  have hnone := Stacks.weigh_eq_zero.mp hdone stack hstack
  cases hdriven with
  | plain h => exact .inl (h f hf)
  | shutdown wait pc =>
    rw [List.mem_singleton.mp hf]
    exact .inr rfl
  | cancelling i wait pc ids =>
    have hlast := hnone _ (List.mem_cons_of_mem _ (List.mem_singleton_self _))
    cases hlast

end Outside

theorem not_misused (harms : ∀ w l, ok w l → ArmsFirst w l) (hw : system.Reach ok w) :
    (w.shared.timers id).misused = false := by
  apply timer_invariant id (I := fun t => t.misused = false) rfl ?_ ?_ ?_ hw
  · intro p
    rfl
  · intro w tid choice a rest t' next hreach hok hthread h ih
    have hclose := close_le id hreach
    have hledger := closed_le_disarmed id hreach
    have hcreated := created_le_one id hreach
    have hmine := weight_le_share Act.mustClose hthread
    have hopen : 0 < a.mustClose → (w.shared.timers id).closed = 0 := by
      intro hpos
      omega
    cases h with
    | setTimer p i =>
      have hdisarmed := (harms w _ hok).disarmed hthread
      exact (TpTimer.call_misused (by omega)).trans ih
    | disarmOwn wait => exact (TpTimer.call_misused (hopen Nat.one_pos)).trans ih
    | disarm wait => exact (TpTimer.call_misused (hopen Nat.one_pos)).trans ih
    | withdraw wait c => exact (TpTimer.call_misused (hopen Nat.one_pos)).trans ih
    | close wait c => exact (TpTimer.call_misused (hopen Nat.one_pos)).trans ih
    | closeAfter => exact (TpTimer.call_misused (hopen Nat.one_pos)).trans ih
    | _ => exact ih
  · intro t t' next h ih
    cases h <;> exact ih

/-- `ScheduleImpl` after its test of the state. -/
def Frame.admitted : Frame → Nat
  | scheduleImpl _ _ .allocateId => 1
  | act _ (.scheduleImpl _ _ _) => 1
  | _ => 0

structure ShutDown (s : Shared) : Prop where
  entries : ∀ id, (s.timers id).published = false
  closed : ∀ id, 0 < (s.timers id).created → (s.timers id).closed = 1
  still : ∀ id, (s.timers id).Still
  cancelled : ∀ id, 0 < (s.timers id).returned → (s.timers id).cancels = 1
  misused : ∀ id, (s.timers id).misused = false

theorem carries_of_idle {f : Frame} (h : f.isPlain = true ∨ f.isShutdown = true)
    (hadmitted : f.admitted = 0) : share id Act.carries f = 0 := by
  cases f with
  | act i a =>
    cases a with
    | scheduleImpl p d pc => cases hadmitted
    | cancelImpl wait own pc => rcases h with h | h <;> cases h
    | runEntry pc =>
      rw [share, Frame.on]
      split <;> rfl
  | _ => rfl

theorem looksUp_of_idle {f : Frame} (h : f.isPlain = true ∨ f.isShutdown = true) :
    share id Act.looksUp f = 0 := by
  cases f with
  | act i a =>
    cases a with
    | cancelImpl wait own pc => rcases h with h | h <;> cases h
    | _ =>
      rw [share, Frame.on]
      split <;> rfl
  | _ => rfl

theorem shutDown_of_dead (hw : system.Reach Orderly w) (hdead : w.shared.queueState = .dead)
    (hreturned : w.weigh Frame.admitted = 0) : ShutDown w.shared := by
  have hdone : w.weigh Frame.shutsDown = 0 := by
    rw [shutsDown_eq hw, hdead]
    rfl
  have hframes := cancels_eq_zero (fun _ _ h => h.1) hw hdone
  have hentries : ∀ id, (w.shared.timers id).published = false := by
    intro id
    have htaken := snapshotTaken_of_hasListed hw (.inl hdead)
    have hle := published_le id (fun _ _ h => h.2.1) hw htaken
    have hnone : (w.weigh fun f => share id Act.looksUp f + f.lists id) = 0 := by
      rw [Stacks.weigh_eq_zero] at hdone ⊢
      intro stack hstack f hf
      rw [looksUp_of_idle (hframes stack hstack f hf), lists_of_shutsDown (hdone stack hstack f hf)]
    rw [hnone] at hle
    exact Bool.toNat_eq_zero.mp (Nat.le_zero.mp hle)
  have hcancels : ∀ id, (w.shared.timers id).cancels = (w.shared.timers id).created := by
    intro id
    have hcarried := carried id hw
    have hnone : w.weigh (share id Act.carries) = 0 := by
      rw [Stacks.weigh_eq_zero] at hreturned ⊢
      intro stack hstack f hf
      exact carries_of_idle (hframes stack hstack f hf) (hreturned stack hstack f hf)
    rw [hentries id, Bool.toNat_false, hnone] at hcarried
    omega
  have hstill : ∀ id, (w.shared.timers id).Still := by
    intro id
    rcases Nat.eq_zero_or_pos (w.shared.timers id).created with hnone | hpos
    · rw [(fresh _ hw hnone).1]
      exact ⟨rfl, rfl, rfl⟩
    · have houtside := (outside (fun _ _ h => h.1) id hw).2
      have hsame := hcancels id
      exact (still (fun _ _ h => h.2.2) _ hw (by omega)).2
  constructor
  · exact hentries
  · intro id hcreated
    apply closed_of_idle hw
    · rw [hcancels id]
      exact hcreated
    · rw [← running_eq hw]
      exact (hstill id).running
  · exact hstill
  · intro id hpos
    have hle := returned_le id hw
    have hcreated := created_le_one id hw
    have hsame := hcancels id
    omega
  · intro id
    exact not_misused (fun _ _ h => h.2.2) hw

theorem admitted_frame (call : ApiCall) (current : Option TimerId) :
    (call.frame current).admitted = 0 := by
  cases call <;> rfl

theorem admitted_exec (choice : Choice) {s : Shared} {f : Frame} (hdead : s.queueState = .dead)
    (hf : f.admitted = 0) : (f.exec choice s).1.queueState = .dead ∧
      tally Frame.admitted (f.exec choice s).2 = 0 := by
  constructor
  · cases f with
    | shutdownImpl wait current pc =>
      cases pc with
      | cas => simp [Frame.exec, shutdownImpl, hdead]
      | cancel ids => cases ids <;> exact hdead
      | snapshot => exact hdead
      | dead => rfl
    | scheduleImpl p i pc => cases pc <;> exact hdead
    | _ => exact hdead
  · rw [tally_eq_zero]
    intro g hg
    cases follows hg with
    | call current hcall => exact admitted_frame _ current
    | pass p i hrunning =>
      rw [hdead] at hrunning
      cases hrunning
    | allocate => cases hf
    | scheduleImpl => cases hf
    | _ => rfl

theorem dead_later {w' : World} (hdead : w.shared.queueState = .dead)
    (hreturned : w.weigh Frame.admitted = 0) (hlater : (system.after w).Reach ok w') :
    w'.shared.queueState = .dead ∧ w'.weigh Frame.admitted = 0 := by
  apply Program.invariant_after (p := program)
    (I := fun w => w.shared.queueState = .dead ∧ w.weigh Frame.admitted = 0)
    ⟨hdead, hreturned⟩ ?_ ?_ hlater
  · intro w tid choice f rest ih hthread
    have hmine : f.admitted ≤ w.weigh Frame.admitted := Stacks.weight_le_weigh hthread
    obtain ⟨hstate, hnone⟩ := admitted_exec choice ih.1 (by omega : f.admitted = 0)
    have hweigh := Stacks.weigh_exec Frame.admitted hthread (f.exec choice w.shared).1
      (f.exec choice w.shared).2
    refine ⟨hstate, ?_⟩
    change Stacks.weigh ⟨(f.exec choice w.shared).1,
      w.threads.set tid ((f.exec choice w.shared).2 ++ rest)⟩ Frame.admitted = 0
    omega
  · intro w event s' fs ih harrived
    refine ⟨(arrive_apart harrived).1.trans ih.1, ?_⟩
    rw [Stacks.weigh_spawn, ih.2, Nat.zero_add]
    cases (arrived harrived).1 with
    | call call => exact admitted_frame call none
    | _ => rfl

/-- Once `Shutdown` is done and the admitted calls of `ScheduleImpl` have returned, nothing
is left of the timers, then and for ever. -/
theorem shutdown_complete (hw : system.Reach Orderly w) (hdead : w.shared.queueState = .dead)
    (hreturned : w.weigh Frame.admitted = 0) :
    ∀ w' : World, (system.after w).Reach Orderly w' → ShutDown w'.shared := by
  intro w' hlater
  obtain ⟨hdead', hreturned'⟩ := dead_later hdead hreturned hlater
  exact shutDown_of_dead (System.Reach.of_after hw hlater) hdead' hreturned'

/-- `Shutdown(true)` cancels a periodic timer whose job runs. -/
def shutdownRunning : List Label :=
  [.spawn (.call (.schedulePeriodic 10))] ++ List.replicate 6 (.run 0 .go) ++
    [.spawn (.expire 1), .spawn (.startCallback 1)] ++ List.replicate 4 (.run 2 .go) ++
    [.spawn (.call (.shutdown true))] ++ List.replicate 10 (.run 3 .go) ++
    List.replicate 5 (.run 2 .go) ++ List.replicate 6 (.run 3 .go)

theorem shutdown_complete_running : ∃ w : World, (w.shared.timers 1).created = 1 ∧
    ShutDown w.shared := by
  obtain ⟨w, hrun, htest⟩ := System.exists_of_runUnder system Orderly ⟨Shared.initial, []⟩
    shutdownRunning (fun w => decide (w.shared.queueState = .dead ∧
      w.weigh Frame.admitted = 0 ∧ (w.shared.timers 1).created = 1)) (by decide)
  obtain ⟨hdead, hreturned, hcreated⟩ := of_decide_eq_true htest
  have hw : system.Reach Orderly w := .of_runUnder (.init init_initial) hrun
  exact ⟨w, hcreated, shutdown_complete hw hdead hreturned w (.init rfl)⟩

/-- `ScheduleImpl` passes its test of the state, `Shutdown` runs from start to end, and then
the timer is created, published and armed. -/
def scheduleAcross : List Label :=
  [.spawn (.call (.schedulePeriodic 10)), .run 0 .go, .spawn (.call (.shutdown true))] ++
    List.replicate 4 (.run 1 .go) ++ List.replicate 5 (.run 0 .go)

theorem not_shutdown_complete : ¬ ∀ w : World, system.Reach SchedulesAndShutdown w →
    w.shared.queueState = .dead → w.weigh Frame.admitted = 0 → ShutDown w.shared := by
  intro hcomplete
  obtain ⟨w, hrun, htest⟩ := System.exists_of_runUnder system SchedulesAndShutdown
    ⟨Shared.initial, []⟩ scheduleAcross (fun w => decide (w.shared.queueState = .dead ∧
      w.weigh Frame.admitted = 0 ∧ (w.shared.timers 1).armed = some 10)) (by decide)
  obtain ⟨hdead, hreturned, harmed⟩ := of_decide_eq_true htest
  have hw : system.Reach SchedulesAndShutdown w := .of_runUnder (.init init_initial) hrun
  have hstill := (hcomplete w hw hdead hreturned).still 1
  rw [hstill.armed] at harmed
  cases harmed

end FastPort.Commons.TimerQueue
