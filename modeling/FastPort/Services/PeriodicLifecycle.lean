import FastPort.Services.PeriodicService

/-! Where the timer of a periodic service is while its owner calls `Start` and `Stop`. -/
namespace FastPort.Services.PeriodicService

open FastPort.Commons.TimerQueue (TimerId kInvalidTimerId)
open FastPort.Foundation.Pool FastPort.Foundation.Stack FastPort.Foundation.Tally
open FastPort.Foundation.Transition

variable {Own Input Other Body : Type} {service : Service Own Input Other Body}
variable {ok : World Own Body → Label Input Other → Prop} {w : World Own Body}

namespace Frame

def calls : Frame Body → Nat
  | start _ => 1
  | stop _ => 1
  | _ => 0

def ticks (id : TimerId) : Frame Body → Nat
  | tickEnd t => if t = id then 1 else 0
  | _ => 0

end Frame

theorem tally_body {weight : Frame Body → Nat} (hnone : ∀ b, weight (.body b) = 0)
    (bs : List Body) : tally weight (bs.map .body) = 0 := by
  apply tally_eq_zero.mpr
  intro f hf
  obtain ⟨b, -, rfl⟩ := List.mem_map.mp hf
  exact hnone b

theorem shared_invariant {I : Shared Own → Prop} (hinit : I (Shared.initial service.initial))
    (hexec : ∀ choice s f s' fs, Frame.Steps service choice s f s' fs → I s → I s')
    (harrive : ∀ s event s' fs, s.Arrived service event s' fs → I s → I s')
    (hw : (system service).Reach ok w) : I w.shared := by
  apply Program.invariant_shared (p := program service) ?_ ?_ ?_ hw
  · rintro s rfl
    exact hinit
  · intro choice s f ih
    exact hexec choice s f _ _ (f.steps_exec choice s) ih
  · intro event s s' fs ih harrived
    exact harrive s event s' fs (Shared.arrived harrived) ih

theorem step_focus (weight : Frame Body → Nat) {J : Shared Own → Nat → Prop}
    (hinit : J (Shared.initial service.initial) 0)
    (hexec : ∀ choice s f s' fs others, Frame.Steps service choice s f s' fs →
      J s (weight f + others) → J s' (tally weight fs + others))
    (harrive : ∀ s event s' fs n, s.Arrived service event s' fs → J s n →
      J s' (tally weight fs + n))
    (hw : (system service).Reach ok w) : J w.shared (w.weigh weight) := by
  apply Program.focus (p := program service) (fun s => s) weight ?_ ?_ ?_ hw
  · rintro s rfl
    exact hinit
  · intro w tid choice f rest others _ _ _ _ ih
    exact hexec choice w.shared f _ _ others (f.steps_exec choice w.shared) ih
  · intro w event s' fs _ _ harrived ih
    exact harrive w.shared event s' fs _ (Shared.arrived harrived) ih

theorem calls_eq (hw : (system service).Reach ok w) :
    w.weigh Frame.calls = w.shared.calling.toNat := by
  apply step_focus Frame.calls (J := fun s n => n = s.calling.toNat) rfl ?_ ?_ hw
  · intro choice s f s' fs others hsteps ih
    have hle := Bool.toNat_le s.calling
    cases hsteps with
    | starts hidle =>
      rw [tally_append, tally_body fun _ => rfl, Nat.zero_add]
      exact ih
    | ticks | body =>
      rw [tally_body fun _ => rfl]
      exact ih
    | startReturns | started | stopReturns | noTimer | waited =>
      simp only [Frame.calls, tally_nil, Shared.startReturns, Shared.stopReturns,
        Bool.toNat_false] at *
      omega
    | _ => exact ih
  · intro s event s' fs n harrived ih
    cases harrived with
    | start hfree =>
      rw [ih, hfree]
      rfl
    | stop hfree =>
      rw [ih, hfree]
      rfl
    | _ =>
      simpa [Frame.calls] using ih

theorem ticks_eq (id : TimerId) (hw : (system service).Reach ok w) :
    w.weigh (Frame.ticks id) = w.shared.ticking.count id := by
  apply step_focus (Frame.ticks id) (J := fun s n => n = s.ticking.count id) rfl ?_ ?_ hw
  · intro choice s f s' fs others hsteps ih
    cases hsteps with
    | starts hidle =>
      rw [tally_append, tally_body fun _ => rfl, Nat.zero_add]
      exact ih
    | ticks | body =>
      rw [tally_body fun _ => rfl]
      exact ih
    | tickEnd t =>
      rw [List.count_erase]
      simp only [Frame.ticks, tally_nil, beq_iff_eq] at *
      omega
    | _ => exact ih
  · intro s event s' fs n harrived ih
    cases harrived with
    | @tick t harmed =>
      simp only [Frame.ticks, tally_cons, tally_nil, List.count_cons, beq_iff_eq] at *
      omega
    | _ => simpa [Frame.ticks] using ih

structure Disarmed (timers ticking : List TimerId) : Prop where
  timers : timers = []
  ticking : ticking = []

structure Armed (timers ticking : List TimerId) (id : TimerId) : Prop where
  valid : id ≠ kInvalidTimerId
  timers : timers = [id]
  ticking : ∀ t ∈ ticking, t = id

/-- What `SchedulePeriodic` has given with an id; `refusals` says whether it may refuse. -/
inductive Registered (refusals : Prop) (timers ticking : List TimerId) (id : TimerId) : Prop where
  | armed (harmed : Armed timers ticking id)
  | refused (hrefusals : refusals) (hinvalid : id = kInvalidTimerId)
      (hdisarmed : Disarmed timers ticking)

inductive Idle (refusals : Prop) (s : Shared Own) : Prop where
  | running (hrunning : s.running = true) (hreturned : s.stopReturned = false)
      (hregistered : Registered refusals s.timers s.ticking s.timerId)
  | stopped (hidle : s.running = false) (hinvalid : s.timerId = kInvalidTimerId)
      (hdisarmed : Disarmed s.timers s.ticking)

/-- What is known in each phase of a call. -/
def Stage (refusals : Prop) (s : Shared Own) : Frame Body → Prop
  | .start .running => Idle refusals s ∧ s.stopReturned = false
  | .start .schedulePeriodic => s.running = true ∧ s.stopReturned = false ∧
      s.timerId = kInvalidTimerId ∧ Disarmed s.timers s.ticking
  | .start (.timerId id) => s.running = true ∧ s.stopReturned = false ∧
      Registered refusals s.timers s.ticking id
  | .stop .running => Idle refusals s
  | .stop .timerId => s.running = false ∧ s.stopReturned = false ∧
      Registered refusals s.timers s.ticking s.timerId
  | .stop (.cancel id) => s.running = false ∧ s.stopReturned = false ∧
      s.timerId = kInvalidTimerId ∧ Armed s.timers s.ticking id
  | .stop (.wait id) => s.running = false ∧ s.stopReturned = false ∧
      s.timerId = kInvalidTimerId ∧ s.timers = [] ∧ ∀ t ∈ s.ticking, t = id
  | _ => True

def RefusesOnlyIf (refusals : Prop) (ok : World Own Body → Label Input Other → Prop) : Prop :=
  ∀ w tid choice, ok w (.run tid choice) → w.runs (.run tid choice : Label Input Other) =
    some (.start .schedulePeriodic) → choice.refused = true → refusals

theorem id_pos (hw : (system service).Reach ok w) : 0 < w.shared.nextId := by
  apply shared_invariant (I := fun s => 0 < s.nextId) Nat.one_pos ?_ ?_ hw
  · intro choice s f s' fs hsteps ih
    cases hsteps with
    | scheduled => exact Nat.succ_pos _
    | _ => exact ih
  · intro s event s' fs harrived ih
    cases harrived with
    | otherTimer => exact Nat.succ_pos _
    | _ => exact ih

variable {refusals : Prop} {s s' : Shared Own} {fs : List (Frame Body)}

structure Keeps (s s' : Shared Own) : Prop where
  running : s'.running = s.running
  timerId : s'.timerId = s.timerId
  stopReturned : s'.stopReturned = s.stopReturned
  timers : s'.timers = s.timers
  ticking : ∀ t ∈ s'.ticking, t ∈ s.ticking ∨ t ∈ s.timers

theorem Keeps.disarmed (h : Keeps s s') (hdisarmed : Disarmed s.timers s.ticking) :
    Disarmed s'.timers s'.ticking := by
  refine ⟨h.timers.trans hdisarmed.timers, List.eq_nil_iff_forall_not_mem.mpr fun t ht => ?_⟩
  have hmem := h.ticking t ht
  simp [hdisarmed.timers, hdisarmed.ticking] at hmem

theorem Keeps.armed {id : TimerId} (h : Keeps s s') (harmed : Armed s.timers s.ticking id) :
    Armed s'.timers s'.ticking id := by
  refine ⟨harmed.valid, h.timers.trans harmed.timers, fun t ht => ?_⟩
  rcases h.ticking t ht with hold | hnew
  · exact harmed.ticking t hold
  · rw [harmed.timers] at hnew
    exact List.mem_singleton.mp hnew

theorem Keeps.registered {id : TimerId} (h : Keeps s s')
    (hregistered : Registered refusals s.timers s.ticking id) :
    Registered refusals s'.timers s'.ticking id := by
  cases hregistered with
  | armed harmed => exact .armed (h.armed harmed)
  | refused hrefusals hinvalid hdisarmed =>
    exact .refused hrefusals hinvalid (h.disarmed hdisarmed)

theorem Keeps.idle (h : Keeps s s') (hidle : Idle refusals s) : Idle refusals s' := by
  cases hidle with
  | running hon hreturned hregistered =>
    refine .running (h.running.trans hon) (h.stopReturned.trans hreturned) ?_
    rw [h.timerId]
    exact h.registered hregistered
  | stopped hoff hinvalid hdisarmed =>
    exact .stopped (h.running.trans hoff) (h.timerId.trans hinvalid) (h.disarmed hdisarmed)

theorem Keeps.stage (h : Keeps s s') {f : Frame Body} (hstage : Stage refusals s f) :
    Stage refusals s' f := by
  cases f with
  | start pc =>
    simp only [Stage, h.running, h.timerId, h.stopReturned] at hstage ⊢
    cases pc with
    | running => exact hstage.imp_left h.idle
    | schedulePeriodic => exact ⟨hstage.1, hstage.2.1, hstage.2.2.1, h.disarmed hstage.2.2.2⟩
    | timerId id => exact ⟨hstage.1, hstage.2.1, h.registered hstage.2.2⟩
  | stop pc =>
    cases pc with
    | running => exact h.idle hstage
    | timerId =>
      simp only [Stage, h.running, h.timerId, h.stopReturned] at hstage ⊢
      exact ⟨hstage.1, hstage.2.1, h.registered hstage.2.2⟩
    | cancel id =>
      simp only [Stage, h.running, h.timerId, h.stopReturned] at hstage ⊢
      exact ⟨hstage.1, hstage.2.1, hstage.2.2.1, h.armed hstage.2.2.2⟩
    | wait id =>
      simp only [Stage, h.running, h.timerId, h.stopReturned, h.timers] at hstage ⊢
      obtain ⟨hoff, hreturned, hinvalid, htimers, hticking⟩ := hstage
      refine ⟨hoff, hreturned, hinvalid, htimers, fun t ht => ?_⟩
      rcases h.ticking t ht with hold | hnew
      · exact hticking t hold
      · rw [htimers] at hnew
        cases hnew
  | _ => trivial

theorem Stage.steps {choice : Choice Input} {f : Frame Body} (h : Stage refusals s f)
    (hcalls : 0 < f.calls) (hpos : 0 < s.nextId) (hrefuses : f = .start .schedulePeriodic →
      choice.refused = true → refusals)
    (hsteps : f.Steps service choice s s' fs) :
    Stacks.Settled Frame.calls (Stage refusals) (Idle refusals) s' fs := by
  cases hsteps with
  | startReturns =>
    have hkeeps : Keeps s s.startReturns := ⟨rfl, rfl, rfl, rfl, fun _ => .inl⟩
    exact .of_idle (hkeeps.idle h.1) rfl
  | starts hidle =>
    obtain ⟨hbetween, hreturned⟩ := h
    cases hbetween with
    | running hon => exact absurd (hidle.symm.trans hon) Bool.false_ne_true
    | stopped _ hinvalid hdisarmed =>
      have hlast : Stacks.Settled Frame.calls (Stage refusals) (Idle refusals)
          { s with running := true } [(.start .schedulePeriodic : Frame Body)] :=
        .cons ⟨rfl, hreturned, hinvalid, hdisarmed⟩ Nat.one_pos rfl
      refine hlast.skips fun g hg => ?_
      obtain ⟨b, -, rfl⟩ := List.mem_map.mp hg
      rfl
  | refused hrefused =>
    obtain ⟨hrunning, hreturned, -, hdisarmed⟩ := h
    exact .cons ⟨hrunning, hreturned, .refused (hrefuses rfl hrefused) rfl hdisarmed⟩
      Nat.one_pos rfl
  | scheduled =>
    obtain ⟨hrunning, hreturned, -, hdisarmed⟩ := h
    refine .cons ⟨hrunning, hreturned, .armed ⟨Nat.ne_of_gt hpos, ?_, ?_⟩⟩ Nat.one_pos rfl
    · exact congrArg _ hdisarmed.timers
    · rw [hdisarmed.ticking]
      rintro t ⟨⟩
  | started id =>
    obtain ⟨hrunning, hreturned, hregistered⟩ := h
    exact .of_idle (.running hrunning hreturned hregistered) rfl
  | stopReturns hidle =>
    refine .of_idle ?_ rfl
    cases h with
    | running hon => exact absurd (hidle.symm.trans hon) Bool.false_ne_true
    | stopped hoff hinvalid hdisarmed => exact .stopped hoff hinvalid hdisarmed
  | stops hrunning =>
    refine .cons ?_ Nat.one_pos rfl
    cases h with
    | running _ hreturned hregistered => exact ⟨rfl, hreturned, hregistered⟩
    | stopped hoff => exact absurd (hoff.symm.trans hrunning) Bool.false_ne_true
  | noTimer hinvalid =>
    obtain ⟨hidle, -, hregistered⟩ := h
    cases hregistered with
    | armed harmed => exact absurd hinvalid harmed.valid
    | refused _ _ hdisarmed => exact .of_idle (.stopped hidle rfl hdisarmed) rfl
  | takes hvalid =>
    obtain ⟨hidle, hreturned, hregistered⟩ := h
    cases hregistered with
    | armed harmed => exact .cons ⟨hidle, hreturned, rfl, harmed⟩ Nat.one_pos rfl
    | refused _ hinvalid => exact absurd hinvalid hvalid
  | disarms id =>
    obtain ⟨hidle, hreturned, hinvalid, harmed⟩ := h
    refine .cons ⟨hidle, hreturned, hinvalid, ?_, harmed.ticking⟩ Nat.one_pos rfl
    change s.timers.erase id = []
    rw [harmed.timers, List.erase_cons_head]
  | waits id => exact .cons h Nat.one_pos rfl
  | @waited id hnone =>
    obtain ⟨hidle, -, hinvalid, htimers, hticking⟩ := h
    refine .of_idle (.stopped hidle hinvalid ⟨htimers, ?_⟩) rfl
    refine List.eq_nil_iff_forall_not_mem.mpr fun t ht => hnone ?_
    rw [← hticking t ht]
    exact ht
  | ticks | skips | body | tickEnd => cases hcalls

theorem Keeps.steps {choice : Choice Input} {f : Frame Body} (hcalls : f.calls = 0)
    (hsteps : f.Steps service choice s s' fs) : Keeps s s' ∧ tally Frame.calls fs = 0 := by
  cases hsteps with
  | ticks => exact ⟨⟨rfl, rfl, rfl, rfl, fun _ => .inl⟩, tally_body (fun _ => rfl) _⟩
  | skips => exact ⟨⟨rfl, rfl, rfl, rfl, fun _ => .inl⟩, rfl⟩
  | body b => exact ⟨⟨rfl, rfl, rfl, rfl, fun _ => .inl⟩, tally_body (fun _ => rfl) _⟩
  | tickEnd id => exact ⟨⟨rfl, rfl, rfl, rfl, fun _ ht => .inl (List.mem_of_mem_erase ht)⟩, rfl⟩
  | _ => cases hcalls

theorem staged (hok : RefusesOnlyIf refusals ok) (hw : (system service).Reach ok w) :
    Stacks.Staged Frame.calls (Stage refusals) (Idle refusals) w := by
  apply Program.token (p := program service) ?_ ?_ ?_ ?_ ?_ hw
  · intro w hw
    rw [calls_eq hw]
    exact Bool.toNat_le _
  · rintro s rfl
    exact .stopped rfl rfl ⟨rfl, rfl⟩
  · intro w tid choice f rest hreach hstepok hthread hcalls hstage
    apply hstage.steps hcalls (id_pos hreach) ?_ (f.steps_exec choice w.shared)
    rintro rfl hrefused
    exact hok w tid choice hstepok (Stacks.runs_eq hthread) hrefused
  · intro w tid choice f rest _ _ _ hcalls
    have hsteps : f.Steps service choice w.shared _ _ := f.steps_exec choice w.shared
    obtain ⟨hkeeps, hnone⟩ := Keeps.steps hcalls hsteps
    exact ⟨fun g _ hstage => hkeeps.stage hstage, fun hidle => .of_idle (hkeeps.idle hidle) hnone⟩
  · intro w event s' fs hreach _ harrived
    have hcalls := calls_eq hreach
    have hbusy : w.shared.calling = false → 0 < w.weigh Frame.calls → False := by
      intro hfree hpos
      rw [hcalls, hfree] at hpos
      exact Nat.lt_irrefl 0 hpos
    have hother : Keeps w.shared s' → tally Frame.calls fs = 0 →
        (0 < w.weigh Frame.calls → ∀ g : Frame Body, 0 < g.calls → Stage refusals w.shared g →
          Stage refusals s' g) ∧ (w.weigh Frame.calls = 0 → Idle refusals w.shared →
          Stacks.Settled Frame.calls (Stage refusals) (Idle refusals) s' fs) := by
      intro hkeeps hnone
      exact ⟨fun _ g _ => hkeeps.stage, fun _ hidle => .of_idle (hkeeps.idle hidle) hnone⟩
    cases Shared.arrived harrived with
    | start hfree =>
      refine ⟨fun hpos => (hbusy hfree hpos).elim, fun _ hidle => ?_⟩
      refine .cons ⟨?_, rfl⟩ Nat.one_pos rfl
      cases hidle with
      | running hon _ hregistered => exact .running hon rfl hregistered
      | stopped hoff hinvalid hdisarmed => exact .stopped hoff hinvalid hdisarmed
    | stop hfree =>
      refine ⟨fun hpos => (hbusy hfree hpos).elim, fun _ hidle => ?_⟩
      have hkeeps : Keeps w.shared { w.shared with calling := true } :=
        ⟨rfl, rfl, rfl, rfl, fun _ => .inl⟩
      exact .cons (hkeeps.idle hidle) Nat.one_pos rfl
    | @tick id harmed =>
      refine hother ⟨rfl, rfl, rfl, rfl, fun t ht => ?_⟩ rfl
      rcases List.mem_cons.mp ht with rfl | hold
      · exact .inr harmed
      · exact .inl hold
    | otherTimer => exact hother ⟨rfl, rfl, rfl, rfl, fun _ => .inl⟩ rfl
    | other event => exact hother ⟨rfl, rfl, rfl, rfl, fun _ => .inl⟩ rfl

namespace Frame

def own (weight : Body → Nat) : Frame Body → Nat
  | body b => weight b
  | _ => 0

end Frame

theorem tally_own (weight : Body → Nat) (bs : List Body) :
    tally (Frame.own weight) (bs.map .body) = tally weight bs := by
  rw [tally_map]
  rfl

theorem own_invariant {I : Own → Prop} (hinit : I service.initial)
    (hexec : ∀ w tid choice b rest, (system service).Reach ok w → ok w (.run tid choice) →
      w.threads[tid]? = some (.body b :: rest) → I w.shared.own →
      I (service.exec choice.input w.shared.own b).1)
    (harrive : ∀ event own, I own → I (service.arrive event own))
    (hw : (system service).Reach ok w) : I w.shared.own := by
  apply Program.invariant (p := program service) (I := fun w => I w.shared.own) ?_ ?_ ?_ hw
  · rintro s rfl
    exact hinit
  · intro w tid choice f rest hreach ih hok hthread
    have hsteps : f.Steps service choice w.shared _ _ := f.steps_exec choice w.shared
    change I (f.exec service choice w.shared).1.own
    generalize (f.exec service choice w.shared).1 = s' at hsteps ⊢
    generalize (f.exec service choice w.shared).2 = fs at hsteps
    cases hsteps with
    | body b => exact hexec w tid choice b rest hreach hok hthread ih
    | _ => exact ih
  · intro w event s' fs _ ih _ harrived
    cases Shared.arrived harrived with
    | other event => exact harrive event w.shared.own ih
    | _ => exact ih

theorem own_balance (paid due : Own → Nat) (weight : Body → Nat)
    (hinit : paid service.initial = due service.initial)
    (hschedule : tally weight service.beforeSchedule = 0) (htick : tally weight service.tick = 0)
    (hexec : ∀ input own b, paid (service.exec input own b).1 +
      tally weight (service.exec input own b).2 + due own =
        due (service.exec input own b).1 + (paid own + weight b))
    (harrive : ∀ event own, paid (service.arrive event own) + due own =
      due (service.arrive event own) + paid own)
    (hw : (system service).Reach ok w) :
    paid w.shared.own + w.weigh (Frame.own weight) = due w.shared.own := by
  apply step_focus (Frame.own weight) (J := fun s n => paid s.own + n = due s.own) hinit ?_ ?_ hw
  · intro choice s f s' fs others hsteps ih
    cases hsteps with
    | starts hidle =>
      rw [tally_append, tally_own, hschedule, Nat.zero_add]
      exact ih
    | ticks =>
      rw [tally_own, htick]
      exact ih
    | body b =>
      have hstep := hexec choice.input s.own b
      rw [tally_own]
      simp only [Frame.own] at ih ⊢
      omega
    | _ => exact ih
  · intro s event s' fs n harrived ih
    cases harrived with
    | other event =>
      have hstep := harrive event s.own
      simp only [tally_nil]
      omega
    | _ => simpa [Frame.own] using ih

structure Bounded (s : Shared Own) : Prop where
  atMostOne : s.timers.length ≤ 1
  disarmed : s.stopReturned = true → Disarmed s.timers s.ticking

theorem Disarmed.atMostOne {timers ticking : List TimerId} (h : Disarmed timers ticking) :
    timers.length ≤ 1 := by
  rw [h.timers]
  exact Nat.zero_le 1

theorem Armed.atMostOne {timers ticking : List TimerId} {id : TimerId}
    (h : Armed timers ticking id) : timers.length ≤ 1 := by
  rw [h.timers]
  exact Nat.le_of_eq rfl

theorem Registered.atMostOne {timers ticking : List TimerId} {id : TimerId}
    (h : Registered refusals timers ticking id) : timers.length ≤ 1 := by
  cases h with
  | armed harmed => exact harmed.atMostOne
  | refused _ _ hdisarmed => exact hdisarmed.atMostOne

theorem Bounded.of_running (hone : s.timers.length ≤ 1) (hreturned : s.stopReturned = false) :
    Bounded s :=
  ⟨hone, fun hstop => absurd (hreturned.symm.trans hstop) Bool.false_ne_true⟩

theorem Idle.bounded (h : Idle refusals s) : Bounded s := by
  cases h with
  | running _ hreturned hregistered => exact .of_running hregistered.atMostOne hreturned
  | stopped _ _ hdisarmed => exact ⟨hdisarmed.atMostOne, fun _ => hdisarmed⟩

theorem Stage.bounded {f : Frame Body} (h : Stage refusals s f) (hcalls : 0 < f.calls) :
    Bounded s := by
  cases f with
  | start pc =>
    cases pc with
    | running => exact h.1.bounded
    | schedulePeriodic => exact .of_running h.2.2.2.atMostOne h.2.1
    | timerId id => exact .of_running h.2.2.atMostOne h.2.1
  | stop pc =>
    cases pc with
    | running => exact Idle.bounded h
    | timerId => exact .of_running h.2.2.atMostOne h.2.1
    | cancel id => exact .of_running h.2.2.2.atMostOne h.2.1
    | wait id => exact .of_running (by rw [h.2.2.2.1]; exact Nat.zero_le 1) h.2.1
  | _ => cases hcalls

theorem bounded (hw : (system service).Reach ok w) : Bounded w.shared := by
  have hstaged : Stacks.Staged Frame.calls (Stage True) (Idle True) w :=
    staged (fun _ _ _ _ _ _ => trivial) hw
  by_cases hnone : w.weigh Frame.calls = 0
  · exact (hstaged.idle hnone).bounded
  · obtain ⟨stack, hstack, hpos⟩ := exists_of_tally_pos (Nat.pos_of_ne_zero hnone)
    obtain ⟨f, hf, hcalls⟩ := exists_of_tally_pos hpos
    exact (hstaged.stage stack hstack f hf hcalls).bounded hcalls

/-- Between the calls of the owner, the service is running if and only if it has a timer,
and it knows which; it never has two; and once `Stop` has returned, no callback runs or can
start until `Start` is called again. -/
structure Clean (service : Service Own Input Other Body) (w : World Own Body) : Prop where
  running_iff : w.weigh Frame.calls = 0 → (w.shared.running = true ↔ w.shared.timers ≠ [])
  timerId_eq : w.weigh Frame.calls = 0 → ∀ id ∈ w.shared.timers, id = w.shared.timerId
  atMostOne : w.shared.timers.length ≤ 1
  quiet : w.shared.stopReturned = true → ∀ id, w.weigh (Frame.ticks id) = 0 ∧
    (system service).step w (.spawn (.tick id)) = none

/-- Nothing can go wrong but that a service runs without a timer. -/
theorem clean_iff (hw : (system service).Reach ok w) :
    Clean service w ↔ (w.weigh Frame.calls = 0 → w.shared.running = true →
      w.shared.timerId ≠ kInvalidTimerId) := by
  have hstaged : Stacks.Staged Frame.calls (Stage True) (Idle True) w :=
    staged (fun _ _ _ _ _ _ => trivial) hw
  constructor
  · intro hclean hnone hon
    have htimers := (hclean.running_iff hnone).mp hon
    cases hstaged.idle hnone with
    | running _ _ hregistered =>
      cases hregistered with
      | armed harmed => exact harmed.valid
      | refused _ _ hdisarmed => exact absurd hdisarmed.timers htimers
    | stopped hoff => exact absurd (hoff.symm.trans hon) Bool.false_ne_true
  · intro hvalid
    refine ⟨fun hnone => ?_, fun hnone id hid => ?_, (bounded hw).atMostOne, fun hstop id => ?_⟩
    · cases hstaged.idle hnone with
      | running hon _ hregistered =>
        cases hregistered with
        | armed harmed =>
          rw [harmed.timers]
          exact ⟨fun _ => List.cons_ne_nil _ _, fun _ => hon⟩
        | refused _ hinvalid => exact absurd hinvalid (hvalid hnone hon)
      | stopped hoff _ hdisarmed =>
        rw [hoff, hdisarmed.timers]
        exact ⟨fun hon => absurd hon Bool.false_ne_true, fun hne => absurd rfl hne⟩
    · cases hstaged.idle hnone with
      | running _ _ hregistered =>
        cases hregistered with
        | armed harmed =>
          rw [harmed.timers] at hid
          exact List.mem_singleton.mp hid
        | refused _ _ hdisarmed =>
          rw [hdisarmed.timers] at hid
          cases hid
      | stopped _ _ hdisarmed =>
        rw [hdisarmed.timers] at hid
        cases hid
    · have hdisarmed := (bounded hw).disarmed hstop
      refine ⟨?_, ?_⟩
      · rw [ticks_eq id hw, hdisarmed.ticking, List.count_nil]
      · simp [system, Program.system, Program.machine, Machine.system, Machine.step, program,
          Shared.arrive, hdisarmed.timers]

/-- Every timer that `Start` asks for is given. -/
def Scheduled (w : World Own Body) : Label Input Other → Prop
  | .run tid choice => w.runs (.run tid choice : Label Input Other) =
      some (.start .schedulePeriodic) → choice.refused = false
  | .spawn _ => True

instance [DecidableEq Body] (w : World Own Body) (l : Label Input Other) :
    Decidable (Scheduled w l) :=
  match l with
  | .run tid choice => inferInstanceAs (Decidable (w.runs (.run tid choice : Label Input Other) =
      some (.start .schedulePeriodic) → choice.refused = false))
  | .spawn _ => .isTrue trivial

theorem clean (hw : (system service).Reach Scheduled w) : Clean service w := by
  refine (clean_iff hw).mpr fun hnone hon => ?_
  have hok : RefusesOnlyIf False (Scheduled : World Own Body → Label Input Other → Prop) := by
    intro w tid choice hstep hruns hrefused
    rw [hstep hruns] at hrefused
    cases hrefused
  cases (staged hok hw).idle hnone with
  | running _ _ hregistered =>
    cases hregistered with
    | armed harmed => exact harmed.valid
    | refused hnever => exact hnever.elim
  | stopped hoff => exact absurd (hoff.symm.trans hon) Bool.false_ne_true

end FastPort.Services.PeriodicService
