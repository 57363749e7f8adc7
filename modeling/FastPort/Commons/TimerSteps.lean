import FastPort.Commons.TimerQueue

/-! What a step does to one timer, stated once: either the step creates the timer, or it is
one of the acts on it, or it leaves the timer alone and at most begins acts on it. The
rules at the end prove what holds of one timer and of what the acts on it weigh. -/
namespace FastPort.Commons.TimerQueue

open FastPort.Foundation.Pool FastPort.Foundation.Stack FastPort.Foundation.Tally
open FastPort.Foundation.ThreadpoolTimer FastPort.Foundation.Transition

/-- What an act can do, the creation apart. -/
inductive Stepped (id : TimerId) (t : Timer) : Act → Timer → Option Act → Prop where
  | createFailed (p : Bool) (i : Duration) : Stepped id t (.scheduleImpl p i .createTimer) t none
  | emplace (p : Bool) (i : Duration) : Stepped id t (.scheduleImpl p i .emplace)
      { t with published := true } (some (.scheduleImpl p i .setTimer))
  | setTimer (p : Bool) (i : Duration) : Stepped id t (.scheduleImpl p i .setTimer)
      { t with toTpTimer := t.set (period p i) } (some (.scheduleImpl p i .returns))
  | scheduled (p : Bool) (i : Duration) : Stepped id t (.scheduleImpl p i .returns)
      { t with returned := t.returned + 1 } none
  | invalid (w c : Bool) (hid : id = kInvalidTimerId) :
      Stepped id t (.cancelImpl w c .checkId) t none
  | valid (w c : Bool) (hid : id ≠ kInvalidTimerId) :
      Stepped id t (.cancelImpl w c .checkId) t (some (.cancelImpl w c .erase))
  | notFound (w c : Bool) (hnone : t.published = false) :
      Stepped id t (.cancelImpl w c .erase) t none
  | erase (w c : Bool) (hsome : t.published = true) : Stepped id t (.cancelImpl w c .erase)
      { t with published := false } (some (.cancelImpl w c .storeCancelled))
  | storeCancelled (w c : Bool) : Stepped id t (.cancelImpl w c .storeCancelled)
      { t with state := .cancelled, cancelled := t.cancelled + 1 }
      (some (.cancelImpl w c .readHandle))
  | noHandle (w c : Bool) (hnull : t.handle = false) :
      Stepped id t (.cancelImpl w c .readHandle) t (some (.cancelImpl w c .returns))
  | readHandle (w c : Bool) (hhandle : t.handle = true) :
      Stepped id t (.cancelImpl w c .readHandle) t (some (.cancelImpl w c .disarm))
  | disarmOwn (w : Bool) : Stepped id t (.cancelImpl w true .disarm)
      { t with toTpTimer := t.cease, disarmed := t.disarmed + 1 }
      (some (.cancelImpl w true .storeCloseAfter))
  | disarm (w : Bool) : Stepped id t (.cancelImpl w false .disarm)
      { t with toTpTimer := t.cease, disarmed := t.disarmed + 1 }
      (some (.cancelImpl w false .withdraw))
  | storeCloseAfter (w c : Bool) : Stepped id t (.cancelImpl w c .storeCloseAfter)
      { t with closeAfterCallback := true } (some (.cancelImpl w c .returns))
  | withdraw (w c : Bool) : Stepped id t (.cancelImpl w c .withdraw)
      { t with toTpTimer := t.toTpTimer.withdraw w } (some (.cancelImpl w c .wait))
  | waiting (w c : Bool) :
      Stepped id t (.cancelImpl w c .wait) t (some (.cancelImpl w c .wait))
  | waited (w c : Bool) (hnone : t.outstanding = 0) :
      Stepped id t (.cancelImpl w c .wait) t (some (.cancelImpl w c .close))
  | close (w c : Bool) : Stepped id t (.cancelImpl w c .close)
      { t with toTpTimer := t.close } (some (.cancelImpl w c .clearHandle))
  | clearHandle (w c : Bool) : Stepped id t (.cancelImpl w c .clearHandle)
      { t with handle := false } (some (.cancelImpl w c .returns))
  | cancelled (w c : Bool) : Stepped id t (.cancelImpl w c .returns)
      { t with
        cancels := t.cancels + 1
        outsideCancels := t.outsideCancels + if c then 0 else 1 } none
  | tpTimerCallback : Stepped id t (.runEntry .tpTimerCallback) t (some (.runEntry .keepAlive))
  | keepAlive : Stepped id t (.runEntry .keepAlive) t (some (.runEntry .entryCas))
  | refused (hstate : t.state = .cancelled) : Stepped id t (.runEntry .entryCas)
      { t with entered := t.entered + 1 } (some (.runEntry .release))
  | enter (hstate : t.state ≠ .cancelled) : Stepped id t (.runEntry .entryCas)
      { t with
        state := if t.state = .scheduled then .running else t.state
        entered := t.entered + 1
        enteredLate := t.enteredLate + if 0 < t.cancelled then 1 else 0 }
      (some (.runEntry .invoke))
  | invoke : Stepped id t (.runEntry .invoke) t (some (.runEntry .mark))
  | mark : Stepped id t (.runEntry .mark)
      { t with
        state :=
          if !t.isPeriodic then .completed
          else if t.state = .running then .scheduled
          else t.state } (some (.runEntry .closeExchange))
  | closeLeft (hflag : t.closeAfterCallback = true) : Stepped id t (.runEntry .closeExchange)
      { t with closeAfterCallback := false } (some (.runEntry .readHandle))
  | noClose (hflag : t.closeAfterCallback = false) :
      Stepped id t (.runEntry .closeExchange) t (some (.runEntry .release))
  | takeHandle : Stepped id t (.runEntry .readHandle) t (some (.runEntry (.clearHandle t.handle)))
  | giveUpHandle (h : Bool) : Stepped id t (.runEntry (.clearHandle h))
      { t with handle := false } (some (.runEntry (.close h)))
  | closeNull : Stepped id t (.runEntry (.close false)) t (some (.runEntry .release))
  | closeAfter : Stepped id t (.runEntry (.close true))
      { t with toTpTimer := t.close } (some (.runEntry .release))
  | release : Stepped id t (.runEntry .release) t (some (.runEntry .finish))
  | finish : Stepped id t (.runEntry .finish) { t with toTpTimer := t.finish } none

def Act.IsCall (a : Act) : Prop := ∃ w c, a = .cancelImpl w c .checkId

def Frame.on (id : TimerId) : Frame → Option Act
  | act i a => if i = id then some a else none
  | _ => none

/-- What a step of a frame does to a timer, and the acts on it that it leads to. -/
inductive Touched (id : TimerId) (t : Timer) : Frame → Timer → List Act → Prop where
  | create (p : Bool) (i : Duration) : Touched id t (.act id (.scheduleImpl p i .createTimer))
      (t.create p) [.scheduleImpl p i .emplace]
  | step {a : Act} {t' : Timer} {next : Option Act} (h : Stepped id t a t' next) :
      Touched id t (.act id a) t' next.toList
  | allocate (p : Bool) (i : Duration) :
      Touched id t (.scheduleImpl p i .allocateId) t [.scheduleImpl p i .createTimer]
  | other {f : Frame} {acts : List Act} (hother : f.on id = none)
      (hcalls : ∀ a ∈ acts, a.IsCall) : Touched id t f t acts

theorem stepped_cancelImpl (id : TimerId) (w c : Bool) (t : Timer) (pc : CancelPc) :
    Stepped id t (.cancelImpl w c pc) (cancelImpl id w c t pc).1 (cancelImpl id w c t pc).2 := by
  cases pc with
  | checkId =>
    by_cases hid : id = kInvalidTimerId
    · simpa [cancelImpl, hid] using Stepped.invalid w c rfl
    · simpa [cancelImpl, hid] using Stepped.valid w c hid
  | erase =>
    cases hpublished : t.published with
    | true => simpa [cancelImpl, hpublished] using Stepped.erase w c hpublished
    | false => simpa [cancelImpl, hpublished] using Stepped.notFound w c hpublished
  | storeCancelled => exact .storeCancelled w c
  | readHandle =>
    cases hhandle : t.handle with
    | true => simpa [cancelImpl, hhandle] using Stepped.readHandle w c hhandle
    | false => simpa [cancelImpl, hhandle] using Stepped.noHandle w c hhandle
  | disarm =>
    cases c with
    | true => exact .disarmOwn w
    | false => exact .disarm w
  | storeCloseAfter => exact .storeCloseAfter w c
  | withdraw => exact .withdraw w c
  | wait =>
    by_cases hnone : t.outstanding = 0
    · simpa [cancelImpl, hnone] using Stepped.waited w c hnone
    · simpa [cancelImpl, hnone] using Stepped.waiting w c
  | close => exact .close w c
  | clearHandle => exact .clearHandle w c
  | returns => exact .cancelled w c

theorem stepped_runEntry (id : TimerId) (t : Timer) (pc : CallbackPc) :
    Stepped id t (.runEntry pc) (runEntry t pc).1 (runEntry t pc).2 := by
  cases pc with
  | tpTimerCallback => exact .tpTimerCallback
  | keepAlive => exact .keepAlive
  | entryCas =>
    by_cases hstate : t.state = .cancelled
    · simpa [runEntry, hstate] using Stepped.refused hstate
    · simpa [runEntry, hstate] using Stepped.enter hstate
  | invoke => exact .invoke
  | mark => exact .mark
  | closeExchange =>
    cases hflag : t.closeAfterCallback with
    | true => simpa [runEntry, hflag] using Stepped.closeLeft hflag
    | false =>
      have hsame : { t with closeAfterCallback := false } = t := by rw [← hflag]
      simpa [runEntry, hflag, hsame] using Stepped.noClose hflag
  | readHandle => exact .takeHandle
  | clearHandle h => exact .giveUpHandle h
  | close h =>
    cases h with
    | true => exact .closeAfter
    | false => exact .closeNull
  | release => exact .release
  | finish => exact .finish

theorem touched_act (choice : Choice) (id : TimerId) (t : Timer) (a : Act) :
    Touched id t (.act id a) (a.exec choice id t).1 (a.exec choice id t).2.toList := by
  cases a with
  | scheduleImpl p i pc =>
    cases pc with
    | createTimer =>
      cases hcreated : choice.timerCreated with
      | true => simpa [Act.exec, scheduleImpl, hcreated] using Touched.create p i
      | false => simpa [Act.exec, scheduleImpl, hcreated] using Touched.step (.createFailed p i)
    | emplace => exact .step (.emplace p i)
    | setTimer => exact .step (.setTimer p i)
    | returns => exact .step (.scheduled p i)
  | cancelImpl w c pc => exact .step (stepped_cancelImpl id w c t pc)
  | runEntry pc => exact .step (stepped_runEntry id t pc)

theorem exec_scheduleImpl {choice : Choice} {id : TimerId} {t : Timer} {p : Bool} {i : Duration}
    {pc : SchedulePc} {next : Act}
    (hnext : ((Act.scheduleImpl p i pc).exec choice id t).2 = some next) :
    ∃ pc', next = .scheduleImpl p i pc' := by
  cases pc with
  | createTimer =>
    simp only [Act.exec, scheduleImpl] at hnext
    split at hnext
    · cases hnext
      exact ⟨_, rfl⟩
    · cases hnext
  | returns => cases hnext
  | _ =>
    cases hnext
    exact ⟨_, rfl⟩

theorem exec_cancelImpl {choice : Choice} {id : TimerId} {t : Timer} {w c : Bool} {pc : CancelPc}
    {next : Act} (hnext : ((Act.cancelImpl w c pc).exec choice id t).2 = some next) :
    ∃ pc', next = .cancelImpl w c pc' ∧ (pc' = .storeCloseAfter → c = true) := by
  have hstep := stepped_cancelImpl id w c t pc
  rw [show (cancelImpl id w c t pc).2 = some next from hnext] at hstep
  generalize (cancelImpl id w c t pc).1 = t' at hstep
  cases hstep with
  | disarmOwn => exact ⟨_, rfl, fun _ => rfl⟩
  | _ => exact ⟨_, rfl, by rintro ⟨⟩⟩

theorem exec_runEntry {choice : Choice} {id : TimerId} {t : Timer} {pc : CallbackPc} {next : Act}
    (hnext : ((Act.runEntry pc).exec choice id t).2 = some next) : ∃ pc', next = .runEntry pc' := by
  have hstep := stepped_runEntry id t pc
  rw [show (runEntry t pc).2 = some next from hnext] at hstep
  generalize (runEntry t pc).1 = t' at hstep
  cases hstep <;> exact ⟨_, rfl⟩

inductive Follows (choice : Choice) (s : Shared) : Frame → Frame → Prop where
  | call {call : ApiCall} (current : Option TimerId) (hcall : choice.call = some call) :
      Follows choice s (.userCode current) (call.frame current)
  | userCode (current : Option TimerId) : Follows choice s (.userCode current) (.userCode current)
  | pass (p : Bool) (i : Duration) (hrunning : s.queueState = .running) :
      Follows choice s (.scheduleImpl p i .checkState) (.scheduleImpl p i .allocateId)
  | allocate (p : Bool) (i : Duration) (id : TimerId) :
      Follows choice s (.scheduleImpl p i .allocateId) (.act id (.scheduleImpl p i .createTimer))
  | shutdown (w : Bool) (current : Option TimerId) (pc pc' : ShutdownPc) :
      Follows choice s (.shutdownImpl w current pc) (.shutdownImpl w current pc')
  | cancel (w : Bool) (current : Option TimerId) (id : TimerId) (ids : List TimerId) :
      Follows choice s (.shutdownImpl w current (.cancel (id :: ids)))
        (.act id (.cancelImpl w (isCurrentCallbackEntry current id) .checkId))
  | job (id : TimerId) : Follows choice s (.act id (.runEntry .invoke)) (.userCode (some id))
  | scheduleImpl (id : TimerId) (p : Bool) (i : Duration) (pc pc' : SchedulePc) :
      Follows choice s (.act id (.scheduleImpl p i pc)) (.act id (.scheduleImpl p i pc'))
  | cancelImpl (id : TimerId) (w c : Bool) (pc pc' : CancelPc)
      (hown : pc' = .storeCloseAfter → c = true) :
      Follows choice s (.act id (.cancelImpl w c pc)) (.act id (.cancelImpl w c pc'))
  | runEntry (id : TimerId) (pc pc' : CallbackPc) :
      Follows choice s (.act id (.runEntry pc)) (.act id (.runEntry pc'))

theorem follows_act {choice : Choice} {s : Shared} {id : TimerId} {a next : Act}
    (hnext : (a.exec choice id (s.timers id)).2 = some next) :
    Follows choice s (.act id a) (.act id next) := by
  cases a with
  | scheduleImpl p i pc =>
    obtain ⟨pc', rfl⟩ := exec_scheduleImpl hnext
    exact .scheduleImpl id p i pc pc'
  | cancelImpl w c pc =>
    obtain ⟨pc', rfl, hown⟩ := exec_cancelImpl hnext
    exact .cancelImpl id w c pc pc' hown
  | runEntry pc =>
    obtain ⟨pc', rfl⟩ := exec_runEntry hnext
    exact .runEntry id pc pc'

theorem follows {choice : Choice} {s : Shared} {f g : Frame} (hg : g ∈ (f.exec choice s).2) :
    Follows choice s f g := by
  cases f with
  | userCode current =>
    cases hcall : choice.call with
    | none => simp [Frame.exec, hcall] at hg
    | some call =>
      simp only [Frame.exec, hcall, Option.elim_some, List.mem_cons, List.not_mem_nil,
        or_false] at hg
      rcases hg with rfl | rfl
      · exact .call current hcall
      · exact .userCode current
  | scheduleImpl p i pc =>
    cases pc with
    | checkState =>
      simp only [Frame.exec] at hg
      split at hg
      · rename_i hrunning
        rw [List.mem_singleton.mp hg]
        exact .pass p i hrunning
      · cases hg
    | allocateId =>
      rw [List.mem_singleton.mp hg]
      exact .allocate p i _
  | shutdownImpl w current pc =>
    cases pc with
    | cas =>
      simp only [Frame.exec, shutdownImpl] at hg
      split at hg
      · rw [List.mem_singleton.mp hg]
        exact .shutdown w current _ _
      · cases hg
    | snapshot =>
      rw [List.mem_singleton.mp hg]
      exact .shutdown w current _ _
    | cancel ids =>
      cases ids with
      | nil =>
        rw [List.mem_singleton.mp hg]
        exact .shutdown w current _ _
      | cons id ids =>
        simp only [Frame.exec, shutdownImpl, List.mem_cons, List.not_mem_nil, or_false] at hg
        rcases hg with rfl | rfl
        · exact .cancel w current id ids
        · exact .shutdown w current _ _
    | dead => cases hg
  | act id a =>
    rw [Frame.exec, List.mem_append, List.mem_map] at hg
    rcases hg with hg | ⟨next, hnext, rfl⟩
    · unfold Act.calls at hg
      split at hg
      · rw [List.mem_singleton.mp hg]
        exact .job id
      · cases hg
    · exact follows_act (Option.mem_toList.mp hnext)

inductive Arrives : Event → List Frame → Prop where
  | call (call : ApiCall) : Arrives (.call call) [call.frame none]
  | expire (id : TimerId) : Arrives (.expire id) []
  | startCallback (id : TimerId) :
      Arrives (.startCallback id) [.act id (.runEntry .tpTimerCallback)]

theorem arrived {s s' : Shared} {event : Event} {fs : List Frame}
    (h : s.arrive event = some (s', fs)) :
    Arrives event fs ∧ ∃ timers, s' = { s with timers := timers } := by
  cases event with
  | call call =>
    cases h
    exact ⟨.call call, s.timers, rfl⟩
  | expire id =>
    obtain ⟨tp, -, hnext⟩ := Option.map_eq_some_iff.mp h
    cases hnext
    exact ⟨.expire id, _, rfl⟩
  | startCallback id =>
    obtain ⟨tp, -, hnext⟩ := Option.map_eq_some_iff.mp h
    cases hnext
    exact ⟨.startCallback id, _, rfl⟩

theorem touched_other {choice : Choice} {s : Shared} {f : Frame} {id : TimerId}
    (hother : f.on id = none) (hsame : (f.exec choice s).1.timers id = s.timers id)
    (hcalls : ∀ g ∈ (f.exec choice s).2, ∀ a ∈ g.on id, a.IsCall) :
    Touched id (s.timers id) f ((f.exec choice s).1.timers id)
      ((f.exec choice s).2.filterMap (Frame.on id)) := by
  rw [hsame]
  apply Touched.other hother
  intro a ha
  obtain ⟨g, hg, hon⟩ := List.mem_filterMap.mp ha
  exact hcalls g hg a hon

theorem isCall_of_on (i id : TimerId) (w c : Bool) :
    ∀ a ∈ (Frame.act i (.cancelImpl w c .checkId)).on id, a.IsCall := by
  intro a ha
  simp only [Frame.on, Option.mem_def, Option.ite_none_right_eq_some, Option.some.injEq] at ha
  exact ⟨w, c, ha.2.symm⟩

theorem isCall_of_frame (id : TimerId) (current : Option TimerId) (call : ApiCall) :
    ∀ a ∈ (call.frame current).on id, a.IsCall := by
  cases call with
  | cancel i => exact isCall_of_on i id _ _
  | _ =>
    intro a ha
    cases ha

theorem filterMap_on_calls (i id : TimerId) (a : Act) :
    (a.calls i).filterMap (Frame.on id) = [] := by
  unfold Act.calls
  split <;> rfl

theorem filterMap_on_next (i id : TimerId) (next : Option Act) :
    (next.toList.map (Frame.act i)).filterMap (Frame.on id) =
      if i = id then next.toList else [] := by
  by_cases hi : i = id <;> cases next <;> simp [Frame.on, hi]

theorem filterMap_on_act (choice : Choice) (s : Shared) (i id : TimerId) (a : Act) :
    ((Frame.act i a).exec choice s).2.filterMap (Frame.on id) =
      if i = id then (a.exec choice i (s.timers i)).2.toList else [] := by
  rw [Frame.exec, List.filterMap_append, filterMap_on_calls, filterMap_on_next, List.nil_append]

theorem timers_shutdownImpl (choice : Choice) (s : Shared) (w : Bool) (current : Option TimerId)
    (pc : ShutdownPc) : (shutdownImpl choice s w current pc).1.timers = s.timers := by
  cases pc with
  | cas =>
    simp only [shutdownImpl]
    split <;> rfl
  | cancel ids => cases ids <;> rfl
  | _ => rfl

theorem touched (choice : Choice) (s : Shared) (f : Frame) (id : TimerId) :
    Touched id (s.timers id) f ((f.exec choice s).1.timers id)
      ((f.exec choice s).2.filterMap (Frame.on id)) := by
  cases f with
  | userCode current =>
    apply touched_other rfl rfl
    intro g hg
    cases follows hg with
    | call _ hcall => exact isCall_of_frame id current _
    | userCode => simp [Frame.on]
  | scheduleImpl p i pc =>
    cases pc with
    | checkState =>
      apply touched_other rfl rfl
      intro g hg
      cases follows hg with
      | pass => simp [Frame.on]
    | allocateId =>
      by_cases hid : (allocateId s.nextId).1 = id
      · simpa [Frame.exec, Frame.on, hid] using Touched.allocate p i
      · apply touched_other rfl rfl
        intro g hg
        rw [List.mem_singleton.mp hg]
        simp [Frame.on, hid]
  | shutdownImpl w current pc =>
    apply touched_other rfl
    · exact congrFun (timers_shutdownImpl choice s w current pc) id
    · intro g hg
      cases follows hg with
      | shutdown => simp [Frame.on]
      | cancel _ _ i ids => exact isCall_of_on i id _ _
  | act i a =>
    rw [filterMap_on_act]
    by_cases hi : i = id
    · subst hi
      rw [if_pos rfl]
      simpa [Frame.exec] using touched_act choice i (s.timers i) a
    · have hsame : ((Frame.act i a).exec choice s).1.timers id = s.timers id :=
        Function.update_of_ne (Ne.symm hi) _ _
      rw [hsame, if_neg hi]
      apply Touched.other
      · simp [Frame.on, hi]
      · simp

inductive Occurred (t : Timer) : Timer → Option Act → Prop where
  | expire {period : Nat} (harmed : t.armed = some period) : Occurred t
      { t with armed := if period = 0 then none else some period, queued := t.queued + 1 } none
  | start (hqueued : 0 < t.queued) : Occurred t
      { t with queued := t.queued - 1, running := t.running + 1 }
      (some (.runEntry .tpTimerCallback))

theorem occurred {s s' : Shared} {event : Event} {fs : List Frame}
    (h : s.arrive event = some (s', fs)) (id : TimerId) :
    (∃ next : Option Act, Occurred (s.timers id) (s'.timers id) next ∧
      fs.filterMap (Frame.on id) = next.toList) ∨
    (s'.timers id = s.timers id ∧ ∀ a ∈ fs.filterMap (Frame.on id), a.IsCall) := by
  cases event with
  | call call =>
    cases h
    apply Or.inr
    apply And.intro rfl
    intro a ha
    obtain ⟨g, hg, hon⟩ := List.mem_filterMap.mp ha
    rw [List.mem_singleton.mp hg] at hon
    exact isCall_of_frame id none call a hon
  | expire i =>
    obtain ⟨tp, htp, hnext⟩ := Option.map_eq_some_iff.mp h
    obtain ⟨period, harmed, rfl⟩ := TpTimer.exists_of_expire htp
    cases hnext
    by_cases hi : i = id
    · subst hi
      apply Or.inl
      refine ⟨none, ?_, rfl⟩
      simpa using Occurred.expire harmed
    · apply Or.inr
      exact ⟨Function.update_of_ne (Ne.symm hi) _ _, by simp⟩
  | startCallback i =>
    obtain ⟨tp, htp, hnext⟩ := Option.map_eq_some_iff.mp h
    obtain ⟨hqueued, rfl⟩ := TpTimer.of_start htp
    cases hnext
    by_cases hi : i = id
    · subst hi
      apply Or.inl
      refine ⟨some (.runEntry .tpTimerCallback), ?_, by simp [Frame.on]⟩
      simpa using Occurred.start hqueued
    · apply Or.inr
      exact ⟨Function.update_of_ne (Ne.symm hi) _ _, by simp [Frame.on, hi]⟩

def share (id : TimerId) (weight : Act → Nat) (f : Frame) : Nat := (f.on id).elim 0 weight

theorem share_act (id : TimerId) (weight : Act → Nat) (a : Act) :
    share id weight (.act id a) = weight a := by
  simp [share, Frame.on]

theorem tally_share (id : TimerId) (weight : Act → Nat) (fs : List Frame) :
    tally (share id weight) fs = tally weight (fs.filterMap (Frame.on id)) := by
  induction fs with
  | nil => rfl
  | cons f fs ih => cases h : f.on id <;> simp [share, h, ih]

theorem tally_toList (weight : Act → Nat) (next : Option Act) :
    tally weight next.toList = next.elim 0 weight := by
  cases next <;> rfl

theorem share_eq_zero_of {v weight : Act → Nat} (h : ∀ a, v a = 0 → weight a = 0) {id : TimerId}
    (f : Frame) (hf : share id v f = 0) : share id weight f = 0 := by
  unfold share at hf ⊢
  cases hon : f.on id with
  | none => rfl
  | some a =>
    rw [hon] at hf
    exact h a hf

theorem weigh_share_eq_zero {v weight : Act → Nat} (h : ∀ a, v a = 0 → weight a = 0) {w : World}
    {id : TimerId} (hnone : w.weigh (share id v) = 0) : w.weigh (share id weight) = 0 := by
  rw [Stacks.weigh_eq_zero] at hnone ⊢
  intro stack hstack f hf
  exact share_eq_zero_of h f (hnone stack hstack f hf)

theorem weigh_share_add (v weight : Act → Nat) (w : World) (id : TimerId) :
    w.weigh (share id fun a => v a + weight a) =
      w.weigh (share id v) + w.weigh (share id weight) := by
  have hshare : (share id fun a => v a + weight a) = fun f => share id v f + share id weight f := by
    funext f
    unfold share
    cases f.on id <;> rfl
  rw [hshare, Stacks.weigh_add]

theorem weigh_share_alone {v weight : Act → Nat} (h : ∀ a, v a = 0 → weight a = 0) {w : World}
    {id : TimerId} {tid : Nat} {a : Act} {rest : List Frame}
    (hthread : w.threads[tid]? = some (.act id a :: rest)) (halone : w.weigh (share id v) ≤ v a) :
    w.weigh (share id weight) = weight a := by
  rw [← share_act id v a] at halone
  have hweigh := Stacks.weigh_eq_of_alone (share_eq_zero_of h) hthread halone
  rwa [share_act] at hweigh

theorem weight_le_share (weight : Act → Nat) {w : World} {id : TimerId} {tid : Nat} {a : Act}
    {rest : List Frame} (hthread : w.threads[tid]? = some (.act id a :: rest)) :
    weight a ≤ w.weigh (share id weight) := by
  rw [← share_act id weight a]
  exact Stacks.weight_le_weigh hthread

def Act.busy : Act → Nat
  | scheduleImpl _ _ .createTimer => 0
  | cancelImpl _ _ .checkId => 0
  | cancelImpl _ _ .erase => 0
  | _ => 1

def Settles (weight : Act → Nat) : Prop := ∀ a, a.busy = 0 → weight a = 0

namespace Settles

variable {weight : Act → Nat}

theorem of_calls (hcreate : ∀ p i, weight (.scheduleImpl p i .createTimer) = 0)
    (hcheck : ∀ w c, weight (.cancelImpl w c .checkId) = 0)
    (herase : ∀ w c, weight (.cancelImpl w c .erase) = 0) : Settles weight := by
  intro a ha
  unfold Act.busy at ha
  split at ha
  · exact hcreate _ _
  · exact hcheck _ _
  · exact herase _ _
  · cases ha

theorem tally (h : Settles weight) {acts : List Act} (hcalls : ∀ a ∈ acts, a.IsCall) :
    tally weight acts = 0 := by
  rw [tally_eq_zero]
  intro a ha
  obtain ⟨w, c, rfl⟩ := hcalls a ha
  exact h _ rfl

theorem weigh (h : Settles weight) {w : World} {id : TimerId}
    (hidle : w.weigh (share id Act.busy) = 0) : w.weigh (share id weight) = 0 :=
  weigh_share_eq_zero h hidle

end Settles

end FastPort.Commons.TimerQueue
