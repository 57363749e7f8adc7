import FastPort.Benchmark.MultiSessionSamples

/-! The run comes to an end: left to itself it comes to rest, and at rest both waits of the
main thread are over. -/
namespace FastPort.Benchmark.MultiSession

open FastPort.Foundation.Pool FastPort.Foundation.Stack FastPort.Foundation.Tally
open FastPort.Foundation.Transition FastPort.Foundation.WaitSet

variable {setup : Setup} {ok : World → Label → Prop} {w w' : World}

def GoesOn (setup : Setup) (w w' : World) : Prop :=
  w' ≠ w ∧ ((∃ event, (system setup).step w (.spawn event) = some w') ∨
    ∃ tid nowNs, (system setup).step w (.run tid ⟨nowNs, false⟩) = some w')

def AtRest (setup : Setup) (w : World) : Prop := ∀ w', ¬ GoesOn setup w w'

def MainPc.effort (sessionCount : Nat) : MainPc → Nat
  | send measured session =>
      5 * (sessionCount - session) + 2 + if measured then 0 else 5 * sessionCount + 3
  | await measured => 1 + if measured then 0 else 5 * sessionCount + 3
  | waiting measured _ => 2 + if measured then 0 else 5 * sessionCount + 3
  | startMeasured => 5 * sessionCount + 3

def Caller.effort (sessionCount session : Nat) (measured : Bool) : Caller → Nat
  | main => MainPc.effort sessionCount (.send measured (session + 1))
  | handler _ => 1

def SendNextPc.effort : SendNextPc → Nat
  | claim => 4
  | prepare _ => 16
  | storePayloadIndex _ _ => 15
  | storeSendTime _ => 14
  | sendMessage _ => 13

def HandlerPc.effort : HandlerPc → Nat
  | start _ => 10
  | loadSendTime _ _ => 9
  | loadPayloadIndex _ _ _ => 8
  | addSample _ _ _ _ => 7
  | completeWarmup _ => 6
  | completeMeasured _ => 6
  | notify _ => 4
  | returns => 1

def Frame.effort (sessionCount : Nat) : Frame → Nat
  | sendNext session measured caller pc => caller.effort sessionCount session measured + pc.effort
  | handler _ pc => pc.effort
  | main pc => pc.effort sessionCount

def remaining (setup : Setup) (next : Bool → Nat) : Nat :=
  (setup.limit false - next false) + (setup.limit true - next true)

def Shared.effort (setup : Setup) (s : Shared) : Nat :=
  (if s.started then 0 else 10 * setup.sessionCount + 6) + 20 * remaining setup s.next +
    12 * s.requests.length + 11 * s.responses.length + if s.doneCv.waiters = [] then 2 else 0

def effort (setup : Setup) (w : World) : Nat :=
  w.shared.effort setup + w.weigh (Frame.effort setup.sessionCount)

@[simp] theorem Shared.setContext_effort (s : Shared) (session : Nat)
    (context : SessionContext) : (s.setContext session context).effort setup = s.effort setup := rfl

theorem remaining_bump_le (setup : Setup) (next : Bool → Nat) (measured : Bool) :
    remaining setup (bump next measured) ≤ remaining setup next := by
  have hfalse := le_bump next measured false
  have htrue := le_bump next measured true
  unfold remaining
  omega

theorem remaining_bump {next : Bool → Nat} {measured : Bool}
    (hlt : next measured < setup.limit measured) :
    remaining setup (bump next measured) + 1 = remaining setup next := by
  cases measured with
  | _ =>
    simp only [remaining, bump_apply, if_true, Bool.false_eq_true, Bool.true_eq_false, if_false]
    omega

def Frame.Blocked (s : Shared) (f : Frame) : Prop :=
  ∃ measured, ∃ ticket ∈ s.doneCv.waiters, f = .main (.waiting measured ticket)

theorem Frame.Blocked.exec {s : Shared} {f : Frame} (h : f.Blocked s) (nowNs : UInt64) :
    f.exec setup ⟨nowNs, false⟩ s = (s, [f]) := by
  obtain ⟨measured, ticket, hticket, rfl⟩ := h
  simp [Frame.exec, MultiSession.main, hticket]

/-- Every step but that of a blocked thread takes effort. -/
theorem Frame.Steps.effort_lt {s s' : Shared} {f : Frame} {fs : List Frame}
    (hsteps : f.Steps setup s s' fs) (hwakes : ¬ f.Blocked s)
    (hstage : 0 < f.isMain → Stage setup s f) :
    s'.effort setup + tally (Frame.effort setup.sessionCount) fs <
      s.effort setup + f.effort setup.sessionCount := by
  cases hsteps with
  | claims session measured caller hlt =>
    have hremaining := remaining_bump hlt
    simp only [tally_cons, tally_nil, Frame.effort, SendNextPc.effort, Shared.effort]
    omega
  | exhaustedMain session measured | exhausted session measured | exhaustedLast session measured =>
    have hremaining := remaining_bump_le setup s.next measured
    simp only [tally_cons, tally_nil, Frame.effort, SendNextPc.effort, HandlerPc.effort,
      Caller.effort, Shared.effort]
    omega
  | sendsMain | sends =>
    simp only [tally_cons, tally_nil, Frame.effort, SendNextPc.effort, HandlerPc.effort,
      Caller.effort, Shared.effort, List.length_append, List.length_singleton]
    omega
  | notifies =>
    simp only [tally_cons, tally_nil, Frame.effort, HandlerPc.effort, Shared.effort,
      Condition.notifyAll_waiters, if_true]
    omega
  | waits measured hlt =>
    have hbefore : s.doneCv.waiters = [] := (hstage Nat.one_pos).2
    have hafter : s.doneCv.wait.waiters ≠ [] := by simp [Condition.wait]
    simp only [tally_cons, tally_nil, Frame.effort, MainPc.effort, Shared.effort, hbefore,
      hafter, if_true, if_false]
    omega
  | wakesSpuriously measured hwaits => exact absurd ⟨measured, _, hwaits, rfl⟩ hwakes
  | blocked measured hwaits => exact absurd ⟨measured, _, hwaits, rfl⟩ hwakes
  | prepares | storesPayloadIndex | storesSendTime =>
    simp only [tally_cons, tally_nil, Frame.effort, SendNextPc.effort, Shared.setContext_effort]
    omega
  | nextSession measured hlt =>
    simp only [tally_cons, tally_nil, Frame.effort, MainPc.effort, SendNextPc.effort,
      Caller.effort]
    omega
  | _ =>
    simp only [tally_cons, tally_nil, Frame.effort, MainPc.effort, SendNextPc.effort,
      HandlerPc.effort, Caller.effort, Shared.effort, Bool.false_eq_true, if_true, if_false]
    omega

theorem Shared.Arrived.effort_lt {s s' : Shared} {event : Event} {fs : List Frame}
    (harrived : s.Arrived setup event s' fs) :
    s'.effort setup + tally (Frame.effort setup.sessionCount) fs < s.effort setup := by
  cases harrived with
  | start hstarted hpc =>
    rcases hpc with ⟨-, rfl⟩ | ⟨-, rfl⟩
    · simp only [tally_cons, tally_nil, Frame.effort, MainPc.effort, Shared.effort, hstarted,
        Bool.false_eq_true, if_true, if_false]
      omega
    · simp only [tally_cons, tally_nil, Frame.effort, MainPc.effort, Shared.effort, hstarted,
        Bool.false_eq_true, if_true, if_false]
      omega
  | answer hrequest =>
    have hlength := List.length_eraseIdx_add_one (List.getElem?_eq_some_iff.mp hrequest).1
    simp only [tally_nil, Shared.effort, List.length_append, List.length_singleton]
    omega
  | deliver hresponse =>
    have hlength := List.length_eraseIdx_add_one (List.getElem?_eq_some_iff.mp hresponse).1
    simp only [tally_cons, tally_nil, Frame.effort, HandlerPc.effort, Shared.effort]
    omega

theorem effort_exec {tid : Nat} {f : Frame} {rest fs : List Frame} {s' : Shared}
    (hw : (system setup).Reach ok w) (hthread : w.threads[tid]? = some (f :: rest))
    (hsteps : f.Steps setup w.shared s' fs) (hwakes : ¬ f.Blocked w.shared) :
    effort setup ⟨s', w.threads.set tid (fs ++ rest)⟩ < effort setup w := by
  have hstage := (staged hw).stage _ (List.mem_of_getElem? hthread) f List.mem_cons_self
  have hlt := hsteps.effort_lt hwakes hstage
  have hweigh := Stacks.weigh_exec (Frame.effort setup.sessionCount) hthread s' fs
  unfold effort
  simp only
  omega

theorem effort_arrive {event : Event} {s' : Shared} {fs : List Frame}
    (harrived : w.shared.arrive setup event = some (s', fs)) :
    effort setup ⟨s', w.threads ++ [fs]⟩ < effort setup w := by
  have hlt := (Shared.arrived harrived).effort_lt
  unfold effort
  rw [Stacks.weigh_spawn]
  simp only
  omega

theorem effort_goesOn (hw : (system setup).Reach ok w) (hgoes : GoesOn setup w w') :
    effort setup w' < effort setup w := by
  obtain ⟨hne, ⟨event, hstep⟩ | ⟨tid, nowNs, hstep⟩⟩ := hgoes
  · cases moved hstep with
    | spawn hspawn => exact effort_arrive hspawn
  · cases moved hstep with
    | @run _ _ stack stack' s' hthread hrun =>
      cases stack with
      | nil => cases hrun
      | cons f rest =>
        cases hrun
        apply effort_exec hw hthread (f.steps_exec setup ⟨nowNs, false⟩ w.shared)
        intro hblocked
        have hexec : (program setup).exec ⟨nowNs, false⟩ w.shared f = (w.shared, [f]) :=
          hblocked.exec nowNs
        apply hne
        rw [hexec, List.singleton_append, set_eq_self hthread]

theorem acc_goesOn (hw : (system setup).Reach System.free w) :
    Acc (fun w'' w' => GoesOn setup w' w'') w := by
  induction hn : effort setup w using Nat.strongRecOn generalizing w with
  | _ n ih =>
    refine Acc.intro w fun w' hgoes => ?_
    have hlt := effort_goesOn hw hgoes
    apply ih _ (hn ▸ hlt) _ rfl
    obtain ⟨-, ⟨event, hstep⟩ | ⟨tid, nowNs, hstep⟩⟩ := hgoes
    · exact hw.step trivial hstep
    · exact hw.step trivial hstep

theorem Frame.Steps.length_le {s s' : Shared} {f : Frame} {fs : List Frame}
    (hsteps : f.Steps setup s s' fs) : fs.length ≤ 1 := by
  cases hsteps with
  | returns | finishes => exact Nat.zero_le _
  | _ => exact Nat.le_refl _

theorem stack_length_le (hw : (system setup).Reach ok w) :
    ∀ stack ∈ w.threads, stack.length ≤ 1 := by
  apply Program.forall_stack (p := program setup) (P := fun stack => stack.length ≤ 1) ?_ ?_ hw
  · intro w tid choice f rest _ _ h
    have hone : ((program setup).exec choice w.shared f).2.length ≤ 1 :=
      (f.steps_exec setup choice w.shared).length_le
    rw [List.length_cons] at h
    rw [List.length_append]
    omega
  · intro w event s' fs _ _ harrived
    cases Shared.arrived harrived with
    | answer => exact Nat.zero_le _
    | _ => exact Nat.le_refl _

theorem AtRest.blocked (h : AtRest setup w) (hw : (system setup).Reach ok w) :
    ∀ stack ∈ w.threads, ∀ g ∈ stack, g.Blocked w.shared := by
  intro stack hstack g hg
  cases stack with
  | nil => cases hg
  | cons f rest =>
    have hnone : rest = [] := by
      have hlength := stack_length_le hw _ hstack
      exact List.eq_nil_of_length_eq_zero (by simpa using hlength)
    rw [hnone] at hg
    rw [List.mem_singleton.mp hg]
    obtain ⟨tid, hthread⟩ := List.mem_iff_getElem?.mp hstack
    by_contra hblocked
    have hlt := effort_exec hw hthread (f.steps_exec setup ⟨0, false⟩ w.shared) hblocked
    have hstep : (system setup).step w (.run tid ⟨0, false⟩) =
        some ⟨(f.exec setup ⟨0, false⟩ w.shared).1,
          w.threads.set tid ((f.exec setup ⟨0, false⟩ w.shared).2 ++ rest)⟩ := by
      simp [system, Program.system, Program.machine, Machine.system, Machine.step, hthread,
        Program.run, program]
    refine h _ ⟨fun heq => ?_, .inr ⟨tid, 0, hstep⟩⟩
    rw [heq] at hlt
    exact Nat.lt_irrefl _ hlt

theorem AtRest.waiting (h : AtRest setup w) (hw : (system setup).Reach ok w) :
    ∀ stack ∈ w.threads, ∀ g ∈ stack, ∃ ticket ∈ w.shared.doneCv.waiters,
      g = .main (.waiting w.shared.runningMeasured ticket) := by
  intro stack hstack g hg
  obtain ⟨measured, ticket, hticket, rfl⟩ := h.blocked hw stack hstack g hg
  obtain ⟨⟨hphase, -⟩, -⟩ := (staged hw).stage stack hstack _ hg Nat.one_pos
  exact ⟨ticket, hticket, hphase ▸ rfl⟩

theorem AtRest.weigh_eq_zero {weight : Frame → Nat} (h : AtRest setup w)
    (hw : (system setup).Reach ok w)
    (hzero : ∀ ticket, weight (.main (.waiting w.shared.runningMeasured ticket)) = 0) :
    w.weigh weight = 0 := by
  apply Stacks.weigh_eq_zero.mpr
  intro stack hstack g hg
  obtain ⟨ticket, -, rfl⟩ := h.waiting hw stack hstack g hg
  exact hzero ticket

theorem AtRest.arrive (h : AtRest setup w) (event : Event) :
    w.shared.arrive setup event = none := by
  by_contra hsome
  obtain ⟨⟨s', fs⟩, harrived⟩ := Option.ne_none_iff_exists'.mp hsome
  have hlt := effort_arrive harrived
  have hstep : (system setup).step w (.spawn event) = some ⟨s', w.threads ++ [fs]⟩ := by
    simp [system, Program.system, Program.machine, Machine.system, Machine.step, program, harrived]
  refine h _ ⟨fun heq => ?_, .inl ⟨event, hstep⟩⟩
  rw [heq] at hlt
  exact Nat.lt_irrefl _ hlt

def Frame.ofHandler (i : Nat) : Frame → Nat
  | sendNext session _ (.handler _) _ => if session = i then 1 else 0
  | handler session _ => if session = i then 1 else 0
  | _ => 0

theorem handling_count (i : Nat) (hw : (system setup).Reach ok w) :
    w.shared.handling.count i = w.weigh (Frame.ofHandler i) := by
  apply step_focus (Frame.ofHandler i) (J := fun s n => s.handling.count i = n) rfl ?_ ?_ hw
  · intro w tid f rest s' fs others _ _ hsteps ih
    cases hsteps with
    | returns session =>
      simp only [tally_nil, Frame.ofHandler, List.count_erase, beq_iff_eq] at *
      omega
    | claims session measured caller | storesPayloadIndex session measured caller
    | storesSendTime session measured caller | prepares caller =>
      cases caller with
      | _ => exact ih
    | _ => exact ih
  · intro w event s' fs _ harrived ih
    cases harrived with
    | deliver hresponse =>
      simp only [List.count_append, List.count_singleton, tally_cons, tally_nil,
        Frame.ofHandler, beq_iff_eq] at *
      omega
    | _ => simpa [Frame.ofHandler] using ih

theorem AtRest.queues (h : AtRest setup w) (hw : (system setup).Reach ok w) :
    w.shared.requests = [] ∧ w.shared.responses = [] := by
  constructor
  · cases hrequests : w.shared.requests with
    | nil => rfl
    | cons request requests =>
      have hnone := h.arrive (.answer 0)
      simp [Shared.arrive, hrequests, isFirst] at hnone
  · cases hresponses : w.shared.responses with
    | nil => rfl
    | cons response responses =>
      have hnone := h.arrive (.deliver 0)
      have hcount := handling_count response.session hw
      rw [h.weigh_eq_zero hw fun _ => rfl] at hcount
      have hfree := List.count_eq_zero.mp hcount
      simp [Shared.arrive, hresponses, isFirst, hfree] at hnone

theorem AtRest.started (h : AtRest setup w) : w.shared.started = true := by
  have hnone := h.arrive .start
  by_contra hstarted
  simp [Shared.arrive, hstarted] at hnone

def Frame.notifies (setup : Setup) (m : Bool) : Frame → Nat
  | sendNext _ measured (.handler done) .claim =>
      if measured = m ∧ setup.limit m ≤ done then 1 else 0
  | handler _ (.notify measured) => if measured = m then 1 else 0
  | _ => 0

def Attended (setup : Setup) (m : Bool) (s : Shared) (notifiers : Nat) : Prop :=
  s.doneCv.waiters ≠ [] → s.runningMeasured = m → setup.limit m ≤ s.completed m → 0 < notifiers

theorem Attended.completes {s : Shared} {others : Nat} {m measured : Bool} (session : Nat)
    (h : Attended setup m s others) (hwaiters : s.doneCv.waiters ≠ [])
    (hrunning : s.runningMeasured = m) (hdone : setup.limit m ≤ bump s.completed measured m) :
    0 < Frame.notifies setup m
      (.sendNext session measured (.handler (s.completed measured + 1)) .claim) + others := by
  by_cases hmeasured : measured = m
  · subst hmeasured
    rw [bump_same] at hdone
    simp only [Frame.notifies, hdone, and_self, if_true]
    omega
  · rw [bump_ne (Ne.symm hmeasured)] at hdone
    exact Nat.lt_of_lt_of_le (h hwaiters hrunning hdone) (Nat.le_add_left _ _)

theorem Frame.Steps.attended {s s' : Shared} {f : Frame} {fs : List Frame} {m : Bool}
    {others : Nat} (hsteps : f.Steps setup s s' fs) (hstage : 0 < f.isMain → Stage setup s f)
    (hcompleted : ∀ measured, s.completed measured ≤ s.next measured)
    (h : Attended setup m s (f.notifies setup m + others)) :
    Attended setup m s' (tally (Frame.notifies setup m) fs + others) := by
  intro hwaiters hrunning hdone
  cases hsteps with
  | claims session measured caller hlt =>
    have hpos := h hwaiters hrunning hdone
    cases caller with
    | main => exact hpos
    | handler done =>
      have hearly : ¬ (measured = m ∧ setup.limit m ≤ done) := by
        rintro ⟨rfl, -⟩
        exact absurd (Nat.le_trans hdone (hcompleted measured)) (Nat.not_le_of_lt hlt)
      simp only [Frame.notifies, if_neg hearly] at hpos
      exact hpos
  | @exhausted done session measured hle hmore =>
    have hpos := h hwaiters hrunning hdone
    have hearly : ¬ (measured = m ∧ setup.limit m ≤ done) := by
      rintro ⟨rfl, hlast⟩
      exact absurd hlast (Nat.not_le_of_lt hmore)
    simp only [Frame.notifies, if_neg hearly] at hpos
    exact hpos
  | exhaustedLast session measured hle hlast =>
    have hpos := h hwaiters hrunning hdone
    by_cases hmeasured : measured = m
    · simp only [tally_cons, tally_nil, Frame.notifies, hmeasured, if_true]
      omega
    · simp only [Frame.notifies, hmeasured, false_and, if_false] at hpos
      exact Nat.lt_of_lt_of_le hpos (Nat.add_le_add_right (Nat.zero_le _) _)
  | completesWarmup session | completesMeasured session =>
    have hbefore : Attended setup m s others := by simpa [Frame.notifies] using h
    exact hbefore.completes session hwaiters hrunning hdone
  | notifies => exact absurd rfl hwaiters
  | waits measured hlt =>
    obtain ⟨⟨hphase, -⟩, -⟩ := hstage Nat.one_pos
    have hsame : measured = m := hphase.symm.trans hrunning
    rw [hsame] at hlt
    exact absurd hdone (Nat.not_le_of_lt hlt)
  | wakesSpuriously measured hticket =>
    have hbefore : s.doneCv.waiters ≠ [] := fun hnil =>
      hwaiters (Condition.leave_waiters_nil hnil)
    exact h hbefore hrunning hdone
  | switches => exact absurd (hstage Nat.one_pos).2.2 hwaiters
  | prepares caller | storesPayloadIndex session measured caller
  | storesSendTime session measured caller =>
    cases caller with
    | _ => exact h hwaiters hrunning hdone
  | _ => exact h hwaiters hrunning hdone

theorem attended (m : Bool) (hw : (system setup).Reach ok w) :
    Attended setup m w.shared (w.weigh (Frame.notifies setup m)) := by
  apply step_focus (Frame.notifies setup m) (J := Attended setup m) ?_ ?_ ?_ hw
  · exact fun hwaiters => absurd rfl hwaiters
  · intro w tid f rest s' fs others hreach hthread hsteps ih
    apply hsteps.attended ?_ ?_ ih
    · exact (staged hreach).stage _ (List.mem_of_getElem? hthread) f List.mem_cons_self
    · intro measured
      have hcounted := counted measured hreach
      have hle := Nat.min_le_left (w.shared.next measured) (setup.limit measured)
      unfold Counted at hcounted
      omega
  · intro w event s' fs _ harrived ih
    cases harrived with
    | answer => exact fun hwaiters hrunning hdone =>
        Nat.lt_of_lt_of_le (ih hwaiters hrunning hdone) (Nat.le_add_left _ _)
    | _ => exact fun hwaiters hrunning hdone =>
        Nat.lt_of_lt_of_le (ih hwaiters hrunning hdone) (Nat.le_add_left _ _)

/-- At rest the main thread is at its end: it would be in a wait, where the session 0 has a
turn as long as there are tickets, and a handler notifies when there are none. -/
theorem AtRest.finished (h : AtRest setup w) (hw : (system setup).Reach ok w) :
    w.shared.finished = true := by
  by_contra hrunning
  have hmain := isMain_eq hw
  rw [Bool.not_eq_true] at hrunning
  rw [h.started, hrunning, Bool.toNat_false, Bool.toNat_true] at hmain
  obtain ⟨stack, hstack, hpos⟩ := exists_of_tally_pos (show 0 < w.weigh Frame.isMain by omega)
  obtain ⟨f, hf, -⟩ := exists_of_tally_pos hpos
  obtain ⟨ticket, hticket, -⟩ := h.waiting hw stack hstack f hf
  have hqueued : ∀ v, queued v w.shared.requests w.shared.responses = 0 := by
    intro v
    rw [(h.queues hw).1, (h.queues hw).2]
    rfl
  have hdone : ¬ setup.limit w.shared.runningMeasured ≤
      w.shared.completed w.shared.runningMeasured := by
    intro hdone
    have hpos := attended _ hw (List.ne_nil_of_mem hticket) rfl hdone
    rw [h.weigh_eq_zero hw fun _ => rfl] at hpos
    exact Nat.lt_irrefl 0 hpos
  have hcounted := counted w.shared.runningMeasured hw
  rw [Counted, hqueued, h.weigh_eq_zero hw fun _ => rfl] at hcounted
  have hturn := (turn 0 w.shared.runningMeasured hw).started h.started setup.session_pos (by omega)
  rw [hqueued, h.weigh_eq_zero hw] at hturn
  · exact absurd hturn Nat.zero_ne_one
  · intro t
    cases hphase : w.shared.runningMeasured with
    | _ => rfl

/-- What the benchmark measures: a session has one request under way at a time; none is
under way when the measured phase begins; the samples are those of the answered requests,
never more than requested, and exactly as many when the main thread has come to its end. Left
to itself the run comes to rest, and then the main thread has come to its end. -/
structure Measures (setup : Setup) (w : World) : Prop where
  oneInFlight : ∀ session, outstanding (ofSession session) w ≤ 1
  noneAtSwitch : ∀ l w', (system setup).step w l = some w' → w.shared.runningMeasured = false →
    w'.shared.runningMeasured = true → outstanding (fun _ _ => 1) w = 0
  sampled : Sampled w.shared
  atMost : w.shared.samples.length ≤ setup.totalTarget
  exactly : w.shared.finished = true → w.shared.samples.length = setup.totalTarget
  comesToRest : Acc (fun w'' w' => GoesOn setup w' w'') w
  atRest : AtRest setup w → w.shared.finished = true

theorem benchmark_measures (hw : (system setup).Reach System.free w) : Measures setup w where
  oneInFlight session := outstanding_session_le_one session hw
  noneAtSwitch _ _ hstep := none_at_switch hw hstep
  sampled := sampled hw
  atMost := samples_length_le hw
  exactly := samples_length_finished hw
  comesToRest := acc_goesOn hw
  atRest hrest := hrest.finished hw

def Setup.twoSessions : Setup :=
  .ofConfig 2 1 2 [[1], [2], [3, 4], [5], [6]] (List.cons_ne_nil _ _)

/-- Each of the two sessions has one request in the warm-up and one measured, which take 50 ns
and 70 ns. Every response comes with two threads, and the second is the one of its handler. -/
def twoSessions : List Label :=
  let steps (tid count : Nat) (nowNs : UInt64) : List Label :=
    List.replicate count (.run tid ⟨nowNs, false⟩)
  let respond : List Label := [.spawn (.answer 0), .spawn (.deliver 0)]
  .spawn .start :: steps 0 14 100 ++ respond ++ steps 2 4 150 ++ respond ++ steps 4 5 160 ++
    steps 0 17 200 ++ respond ++ steps 6 7 250 ++ respond ++ steps 8 8 270 ++ steps 0 2 300

theorem benchmark_measures_twoSessions :
    ∃ w, (system .twoSessions).runUnder System.free ⟨Shared.initial, []⟩ twoSessions = some w ∧
      (decide (w.shared.finished = true ∧ w.shared.samples = [⟨50, 1⟩, ⟨70, 2⟩])) = true ∧
      Measures .twoSessions w := by
  obtain ⟨w, hrun, htest⟩ := System.exists_of_runUnder (system .twoSessions) System.free
    ⟨Shared.initial, []⟩ twoSessions
    (fun w => decide (w.shared.finished = true ∧ w.shared.samples = [⟨50, 1⟩, ⟨70, 2⟩]))
    (by decide +kernel)
  have hinit : (system .twoSessions).init ⟨Shared.initial, []⟩ := ⟨rfl, rfl⟩
  exact ⟨w, hrun, htest, benchmark_measures (.of_runUnder (.init hinit) hrun)⟩

end FastPort.Benchmark.MultiSession
