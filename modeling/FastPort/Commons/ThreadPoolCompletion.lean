import FastPort.Commons.ThreadPoolTasks

/-! A pool left to itself comes to rest, and at rest nothing is left to do. -/
namespace FastPort.Commons.ThreadPool

open FastPort.Foundation.Pool FastPort.Foundation.Stack FastPort.Foundation.Tally
open FastPort.Foundation.Transition FastPort.Foundation.WaitSet

variable {numThreads : Nat} {ok : World → Label → Prop} {w w' : World}

/-- The pool goes on by itself: a worker is started, or a thread takes a step that changes
something, where tasks return without another call and waits end by notifications only. -/
def GoesOn (numThreads : Nat) (w w' : World) : Prop :=
  w' ≠ w ∧ ((system numThreads).step w (.spawn .startWorker) = some w' ∨
    ∃ tid woken, (system numThreads).step w (.run tid ⟨none, woken, false⟩) = some w')

def AtRest (numThreads : Nat) (w : World) : Prop := ∀ w', ¬ GoesOn numThreads w w'

/-- How many steps a frame may still cost, less what it costs to be awake. A notification
can wake all the workers, and each of them takes two steps to wait again. -/
def Frame.effort (numThreads : Nat) : Frame → Nat
  | enqueue _ .emplace => 2 * numThreads + 5
  | enqueue _ .notifyOne => 2 * numThreads + 1
  | stop .set => 2 * numThreads + 2
  | stop .notifyAll => 2 * numThreads + 1
  | workerThread .predicate => 0
  | workerThread (.waiting _) => 1
  | workerThread (.task _) => 2
  | userCode => 1

def effort (numThreads : Nat) (w : World) : Nat :=
  3 * w.shared.unstarted + 3 * w.shared.taskQueue.length +
    w.weigh (Frame.effort numThreads) + 2 * w.weigh (Frame.isAwake w.shared.condition.waiters)

theorem isAwake_le (hw : (system numThreads).Reach ok w) (waiters : List Nat) :
    w.weigh (Frame.isAwake waiters) ≤ numThreads := by
  have hworkers := workers_eq hw
  have hawake := Stacks.weigh_le_weigh (Frame.isAwake_le_isWorker waiters) w
  omega

theorem effort_lt {tid : Nat} {woken : List Nat} {f : Frame} {rest fs : List Frame} {s' : Shared}
    (hw : (system numThreads).Reach ok w) (hthread : w.threads[tid]? = some (f :: rest))
    (hsteps : f.Steps ⟨none, woken, false⟩ w.shared s' fs) (hmoves : s' ≠ w.shared ∨ fs ≠ [f]) :
    effort numThreads ⟨s', w.threads.set tid (fs ++ rest)⟩ < effort numThreads w := by
  have heffort := Stacks.weigh_exec (Frame.effort numThreads) hthread s' fs
  have hawake := Stacks.weigh_exec (Frame.isAwake s'.condition.waiters) hthread s' fs
  have hle := isAwake_le hw s'.condition.waiters
  unfold effort
  cases hsteps with
  | waits hrunning hempty =>
    have hsub : ∀ t ∈ w.shared.condition.waiters, t ∈ w.shared.condition.wait.waiters :=
      fun t ht => Condition.mem_wait.mpr (.inl ht)
    have hmono := Stacks.weigh_le_weigh (Frame.isAwake_mono hsub) w
    have hlast : w.shared.condition.nextTicket ∈ w.shared.condition.wait.waiters :=
      Condition.mem_wait.mpr (.inr rfl)
    simp only [tally_cons, tally_nil, Frame.effort, Frame.isAwake, hlast, if_true] at *
    omega
  | dequeues hqueue =>
    simp only [tally_cons, tally_nil, Frame.effort, Frame.isAwake] at *
    rw [hqueue, List.length_cons]
    omega
  | emplace task =>
    simp only [tally_cons, tally_nil, Frame.effort, Frame.isAwake] at *
    rw [List.length_append, List.length_singleton]
    omega
  | wakes hgone =>
    simp only [tally_cons, tally_nil, Frame.effort, Frame.isAwake, hgone, if_false] at *
    omega
  | blocked hwaits => exact absurd hmoves (by simp)
  | calls call hcall => cases hcall
  | wakesSpuriously hwaits hspurious => cases hspurious
  | _ =>
    simp only [tally_cons, tally_nil, Frame.effort, Frame.isAwake] at *
    omega

theorem effort_startWorker {n : Nat} (hunstarted : w.shared.unstarted = n + 1) :
    effort numThreads
        ⟨{ w.shared with unstarted := n }, w.threads ++ [[.workerThread .predicate]]⟩ <
      effort numThreads w := by
  simp only [effort, Stacks.weigh_spawn, tally_cons, tally_nil, Frame.effort, Frame.isAwake]
  omega

theorem moved {l : Label} (h : (system numThreads).step w l = some w') :
    (program numThreads).machine.Moved w l w' :=
  Machine.moved_of_step (m := (program numThreads).machine) h

theorem effort_goesOn (hw : (system numThreads).Reach ok w) (hgoes : GoesOn numThreads w w') :
    effort numThreads w' < effort numThreads w := by
  obtain ⟨hne, hstep | ⟨tid, woken, hstep⟩⟩ := hgoes
  · cases moved hstep with
    | @spawn _ fs s' hspawn =>
      have harrived : w.shared.arrive .startWorker = some (s', fs) := hspawn
      cases Shared.arrived harrived with
      | startWorker hunstarted => exact effort_startWorker hunstarted
  · cases moved hstep with
    | @run _ _ stack stack' s' hthread hrun =>
      cases stack with
      | nil => cases hrun
      | cons f rest =>
        cases hrun
        apply effort_lt hw hthread (f.steps_exec _ w.shared)
        rw [← not_and_or]
        rintro ⟨hshared, hframes⟩
        have hthreads : w.threads.set tid ((f.exec ⟨none, woken, false⟩ w.shared).2 ++ rest) =
            w.threads := by
          rw [hframes]
          exact set_eq_self hthread
        exact hne (congrArg₂ State.mk hshared hthreads)

theorem acc_goesOn (hw : (system numThreads).Reach System.free w) :
    Acc (fun w'' w' => GoesOn numThreads w' w'') w := by
  induction hn : effort numThreads w using Nat.strongRecOn generalizing w with
  | _ n ih =>
    refine Acc.intro w fun w' hgoes => ?_
    have hlt := effort_goesOn hw hgoes
    apply ih _ (hn ▸ hlt) _ rfl
    obtain ⟨-, hstep | ⟨tid, woken, hstep⟩⟩ := hgoes
    · exact hw.step trivial hstep
    · exact hw.step trivial hstep

def AtBottom : List Frame → Prop
  | [] => True
  | f :: rest => (rest ≠ [] → f.isWorker = 0) ∧ AtBottom rest

theorem AtBottom.steps {choice : Choice} {s s' : Shared} {f : Frame} {rest fs : List Frame}
    (h : AtBottom (f :: rest)) (hsteps : f.Steps choice s s' fs) : AtBottom (fs ++ rest) := by
  obtain ⟨htop, hrest⟩ := h
  cases hsteps with
  | calls call =>
    cases call with
    | _ => exact ⟨fun _ => rfl, fun _ => rfl, hrest⟩
  | invokes => exact ⟨fun _ => rfl, htop, hrest⟩
  | notifyOne | stoppedBefore | notifyAll | returns | done => exact hrest
  | _ => exact ⟨htop, hrest⟩

theorem atBottom (hw : (system numThreads).Reach ok w) : ∀ stack ∈ w.threads, AtBottom stack := by
  apply Program.forall_stack (p := program numThreads) (P := AtBottom) ?_ ?_ hw
  · intro w tid choice f rest _ _ h
    exact h.steps (f.steps_exec choice w.shared)
  · intro w event s' fs _ _ harrived
    cases Shared.arrived harrived with
    | call call => exact ⟨fun hne => absurd rfl hne, trivial⟩
    | startWorker => exact ⟨fun hne => absurd rfl hne, trivial⟩

theorem Frame.Steps.same {choice : Choice} {s s' : Shared} {f : Frame} {fs : List Frame}
    (hsteps : f.Steps choice s s' fs) (hsame : fs = [f]) :
    ∃ t ∈ s.condition.waiters, f = .workerThread (.waiting t) := by
  cases hsteps with
  | blocked hwaits => exact ⟨_, hwaits, rfl⟩
  | calls => exact absurd (congrArg List.length hsame) (by simp)
  | _ => cases hsame

theorem AtRest.waiting (h : AtRest numThreads w) (hw : (system numThreads).Reach ok w) :
    ∀ stack ∈ w.threads, ∀ g ∈ stack,
      ∃ t ∈ w.shared.condition.waiters, g = .workerThread (.waiting t) := by
  intro stack hstack g hg
  cases stack with
  | nil => cases hg
  | cons f rest =>
    obtain ⟨tid, hthread⟩ := List.mem_iff_getElem?.mp hstack
    have hsteps := f.steps_exec ⟨none, [], false⟩ w.shared
    have hstep : (system numThreads).step w (.run tid ⟨none, [], false⟩) =
        some ⟨(f.exec ⟨none, [], false⟩ w.shared).1,
          w.threads.set tid ((f.exec ⟨none, [], false⟩ w.shared).2 ++ rest)⟩ := by
      simp [system, Program.system, Program.machine, Machine.system, Machine.step, hthread,
        Program.run, program]
    have hsame : (f.exec ⟨none, [], false⟩ w.shared).2 = [f] := by
      by_contra hmoves
      have hlt := effort_lt hw hthread hsteps (.inr hmoves)
      refine h _ ⟨fun heq => ?_, .inr ⟨tid, [], hstep⟩⟩
      rw [heq] at hlt
      exact Nat.lt_irrefl _ hlt
    obtain ⟨t, ht, rfl⟩ := hsteps.same hsame
    have halone : rest = [] := by
      by_contra hne
      exact absurd ((atBottom hw _ hstack).1 hne) Nat.one_ne_zero
    rw [halone] at hg
    exact ⟨t, ht, List.mem_singleton.mp hg⟩

theorem AtRest.started (h : AtRest numThreads w) : w.shared.unstarted = 0 := by
  by_contra hne
  have hunstarted : w.shared.unstarted = w.shared.unstarted - 1 + 1 := by omega
  have hstep : (system numThreads).step w (.spawn .startWorker) =
      some ⟨{ w.shared with unstarted := w.shared.unstarted - 1 },
        w.threads ++ [[.workerThread .predicate]]⟩ := by
    simp [system, Program.system, Program.machine, Machine.system, Machine.step, program,
      Shared.arrive, Nat.pos_of_ne_zero hne]
  have hlt : effort numThreads _ < effort numThreads w := effort_startWorker hunstarted
  refine h _ ⟨fun heq => ?_, .inl hstep⟩
  rw [heq] at hlt
  exact Nat.lt_irrefl _ hlt

theorem AtRest.weigh_eq_zero {weight : Frame → Nat} (h : AtRest numThreads w)
    (hw : (system numThreads).Reach ok w)
    (hzero : ∀ t ∈ w.shared.condition.waiters, weight (.workerThread (.waiting t)) = 0) :
    w.weigh weight = 0 := by
  apply Stacks.weigh_eq_zero.mpr
  intro stack hstack g hg
  obtain ⟨t, ht, rfl⟩ := h.waiting hw stack hstack g hg
  exact hzero t ht

theorem AtRest.taskQueue (h : AtRest numThreads w) (hw : (system numThreads).Reach ok w) :
    w.shared.taskQueue = [] ∨ w.shared.exited = numThreads := by
  refine or_iff_not_imp_left.mpr fun hqueue => ?_
  by_contra hleft
  have hworkers := workers_eq hw
  have hstarted := h.started
  have hasleep : w.weigh (Frame.isAwake w.shared.condition.waiters) = 0 :=
    h.weigh_eq_zero hw fun t ht => if_pos ht
  have hquiet : w.weigh Frame.notifies = 0 := h.weigh_eq_zero hw fun _ _ => rfl
  have hpos := attended hw hqueue (by omega) hasleep
  omega

theorem AtRest.exited (h : AtRest numThreads w) (hw : (system numThreads).Reach ok w)
    (hstopped : w.shared.stopped = true) : w.shared.exited = numThreads := by
  have hquiet : w.weigh Frame.notifiesAll = 0 := h.weigh_eq_zero hw fun _ _ => rfl
  have hnone : w.shared.condition.waiters = [] :=
    (stopped_wakes hw hstopped).resolve_right (by omega)
  have hgone : w.weigh Frame.isWorker = 0 := h.weigh_eq_zero hw fun t ht => by
    rw [hnone] at ht
    cases ht
  have hworkers := workers_eq hw
  have hstarted := h.started
  omega

theorem Frame.Steps.exits {choice : Choice} {s s' : Shared} {f : Frame} {fs : List Frame}
    (hsteps : f.Steps choice s s' fs) (hgone : tally Frame.isWorker fs < f.isWorker) :
    (s.stopped = true ∨ s.stopRequested = true) ∧ s.taskQueue = [] := by
  cases hsteps with
  | returns hstop hempty => exact ⟨hstop, hempty⟩
  | _ => simp [isWorker] at hgone

theorem exits {l : Label} (hw : (system numThreads).Reach ok w)
    (hstep : (system numThreads).step w l = some w')
    (hgone : w'.weigh Frame.isWorker < w.weigh Frame.isWorker) :
    w.shared.stopped = true ∧ w.shared.taskQueue = [] := by
  cases moved hstep with
  | @spawn event fs s' hspawn =>
    rw [Stacks.weigh_spawn] at hgone
    omega
  | @run tid choice stack stack' s' hthread hrun =>
    cases stack with
    | nil => cases hrun
    | cons f rest =>
      cases hrun
      have hweigh := Stacks.weigh_exec Frame.isWorker hthread (f.exec choice w.shared).1
        (f.exec choice w.shared).2
      change Stacks.weigh ⟨(f.exec choice w.shared).1,
        w.threads.set tid ((f.exec choice w.shared).2 ++ rest)⟩ Frame.isWorker < _ at hgone
      obtain ⟨hstop, hempty⟩ := (f.steps_exec choice w.shared).exits (by omega)
      rw [(ordered hw).notRequested] at hstop
      exact ⟨hstop.resolve_right Bool.false_ne_true, hempty⟩

/-- What the pool does with the tasks, `stoppedAt` of which were enqueued before `Stop`:
they are dequeued in the order in which they were enqueued and invoked once; a worker goes
only when the pool is stopped and its queue is empty; with a task queued, the workers do not
all wait without a notification to come. Left to itself, the pool comes to rest. Then
nothing is queued, or everything that was enqueued before `Stop` has been dequeued and the
workers have returned. -/
structure RunsTasks (numThreads : Nat) (w : World) : Prop where
  fifo : w.shared.enqueued = w.shared.dequeued ++ w.shared.taskQueue
  invokedOnce : ∀ name, w.shared.invoked.count (some name) + w.weigh (Frame.runs name) =
    w.shared.dequeued.count (some name)
  exits : ∀ l w', (system numThreads).step w l = some w' →
    w'.weigh Frame.isWorker < w.weigh Frame.isWorker →
      w.shared.stopped = true ∧ w.shared.taskQueue = []
  attended : w.shared.taskQueue ≠ [] → 0 < w.weigh Frame.isWorker →
    w.weigh (Frame.isAwake w.shared.condition.waiters) = 0 → 0 < w.weigh Frame.notifies
  comesToRest : Acc (fun w'' w' => GoesOn numThreads w' w'') w
  atRest : AtRest numThreads w → w.shared.stoppedAt = none → w.shared.taskQueue = []
  atRestStopped : AtRest numThreads w → ∀ n, w.shared.stoppedAt = some n →
    n ≤ w.shared.dequeued.length ∧ w.shared.exited = numThreads

theorem tasks_once_in_order (hpos : 0 < numThreads) (hw : (system numThreads).Reach System.free w) :
    RunsTasks numThreads w := by
  have hordered := ordered hw
  refine ⟨hordered.fifo, fun name => invoked_eq name hw, fun l w' => exits hw,
    fun hqueue hleft => attended hw hqueue hleft, acc_goesOn hw, fun hrest hnone => ?_,
    fun hrest n hn => ?_⟩
  · refine (hrest.taskQueue hw).resolve_right fun hexited => ?_
    obtain ⟨n, hn, -⟩ := hordered.returned (by omega)
    rw [hnone] at hn
    cases hn
  · have hstopped : w.shared.stopped = true := by
      rw [hordered.stopped, hn]
      rfl
    have hexited := hrest.exited hw hstopped
    obtain ⟨m, hm, hle⟩ := hordered.returned (by omega)
    rw [hn] at hm
    cases hm
    exact ⟨hle, hexited⟩

/-- Two workers: one waits for the task that is enqueued, the other takes it; then `Stop`
sends both home. -/
def twoWorkers : List Label :=
  let quiet : Choice := ⟨none, [], false⟩
  [.spawn .startWorker, .spawn .startWorker, .run 0 quiet, .spawn (.call (.enqueue (some 7))),
    .run 2 quiet, .run 1 quiet, .run 2 quiet, .run 1 quiet, .run 1 quiet, .spawn (.call .stop),
    .run 3 quiet, .run 3 quiet, .run 0 quiet, .run 0 quiet, .run 1 quiet]

theorem tasks_once_in_order_twoWorkers :
    ∃ w, (system 2).runUnder System.free ⟨Shared.initial 2, []⟩ twoWorkers = some w ∧
      (decide (w.shared.dequeued = [some 7] ∧ w.shared.invoked = [some 7] ∧
        w.shared.stoppedAt = some 1 ∧ w.shared.exited = 2)) = true ∧ RunsTasks 2 w := by
  obtain ⟨w, hrun, htest⟩ := System.exists_of_runUnder (system 2) System.free
    ⟨Shared.initial 2, []⟩ twoWorkers (fun w => decide (w.shared.dequeued = [some 7] ∧
      w.shared.invoked = [some 7] ∧ w.shared.stoppedAt = some 1 ∧ w.shared.exited = 2))
    (by decide +kernel)
  have hinit : (system 2).init ⟨Shared.initial 2, []⟩ := ⟨rfl, rfl⟩
  exact ⟨w, hrun, htest, tasks_once_in_order (by decide) (.of_runUnder (.init hinit) hrun)⟩

end FastPort.Commons.ThreadPool
