import FastPort.Services.RIOServiceStop

/-! `RIOService` after the call of `Stop`: it comes to rest, and at rest no thread is left in
any of its functions. -/
namespace FastPort.Services.RIOService

open FastPort.Foundation FastPort.Foundation.Pool FastPort.Foundation.Stack
open FastPort.Foundation.Tally FastPort.Foundation.Threads FastPort.Foundation.Transition

variable {ok : World → Label → Prop} {w w' : World} {s s' : Shared} {choice : Choice} {f : Frame}
variable {fs : List Frame}

/-- The service goes on by itself: a thread that was created runs, or a thread takes a step
that changes something. Sessions return from `OnRioIOCompleted`. -/
def GoesOn (w w' : World) : Prop :=
  Rest.GoesOn program (∃ id, · = .startWorker id) (fun _ => True) w w'

def AtRest (w : World) : Prop :=
  Rest.AtRest program (∃ id, · = .startWorker id) (fun _ => True) w

/-- `Stop` has been called, and no call of `Start` is under way. -/
structure Stopping (w : World) : Prop where
  stopped : w.shared.isRunning = false
  apart : w.weigh Frame.isStart = 0

/-- How many steps a frame may still cost while the service stops. A result in the queue and
a thread that is to run cost two more. -/
def Frame.effort : Frame → Nat
  | initializeQueue .check => 2
  | initializeQueue .createCompletionQueue => 1
  | start _ => 0
  | stop .exchange => 1
  | stop (.join ids) => ids.length + 3
  | stop .clear => 2
  | stop .closeCompletionQueue => 1
  | worker _ .running => 1
  | worker _ .lock => 5
  | worker _ .dequeueCompletion => 4
  | worker _ (.unlock none) => 1
  | worker _ (.unlock (some results)) => 2 * results.length + 3
  | worker _ (.processResults results) => 2 * results.length + 2
  | worker _ (.onRioIOCompleted _ results) => 2 * results.length + 3

def effort (w : World) : Nat :=
  2 * w.shared.queue.length + 2 * w.shared.crew.unstarted.length + w.weigh Frame.effort

theorem Frame.Steps.falls (hsteps : f.Steps choice s s' fs) (hstopped : s.isRunning = false)
    (hapart : f.isStart = 0) (hmoves : (s', fs) ≠ (s, [f])) :
    s'.isRunning = false ∧ tally Frame.isStart fs = 0 ∧
      2 * s'.queue.length + 2 * s'.crew.unstarted.length + tally effort fs <
        2 * s.queue.length + 2 * s.crew.unstarted.length + f.effort := by
  cases hsteps with
  | alreadyStarted | starts | started | creates => cases hapart
  | stops hrunning | goesOn hrunning => exact absurd (hstopped.symm.trans hrunning) (by decide)
  | blocked | waits => exact absurd rfl hmoves
  | takes htakes =>
    have hlength := congrArg List.length (Shared.queue_of_dequeue htakes)
    simp only [List.length_append] at hlength
    refine ⟨hstopped, rfl, ?_⟩
    simp only [Shared.take, tally_cons, tally_nil, effort]
    omega
  | _ =>
    refine ⟨hstopped, rfl, ?_⟩
    simp only [Shared.rioCreateCompletionQueue, Shared.rioCloseCompletionQueue, Crew.leave,
      List.length_nil, List.length_cons, tally_cons, tally_nil, effort]
    omega

theorem Stopping.goesOn (h : Stopping w) (hgoes : GoesOn w w') :
    Stopping w' ∧ effort w' < effort w := by
  cases Rest.GoesOn.goes hgoes with
  | @arrive _ s' fs hown harrived =>
    obtain ⟨id, rfl⟩ := hown
    have harrived : w.shared.arrive (.startWorker id) = some (s', fs) := harrived
    cases Shared.arrived harrived with
    | startWorker hunstarted =>
      have hpos := List.length_pos_of_mem hunstarted
      refine ⟨⟨h.stopped, ?_⟩, ?_⟩
      · rw [Stacks.weigh_spawn, h.apart]
        rfl
      · simp only [effort, Stacks.weigh_spawn, Crew.enter, List.length_erase_of_mem hunstarted,
          tally_cons, tally_nil, Frame.effort]
        omega
  | @exec tid choice f rest _ hthread hmoves =>
    have hone : Frame.isStart f ≤ w.weigh Frame.isStart := Stacks.weight_le_weigh hthread
    have hapart := h.apart
    obtain ⟨hstopped, hnone, hlt⟩ :=
      (f.steps_exec choice w.shared).falls h.stopped (by omega) hmoves
    have hstart := Stacks.weigh_exec Frame.isStart hthread (f.exec choice w.shared).1
      (f.exec choice w.shared).2
    have heffort := Stacks.weigh_exec Frame.effort hthread (f.exec choice w.shared).1
      (f.exec choice w.shared).2
    refine ⟨⟨hstopped, ?_⟩, ?_⟩
    · change Stacks.weigh ⟨(f.exec choice w.shared).1,
        w.threads.set tid ((f.exec choice w.shared).2 ++ rest)⟩ Frame.isStart = 0
      omega
    · change 2 * (f.exec choice w.shared).1.queue.length +
        2 * (f.exec choice w.shared).1.crew.unstarted.length + Stacks.weigh
          ⟨(f.exec choice w.shared).1, w.threads.set tid ((f.exec choice w.shared).2 ++ rest)⟩
          Frame.effort < effort w
      unfold effort
      omega

theorem Stopping.acc (h : Stopping w) : Acc (fun w'' w' => GoesOn w' w'') w :=
  System.acc_of_falls Nat.lt_wfRel.wf effort (fun _ _ h hgoes => (h.goesOn hgoes).1)
    (fun _ _ h hgoes => (h.goesOn hgoes).2) h

inductive Frame.Blocked (s : Shared) : Frame → Prop where
  | join {id : Nat} {ids : List Nat} (hrunning : id ∉ s.crew.returned) :
      Blocked s (.stop (.join (id :: ids)))
  | lock {id : Nat} (hlocked : s.locked = true) : Blocked s (.worker id .lock)

theorem Frame.Steps.still (hsteps : f.Steps choice s s' fs) (hframes : fs = [f]) :
    f.Blocked s := by
  cases hsteps with
  | blocked hrunning => exact .join hrunning
  | waits hlocked => exact .lock hlocked
  | joins | skips => simp at hframes
  | _ => cases hframes

theorem length_stack_le (hw : system.Reach ok w) : ∀ stack ∈ w.threads, stack.length ≤ 1 := by
  apply known.forall_stack (P := fun stack => stack.length ≤ 1) ?_ ?_ hw
  · intro choice s f s' fs rest hsteps h
    obtain rfl : rest = [] := List.length_eq_zero_iff.mp (by simpa using h)
    cases hsteps <;> simp
  · intro s event s' fs harrived
    cases harrived <;> simp

theorem AtRest.blocked (h : AtRest w) (hw : system.Reach ok w) :
    ∀ stack ∈ w.threads, ∀ f ∈ stack, f.Blocked w.shared :=
  known.forall_frame_atRest h ⟨true, false, maxResults⟩ trivial
    (fun _ _ _ hsteps _ hframes => hsteps.still hframes) (length_stack_le hw)

theorem AtRest.unlocked (h : AtRest w) (hw : system.Reach ok w) : w.shared.locked = false := by
  have hnone : w.weigh Frame.dequeues = 0 := by
    apply Stacks.weigh_eq_zero.mpr
    intro stack hstack f hf
    cases h.blocked hw stack hstack f hf <;> rfl
  rw [dequeues_eq hw] at hnone
  simpa using hnone

theorem AtRest.unstarted (h : AtRest w) : w.shared.crew.unstarted = [] := by
  refine List.eq_nil_iff_forall_not_mem.mpr fun id hid => ?_
  have harrive := Rest.AtRest.arrive_eq h ⟨id, rfl⟩
  simp [program, Shared.arrive, hid] at harrive

theorem AtRest.returned (h : AtRest w) (hw : system.Reach StartsInitialized w) :
    ∀ stack ∈ w.threads, stack = [] := by
  intro stack hstack
  refine List.eq_nil_iff_forall_not_mem.mpr fun f hf => ?_
  cases h.blocked hw stack hstack f hf with
  | lock hlocked => exact absurd ((h.unlocked hw).symm.trans hlocked) (by decide)
  | @join id ids hrunning =>
    obtain ⟨hkept, -, hjoining⟩ := (staged hw).stage stack hstack _ hf Nat.one_pos
    have hlt := hkept.listed.known id (hjoining.subset id List.mem_cons_self)
    have hruns := Crew.running_of_created (thread_eq id hw) hlt h.unstarted hrunning
    refine Nat.ne_of_gt hruns (Stacks.weigh_eq_zero.mpr fun stack hstack f hf => ?_)
    cases h.blocked hw stack hstack f hf with
    | lock hlocked => exact absurd ((h.unlocked hw).symm.trans hlocked) (by decide)
    | join => rfl

theorem Stage.kept (h : Stage s f) : Kept s := by
  cases f with
  | initializeQueue pc =>
    cases pc with
    | check => exact Idle.kept h
    | createCompletionQueue => exact h.1.kept
  | start pc =>
    cases pc with
    | exchange n => exact h.1.kept
    | emplaceBack n => exact h.1
  | stop pc =>
    cases pc with
    | exchange => exact Idle.kept h
    | join ids | clear | closeCompletionQueue => exact h.1
  | worker id pc => exact h.elim

theorem kept (hw : system.Reach StartsInitialized w) : Kept w.shared :=
  (staged hw).shared_holds (fun _ h => h.kept) (·.kept)

theorem Kept.gone (h : Kept w.shared) (hw : system.Reach ok w) (hnone : w.shared.workers = []) :
    w.shared.crew.unstarted = [] ∧ ∀ id, w.weigh (Frame.isThread id) = 0 :=
  Crew.gone_of_returned _ (fun id => thread_eq id hw) (h.listed.returned (by simp [hnone]))

theorem cq_of_dequeues (hw : system.Reach StartsInitialized w)
    (hpos : 0 < w.weigh Frame.dequeues) : w.shared.cq ≠ none := by
  obtain ⟨stack, hstack, hpos⟩ := exists_of_tally_pos hpos
  obtain ⟨f, hf, hpos⟩ := exists_of_tally_pos hpos
  cases f with
  | worker id pc =>
    refine (kept hw).opened fun hnone => ?_
    have hgone := ((kept hw).gone hw hnone).2 id
    have hzero := Stacks.weigh_eq_zero.mp hgone stack hstack _ hf
    simp [Frame.isThread] at hzero
  | _ => cases hpos

/-- What the service does with its queue: no two threads are in the dequeue at once, and
who is there finds a queue. Results are taken in the order in which they came; each is taken
by one worker, and a worker makes the calls for its results in order, each once. Every queue
but the one in use has been closed, once, and behind the last worker; between two calls a
service that does not run has no thread left and no queue, but one that was never used. Once
stopped the service comes to rest, and at rest `Stop` has returned. -/
structure StopsCleanly (w : World) : Prop where
  exclusive : w.weigh Frame.dequeues ≤ 1
  polls : 0 < w.weigh Frame.dequeues → w.shared.cq ≠ none
  fifo : w.shared.enqueued = w.shared.taken.map Prod.snd ++ w.shared.queue
  inTurn : ∀ id pc, ∀ stack ∈ w.threads, .worker id pc ∈ stack →
    w.shared.made id ++ pc.pending = w.shared.due id
  handled : ∀ id, w.weigh (Frame.isThread id) = 0 → w.shared.made id = w.shared.due id
  accounted : Accounted w.shared
  tracked : ∀ q < w.shared.queues, w.shared.cq = some q ∨ q ∈ w.shared.closed
  closesLast : ∀ stack ∈ w.threads, .stop .closeCompletionQueue ∈ stack →
    w.shared.crew.unstarted = [] ∧ ∀ id, w.weigh (Frame.isThread id) = 0
  stopped : w.shared.busy = false → w.shared.isRunning = false →
    w.shared.crew.unstarted = [] ∧ (∀ id, w.weigh (Frame.isThread id) = 0) ∧
      (w.shared.cq ≠ none → w.shared.used = false)
  comesToRest : Stopping w → Acc (fun w'' w' => GoesOn w' w'') w
  atRest : AtRest w → ∀ stack ∈ w.threads, stack = []

theorem stops_cleanly (hw : system.Reach StartsInitialized w) : StopsCleanly w where
  exclusive := by
    rw [dequeues_eq hw]
    exact Bool.toNat_le _
  polls := cq_of_dequeues hw
  fifo := fifo hw
  inTurn id pc stack hstack hmem :=
    (inTurn id hw).stage stack hstack _ hmem (by simp [Frame.isThread])
  handled id := (inTurn id hw).idle
  accounted := accounted hw
  tracked := (kept hw).tracked
  closesLast stack hstack hmem := by
    obtain ⟨hkept, -, hnone⟩ := (staged hw).stage stack hstack _ hmem Nat.one_pos
    exact hkept.gone hw hnone
  stopped hidle hstopped := by
    have hidle := (staged hw).idle (by rw [owner_eq hw, hidle]; rfl)
    obtain ⟨hunstarted, hthreads⟩ := hidle.kept.gone hw (hidle.stopped hstopped)
    exact ⟨hunstarted, hthreads, hidle.unused hstopped⟩
  comesToRest := Stopping.acc
  atRest h := h.returned hw

/-- `Stop` is called while the worker has two results in hand, one of them of no session. -/
def stoppedRun : List Label :=
  let runs := fun tid n => List.replicate n (.run tid ⟨true, false, maxResults⟩)
  .spawn .initializeQueue :: runs 0 2 ++ .spawn (.start 1) :: runs 1 3 ++
    .spawn (.startWorker 0) :: .spawn (.completes ⟨0, 100, some ⟨.receive, some 7⟩⟩) ::
    .spawn (.completes ⟨-1, 0, none⟩) :: runs 2 3 ++ .spawn .stop :: runs 5 1 ++ runs 2 6 ++
    runs 5 4

theorem stops_cleanly_of_one :
    ∃ w, system.runUnder StartsInitialized ⟨Shared.initial, []⟩ stoppedRun = some w ∧
      (decide (w.shared.handled = [(0, ⟨7, true, 100, .receive⟩)] ∧ w.shared.closed = [0] ∧
        w.shared.busy = false ∧ ∀ stack ∈ w.threads, stack = [])) = true ∧ StopsCleanly w := by
  obtain ⟨w, hrun, htest⟩ := System.exists_of_runUnder system StartsInitialized
    ⟨Shared.initial, []⟩ stoppedRun
    (fun w => decide (w.shared.handled = [(0, ⟨7, true, 100, .receive⟩)] ∧
      w.shared.closed = [0] ∧ w.shared.busy = false ∧ ∀ stack ∈ w.threads, stack = []))
    (by decide +kernel)
  have hinit : system.init ⟨Shared.initial, []⟩ := ⟨rfl, rfl⟩
  exact ⟨w, hrun, htest, stops_cleanly (.of_runUnder (.init hinit) hrun)⟩

end FastPort.Services.RIOService
