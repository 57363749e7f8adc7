import FastPort.Commons.ThreadPoolCompletion

/-! `~ThreadPool`: the body, which is `Stop`, and then the members in reverse order of their
declaration. The workers are declared first, so they are joined when everything that they
use is gone. -/
namespace FastPort.Commons.ThreadPoolDestruction

open FastPort.Commons.ThreadPool (ApiCall Choice)
open FastPort.Foundation.Pool FastPort.Foundation.Stack FastPort.Foundation.Tally
open FastPort.Foundation.Transition

inductive Member where
  | workers
  | taskQueue
  | taskQueueMutex
  | condition
  | stopped
deriving DecidableEq, Repr

/-- Here every worker has a stop token of its own: `requested` are the workers whose token
has been asked to stop, `returned` those that have returned, and `pool.stopRequested` is
what the thread that runs has seen. `calls` and `callsDone` count the calls from outside.
The rest is history: how much had been enqueued when the destruction began, and what
members were used after their own. -/
structure Shared where
  pool : ThreadPool.Shared
  destroyed : List Member
  requested : List Nat
  returned : List Nat
  calls : Nat
  callsDone : Nat
  begunAt : Option Nat
  dangling : List Member
deriving DecidableEq

def Shared.initial (numThreads : Nat) : Shared where
  pool := .initial numThreads
  destroyed := []
  requested := []
  returned := []
  calls := 0
  callsDone := 0
  begunAt := none
  dangling := []

inductive DestructorPc where
  | destroy (member : Member)
  | requestStop (worker : Nat)
  | join (worker : Nat)
deriving DecidableEq, Repr

/-- The code of the pool is run by a worker or by a caller from outside. -/
inductive Frame where
  | pool (worker : Option Nat) (frame : ThreadPool.Frame)
  | callReturns
  | destructor (pc : DestructorPc)
deriving DecidableEq, Repr

/-- The members that a step of the pool's code uses. A worker that waits uses them again
when it wakes. -/
def accesses (choice : Choice) (s : ThreadPool.Shared) : ThreadPool.Frame → List Member
  | .enqueue _ .emplace => [.taskQueueMutex, .taskQueue]
  | .enqueue _ .notifyOne => [.condition]
  | .stop .set => [.taskQueueMutex, .stopped]
  | .stop .notifyAll => [.condition]
  | .workerThread .predicate => [.taskQueueMutex, .condition, .stopped, .taskQueue]
  | .workerThread (.waiting ticket) =>
      if ticket ∈ s.condition.waiters ∧ choice.spurious = false then []
      else [.condition, .taskQueueMutex]
  | .workerThread (.task _) => []
  | .userCode => []

def Shared.stopRequested (s : Shared) (worker : Option Nat) : Bool :=
  worker.any fun i => i ∈ s.requested

def runPool (choice : Choice) (s : Shared) (worker : Option Nat) (frame : ThreadPool.Frame) :
    Shared × List Frame :=
  let before := { s.pool with stopRequested := s.stopRequested worker }
  let after := frame.exec choice before
  ({ s with
      pool := after.1
      returned := s.returned ++
        if frame = .workerThread .predicate ∧ after.2.isEmpty then worker.toList else []
      dangling := s.dangling ++ (accesses choice before frame).filter (· ∈ s.destroyed) },
    after.2.map (.pool worker))

def nextWorker (numThreads worker : Nat) : DestructorPc :=
  if worker < numThreads then .requestStop worker else .destroy .workers

def Shared.destroy (s : Shared) (member : Member) : Shared :=
  { s with destroyed := s.destroyed ++ [member] }

def destructor (numThreads : Nat) (s : Shared) : DestructorPc → Shared × List Frame
  | .destroy .stopped => (s.destroy .stopped, [.destructor (.destroy .condition)])
  | .destroy .condition => (s.destroy .condition, [.destructor (.destroy .taskQueueMutex)])
  | .destroy .taskQueueMutex => (s.destroy .taskQueueMutex, [.destructor (.destroy .taskQueue)])
  | .destroy .taskQueue => (s.destroy .taskQueue, [.destructor (nextWorker numThreads 0)])
  | .requestStop worker =>
      ({ s with requested := s.requested ++ [worker] }, [.destructor (.join worker)])
  | .join worker =>
      if worker ∈ s.returned then (s, [.destructor (nextWorker numThreads (worker + 1))])
      else (s, [.destructor (.join worker)])
  | .destroy .workers => (s.destroy .workers, [])

def Frame.exec (numThreads : Nat) (choice : Choice) (s : Shared) : Frame → Shared × List Frame
  | pool worker frame => runPool choice s worker frame
  | callReturns => ({ s with callsDone := s.callsDone + 1 }, [])
  | destructor pc => ThreadPoolDestruction.destructor numThreads s pc

inductive Event where
  | call (call : ApiCall)
  | startWorker
  | destroy
deriving DecidableEq, Repr

/-- Who destroys the pool lets the calls from outside return and makes no further ones;
tasks may still call it. -/
def Shared.arrive (numThreads : Nat) (s : Shared) : Event → Option (Shared × List Frame)
  | .call call =>
      if s.begunAt = none then
        (s.pool.arrive (.call call)).map fun (pool, fs) =>
          ({ s with pool := pool, calls := s.calls + 1 }, fs.map (.pool none) ++ [.callReturns])
      else none
  | .startWorker =>
      (s.pool.arrive .startWorker).map fun (pool, fs) =>
        ({ s with pool := pool }, fs.map (.pool (some (numThreads - s.pool.unstarted))))
  | .destroy =>
      if s.pool.unstarted = 0 ∧ s.calls = s.callsDone ∧ s.begunAt = none then
        some ({ s with begunAt := some s.pool.enqueued.length },
          [.pool none (.stop .set), .destructor (.destroy .stopped)])
      else none

def program (numThreads : Nat) : Program Shared Frame Choice Event where
  start s := s = Shared.initial numThreads
  exec choice s f := f.exec numThreads choice s
  arrive event s := s.arrive numThreads event

abbrev World := Stacks Shared Frame

abbrev Label := Move Choice Event

def system (numThreads : Nat) : System World Label := (program numThreads).system

/-- No member is used after its destruction. When the destructor has returned, what had been
enqueued before it was called has been invoked, and nobody is still at it. -/
structure DestroyedSafely (w : World) : Prop where
  untouched : w.shared.dangling = []
  executed : .workers ∈ w.shared.destroyed → ∀ n, w.shared.begunAt = some n → ∀ name,
    (w.shared.pool.enqueued.take n).count (some name) ≤ w.shared.pool.invoked.count (some name)
  ended : .workers ∈ w.shared.destroyed → ∀ stack ∈ w.threads, stack = []

/-- The first member is destroyed only after the last worker has returned, and with nothing
queued. -/
def Drained (numThreads : Nat) (w : World) (l : Label) : Prop :=
  w.runs l = some (.destructor (.destroy .stopped)) →
    w.shared.pool.exited = numThreads ∧ w.shared.pool.taskQueue = []

instance (numThreads : Nat) (w : World) (l : Label) : Decidable (Drained numThreads w l) :=
  inferInstanceAs (Decidable (_ = _ → _ ∧ _))

variable {numThreads : Nat} {ok : World → Label → Prop} {w : World}

namespace Frame

def inner? : Frame → Option ThreadPool.Frame
  | pool _ frame => some frame
  | _ => none

@[simp] theorem inner?_pool (worker : Option Nat) (frame : ThreadPool.Frame) :
    (pool worker frame).inner? = some frame := rfl

def isCall : Frame → Nat
  | callReturns => 1
  | _ => 0

/-- What a thread starts with, and has at the bottom of its stack until it ends. -/
def anchor : Frame → Nat
  | pool _ frame => frame.isWorker
  | _ => 1

end Frame

def poolOf (w : World) : ThreadPool.World :=
  ⟨w.shared.pool, w.threads.map (·.filterMap Frame.inner?)⟩

theorem filterMap_pool (worker : Option Nat) (fs : List ThreadPool.Frame) :
    (fs.map (Frame.pool worker)).filterMap Frame.inner? = fs := by
  rw [List.filterMap_map]
  exact List.filterMap_some

@[simp] theorem tally_isCall_pool (worker : Option Nat) (fs : List ThreadPool.Frame) :
    tally Frame.isCall (fs.map (.pool worker)) = 0 := by
  rw [tally_map]
  exact tally_eq_zero.mpr fun _ _ => rfl

@[simp] theorem tally_anchor_pool (worker : Option Nat) (fs : List ThreadPool.Frame) :
    tally Frame.anchor (fs.map (.pool worker)) = tally ThreadPool.Frame.isWorker fs :=
  tally_map _ _ fs

theorem steps_workers {choice : Choice} {s s' : ThreadPool.Shared} {f : ThreadPool.Frame}
    {fs : List ThreadPool.Frame} (h : f.Steps choice s s' fs) : s'.unstarted = s.unstarted ∧
      s'.exited + tally ThreadPool.Frame.isWorker fs = s.exited + f.isWorker := by
  cases h with
  | calls call =>
    rw [tally_cons, ThreadPool.weight_frame ThreadPool.Frame.isWorker (fun _ => rfl) rfl]
    exact ⟨rfl, rfl⟩
  | _ => exact ⟨rfl, rfl⟩

inductive Shared.Arrived (numThreads : Nat) (s : Shared) : Event → Shared → List Frame → Prop where
  | call (call : ApiCall) (hstarted : s.pool.unstarted = 0) (hbefore : s.begunAt = none) :
      Arrived numThreads s (.call call) { s with calls := s.calls + 1 }
        [.pool none call.frame, .callReturns]
  | startWorker {n : Nat} (hunstarted : s.pool.unstarted = n + 1) :
      Arrived numThreads s .startWorker { s with pool := { s.pool with unstarted := n } }
        [.pool (some (numThreads - (n + 1))) (.workerThread .predicate)]
  | destroy (hstarted : s.pool.unstarted = 0) (hcalls : s.calls = s.callsDone)
      (hbefore : s.begunAt = none) :
      Arrived numThreads s .destroy { s with begunAt := some s.pool.enqueued.length }
        [.pool none (.stop .set), .destructor (.destroy .stopped)]

theorem Shared.arrived {s s' : Shared} {event : Event} {fs : List Frame}
    (h : s.arrive numThreads event = some (s', fs)) : s.Arrived numThreads event s' fs := by
  cases event with
  | call call =>
    obtain ⟨hbefore, hcall⟩ := Option.ite_none_right_eq_some.mp h
    obtain ⟨⟨pool, inner⟩, harrived, heq⟩ := Option.map_eq_some_iff.mp hcall
    cases heq
    cases ThreadPool.Shared.arrived harrived with
    | call _ hstarted => exact .call call hstarted hbefore
  | startWorker =>
    obtain ⟨⟨pool, inner⟩, harrived, heq⟩ := Option.map_eq_some_iff.mp h
    cases heq
    cases ThreadPool.Shared.arrived harrived with
    | startWorker hunstarted =>
      rw [hunstarted]
      exact .startWorker hunstarted
  | destroy =>
    obtain ⟨⟨hstarted, hcalls, hbefore⟩, heq⟩ := Option.ite_none_right_eq_some.mp h
    cases heq
    exact .destroy hstarted hcalls hbefore

/-- What a step can do. The destructor leaves the pool alone, and goes on until it has
destroyed the workers. -/
inductive Frame.Steps (choice : Choice) (s : Shared) : Frame → Shared → List Frame → Prop where
  | pool {worker : Option Nat} {frame : ThreadPool.Frame} {before : ThreadPool.Shared}
      (hbefore : before = { s.pool with stopRequested := s.stopRequested worker })
      (returned : List Nat) : Steps choice s (.pool worker frame)
        { s with
          pool := (frame.exec choice before).1
          returned := returned
          dangling := s.dangling ++ (accesses choice before frame).filter (· ∈ s.destroyed) }
        ((frame.exec choice before).2.map (.pool worker))
  | callReturns : Steps choice s .callReturns { s with callsDone := s.callsDone + 1 } []
  | destroys {member : Member} (pc : DestructorPc) (hmember : member ≠ .workers) :
      Steps choice s (.destructor (.destroy member)) (s.destroy member) [.destructor pc]
  | requests (worker : Nat) (pc : DestructorPc) :
      Steps choice s (.destructor (.requestStop worker))
        { s with requested := s.requested ++ [worker] } [.destructor pc]
  | joins (worker : Nat) (pc : DestructorPc) :
      Steps choice s (.destructor (.join worker)) s [.destructor pc]
  | returns : Steps choice s (.destructor (.destroy .workers)) (s.destroy .workers) []

theorem Frame.steps_exec (f : Frame) (numThreads : Nat) (choice : Choice) (s : Shared) :
    f.Steps choice s (f.exec numThreads choice s).1 (f.exec numThreads choice s).2 := by
  cases f with
  | pool worker frame => exact .pool rfl _
  | callReturns => exact .callReturns
  | destructor pc =>
    cases pc with
    | destroy member =>
      cases member with
      | workers => exact .returns
      | _ => exact .destroys _ (by decide)
    | requestStop worker => exact .requests worker _
    | join worker =>
      simp only [exec, ThreadPoolDestruction.destructor]
      split
      · exact .joins worker _
      · exact .joins worker _

/-- The calls from outside that have not returned; once the destruction has begun there is
none, and no worker is still to be started. -/
theorem calls_eq (hw : (system numThreads).Reach ok w) :
    w.shared.callsDone + w.weigh Frame.isCall = w.shared.calls ∧ (w.shared.begunAt ≠ none →
      w.weigh Frame.isCall = 0 ∧ w.shared.pool.unstarted = 0) := by
  apply Program.focus (p := program numThreads) (fun s => s) Frame.isCall
    (J := fun s n => s.callsDone + n = s.calls ∧ (s.begunAt ≠ none → n = 0 ∧ s.pool.unstarted = 0))
    ?_ ?_ ?_ hw
  · rintro s rfl
    exact ⟨rfl, fun h => absurd rfl h⟩
  · rintro w tid choice f rest others - - - - ⟨hsum, hbegun⟩
    have hsteps := f.steps_exec numThreads choice w.shared
    change f.Steps choice w.shared ((program numThreads).exec choice w.shared f).1
      ((program numThreads).exec choice w.shared f).2 at hsteps
    generalize (program numThreads).exec choice w.shared f = next at hsteps
    obtain ⟨s', fs⟩ := next
    cases hsteps with
    | @pool _ frame before hbefore returned =>
      obtain ⟨hunstarted, -⟩ := steps_workers (frame.steps_exec choice before)
      rw [hbefore] at hunstarted ⊢
      simp only [tally_isCall_pool, hunstarted]
      exact ⟨hsum, hbegun⟩
    | callReturns =>
      refine ⟨?_, fun h => ?_⟩
      · simp only [tally_nil, Frame.isCall] at *
        omega
      · obtain ⟨hnone, -⟩ := hbegun h
        exact absurd (Nat.eq_zero_of_add_eq_zero_right hnone) Nat.one_ne_zero
    | _ => exact ⟨hsum, hbegun⟩
  · rintro w event s' fs - - harrived ⟨hsum, hbegun⟩
    cases Shared.arrived harrived with
    | call call hstarted hbefore =>
      refine ⟨?_, fun h => absurd hbefore h⟩
      simp only [tally_cons, tally_nil, Frame.isCall]
      omega
    | startWorker hunstarted =>
      refine ⟨?_, fun h => ?_⟩
      · simp only [tally_cons, tally_nil, Frame.isCall]
        omega
      · obtain ⟨-, hstarted⟩ := hbegun h
        omega
    | destroy hstarted hcalls hbefore =>
      simp only [tally_cons, tally_nil, Frame.isCall]
      exact ⟨by omega, fun _ => ⟨by omega, hstarted⟩⟩

/-- Every worker, call from outside and destructor is still to start, there, or done. -/
theorem anchors_eq (hw : (system numThreads).Reach ok w) :
    w.shared.pool.exited + w.shared.pool.unstarted + w.shared.callsDone +
        w.shared.destroyed.count .workers + w.weigh Frame.anchor =
      numThreads + w.shared.calls + if w.shared.begunAt = none then 0 else 1 := by
  apply Program.balance (p := program numThreads)
    (fun s => s.pool.exited + s.pool.unstarted + s.callsDone + s.destroyed.count .workers)
    (fun s => numThreads + s.calls + if s.begunAt = none then 0 else 1) Frame.anchor ?_ ?_ ?_ hw
  · rintro s rfl
    exact Nat.zero_add _
  · intro choice s f
    have hsteps := f.steps_exec numThreads choice s
    change f.Steps choice s ((program numThreads).exec choice s f).1
      ((program numThreads).exec choice s f).2 at hsteps
    generalize (program numThreads).exec choice s f = next at hsteps
    obtain ⟨s', fs⟩ := next
    cases hsteps with
    | @pool _ frame before hbefore returned =>
      obtain ⟨hunstarted, hexited⟩ := steps_workers (frame.steps_exec choice before)
      rw [hbefore] at hunstarted hexited ⊢
      simp only [tally_anchor_pool, Frame.anchor] at *
      omega
    | destroys pc hmember =>
      simp only [List.count_append, List.count_singleton, tally_cons, tally_nil,
        Frame.anchor, beq_iff_eq, hmember, if_false]
      omega
    | returns =>
      simp only [List.count_append, List.count_singleton_self, tally_nil,
        Frame.anchor]
      omega
    | _ =>
      simp only [tally_cons, tally_nil, Frame.anchor]
      omega
  · intro w event s' fs _ harrived
    cases Shared.arrived harrived with
    | call call hstarted hbefore =>
      simp only [tally_cons, tally_nil, Frame.anchor,
        ThreadPool.weight_frame ThreadPool.Frame.isWorker (fun _ => rfl) rfl]
      omega
    | startWorker hunstarted =>
      simp only [tally_cons, tally_nil, Frame.anchor, ThreadPool.Frame.isWorker]
      omega
    | destroy hstarted hcalls hbefore =>
      simp only [tally_cons, tally_nil, Frame.anchor, ThreadPool.Frame.isWorker, hbefore]
      simp only [if_true, reduceCtorEq, if_false]
      omega

def Anchored : List Frame → Prop
  | [] => True
  | f :: rest => (rest = [] → 0 < f.anchor) ∧ Anchored rest

theorem Anchored.append {rest : List Frame} (hrest : Anchored rest) (hne : rest ≠ [])
    (fs : List Frame) : Anchored (fs ++ rest) := by
  induction fs with
  | nil => exact hrest
  | cons f fs ih => exact ⟨fun hnil => absurd (List.append_eq_nil_iff.mp hnil).2 hne, ih⟩

theorem Anchored.steps {choice : Choice} {s s' : Shared} {f : Frame} {rest fs : List Frame}
    (h : Anchored (f :: rest)) (hsteps : f.Steps choice s s' fs) : Anchored (fs ++ rest) := by
  obtain ⟨hpos, hrest⟩ := h
  by_cases hnil : rest = []
  · have hanchor := hpos hnil
    rw [hnil, List.append_nil]
    cases hsteps with
    | @pool _ frame before _ _ =>
      have hinner := frame.steps_exec choice before
      generalize frame.exec choice before = next at hinner
      obtain ⟨s', fs⟩ := next
      cases hinner with
      | returns => trivial
      | invokes => exact ⟨fun h => (nomatch h), ⟨fun _ => Nat.one_pos, trivial⟩⟩
      | waits | dequeues | wakes | wakesSpuriously | blocked | skips =>
        exact ⟨fun _ => Nat.one_pos, trivial⟩
      | _ => exact absurd hanchor (Nat.lt_irrefl 0)
    | callReturns | returns => trivial
    | _ => exact ⟨fun _ => Nat.one_pos, trivial⟩
  · exact hrest.append hnil fs

theorem Anchored.eq_nil {stack : List Frame} (h : Anchored stack)
    (hnone : tally Frame.anchor stack = 0) : stack = [] := by
  induction stack with
  | nil => rfl
  | cons f rest ih =>
    rw [tally_cons] at hnone
    have hnil := ih h.2 (by omega)
    have hpos := h.1 hnil
    omega

theorem anchored (hw : (system numThreads).Reach ok w) : ∀ stack ∈ w.threads, Anchored stack := by
  apply Program.forall_stack (p := program numThreads) (P := Anchored) ?_ ?_ hw
  · intro w tid choice f rest _ _ h
    exact h.steps (f.steps_exec numThreads choice w.shared)
  · intro w event s' fs _ _ harrived
    cases Shared.arrived harrived with
    | startWorker => exact ⟨fun _ => Nat.one_pos, trivial⟩
    | _ => exact ⟨fun h => (nomatch h), ⟨fun _ => Nat.one_pos, trivial⟩⟩

/-- Before the first member is destroyed the pool goes its own way; after that there is
nobody left in it. -/
structure Sound (numThreads : Nat) (w : World) : Prop where
  refines : (ThreadPool.system numThreads).Reach System.free (poolOf w)
  begun : ∀ stack ∈ w.threads, ∀ pc, Frame.destructor pc ∈ stack → w.shared.begunAt ≠ none
  body : w.shared.destroyed = [] → w.shared.requested = [] ∧
    ∀ stack ∈ w.threads, ∀ pc, Frame.destructor pc ∈ stack → pc = .destroy .stopped
  members : w.shared.destroyed ≠ [] → w.shared.begunAt ≠ none ∧
    w.shared.pool.exited = numThreads ∧ w.shared.pool.taskQueue = [] ∧
      ∀ stack ∈ w.threads, ∀ f ∈ stack, f.inner? = none
  untouched : w.shared.dangling = []

theorem Sound.pool {tid : Nat} {choice : Choice} {worker : Option Nat} {frame : ThreadPool.Frame}
    {rest : List Frame} {before : ThreadPool.Shared} {returned : List Nat} (h : Sound numThreads w)
    (hthread : w.threads[tid]? = some (.pool worker frame :: rest))
    (hbefore : before = { w.shared.pool with stopRequested := w.shared.stopRequested worker }) :
    Sound numThreads ⟨{ w.shared with
      pool := (frame.exec choice before).1
      returned := returned
      dangling := w.shared.dangling ++
        (accesses choice before frame).filter (· ∈ w.shared.destroyed) },
      w.threads.set tid ((frame.exec choice before).2.map (.pool worker) ++ rest)⟩ := by
  have hstack := List.mem_of_getElem? hthread
  have hnone : w.shared.destroyed = [] := by
    by_contra hne
    obtain ⟨-, -, -, hgone⟩ := h.members hne
    cases hgone _ hstack _ List.mem_cons_self
  obtain ⟨hrequested, hbody⟩ := h.body hnone
  have hsame : before = w.shared.pool := by
    have hseen : w.shared.stopRequested worker = w.shared.pool.stopRequested := by
      have hunseen : w.shared.pool.stopRequested = false :=
        (ThreadPool.ordered h.refines).notRequested
      simp [Shared.stopRequested, hrequested, hunseen]
    rw [hbefore, hseen]
  have hinner : (poolOf w).threads[tid]? = some (frame :: rest.filterMap Frame.inner?) := by
    simp [poolOf, hthread]
  have hfree : System.free (poolOf w) (.run tid choice : ThreadPool.Label) := trivial
  have hnext := Program.reach_exec (p := ThreadPool.program numThreads) h.refines hfree hinner
  rw [hsame]
  refine ⟨?_, ?_, fun _ => ⟨hrequested, ?_⟩, fun hne => absurd hnone hne, ?_⟩
  · simp only [poolOf, List.map_set, List.filterMap_append, filterMap_pool]
    exact hnext
  · intro stack hmem pc hpc
    rcases Stacks.mem_new_or_old hthread hmem hpc with hnew | ⟨old, hold, hpc⟩
    · exact absurd hnew (by simp)
    · exact h.begun old hold pc hpc
  · intro stack hmem pc hpc
    rcases Stacks.mem_new_or_old hthread hmem hpc with hnew | ⟨old, hold, hpc⟩
    · exact absurd hnew (by simp)
    · exact hbody old hold pc hpc
  · simp [h.untouched, hnone]

theorem Sound.refines_set {tid : Nat} {f : Frame} {rest fs : List Frame} {s' : Shared}
    (h : Sound numThreads w) (hthread : w.threads[tid]? = some (f :: rest))
    (hpool : s'.pool = w.shared.pool) (hf : f.inner? = none) (hfs : ∀ g ∈ fs, g.inner? = none) :
    (ThreadPool.system numThreads).Reach System.free
      (poolOf ⟨s', w.threads.set tid (fs ++ rest)⟩) := by
  have hgone : fs.filterMap Frame.inner? = [] := List.filterMap_eq_nil_iff.mpr hfs
  have hstack : (w.threads.map (·.filterMap Frame.inner?))[tid]? =
      some (rest.filterMap Frame.inner?) := by
    simp [hthread, hf]
  simp only [poolOf, hpool, List.map_set, List.filterMap_append, hgone, List.nil_append,
    set_eq_self hstack]
  exact h.refines

theorem Sound.callReturns {tid : Nat} {rest : List Frame} (h : Sound numThreads w)
    (hthread : w.threads[tid]? = some (.callReturns :: rest)) :
    Sound numThreads ⟨{ w.shared with callsDone := w.shared.callsDone + 1 },
      w.threads.set tid ([] ++ rest)⟩ := by
  have hold : ∀ {stack f}, stack ∈ w.threads.set tid ([] ++ rest) → f ∈ stack →
      ∃ old ∈ w.threads, f ∈ old := fun hstack hf =>
    (Stacks.mem_new_or_old hthread hstack hf).resolve_left List.not_mem_nil
  refine ⟨h.refines_set hthread rfl rfl (by simp), ?_, fun hnone => ⟨(h.body hnone).1, ?_⟩,
    fun hne => ?_, h.untouched⟩
  · intro stack hstack pc hpc
    obtain ⟨old, hmem, hpc⟩ := hold hstack hpc
    exact h.begun old hmem pc hpc
  · intro stack hstack pc hpc
    obtain ⟨old, hmem, hpc⟩ := hold hstack hpc
    exact (h.body hnone).2 old hmem pc hpc
  · obtain ⟨hbegun, hexited, hqueue, hgone⟩ := h.members hne
    refine ⟨hbegun, hexited, hqueue, fun stack hstack f hf => ?_⟩
    obtain ⟨old, hmem, hf⟩ := hold hstack hf
    exact hgone old hmem f hf

/-- When the destruction of the members begins, the drained pool has nobody in it: the
destructor is the only thread left. -/
theorem Sound.alone {tid : Nat} {rest : List Frame} (hw : (system numThreads).Reach ok w)
    (h : Sound numThreads w) (hnone : w.shared.destroyed = [])
    (hthread : w.threads[tid]? = some (.destructor (.destroy .stopped) :: rest))
    (hexited : w.shared.pool.exited = numThreads) :
    ∀ stack ∈ w.threads.set tid rest, stack = [] := by
  have hstack := List.mem_of_getElem? hthread
  have hbegun := h.begun _ hstack _ List.mem_cons_self
  obtain ⟨hcalls, hbefore⟩ := calls_eq hw
  obtain ⟨hreturned, hstarted⟩ := hbefore hbegun
  have hanchors := anchors_eq hw
  have hrest := Stacks.weigh_rest Frame.anchor hthread
  have hzero : Stacks.weigh ⟨w.shared, w.threads.set tid rest⟩ Frame.anchor = 0 := by
    rw [if_neg hbegun, hnone, List.count_nil] at hanchors
    simp only [Frame.anchor] at hrest
    omega
  have hanchored : ∀ stack ∈ w.threads.set tid rest, Anchored stack :=
    forall_mem_set (anchored hw) (anchored hw _ hstack).2
  intro stack hmem
  exact (hanchored stack hmem).eq_nil (tally_eq_zero.mp hzero stack hmem)

theorem Sound.destructs {tid : Nat} {pc : DestructorPc} {rest fs : List Frame} {s' : Shared}
    (h : Sound numThreads w) (hthread : w.threads[tid]? = some (.destructor pc :: rest))
    (hexited : w.shared.pool.exited = numThreads) (hqueue : w.shared.pool.taskQueue = [])
    (hgone : ∀ stack ∈ w.threads.set tid rest, ∀ f ∈ stack, f.inner? = none)
    (hpool : s'.pool = w.shared.pool) (hbegunAt : s'.begunAt = w.shared.begunAt)
    (hdangling : s'.dangling = w.shared.dangling) (hdestroyed : s'.destroyed ≠ [])
    (hfs : ∀ f ∈ fs, f.inner? = none) :
    Sound numThreads ⟨s', w.threads.set tid (fs ++ rest)⟩ := by
  have hbegun : s'.begunAt ≠ none := by
    rw [hbegunAt]
    exact h.begun _ (List.mem_of_getElem? hthread) _ List.mem_cons_self
  refine ⟨h.refines_set hthread hpool rfl hfs, fun _ _ _ _ => hbegun,
    fun hnone => absurd hnone hdestroyed, fun _ => ⟨hbegun, ?_, ?_, ?_⟩, ?_⟩
  · exact (congrArg ThreadPool.Shared.exited hpool).trans hexited
  · exact (congrArg ThreadPool.Shared.taskQueue hpool).trans hqueue
  · intro stack hstack f hf
    rcases Stacks.mem_frames_exec hthread hstack hf with hnew | ⟨old, hold, hf⟩
    · exact hfs f hnew
    · exact hgone old hold f hf
  · exact hdangling.trans h.untouched

theorem Sound.destructor {tid : Nat} {choice : Choice} {pc : DestructorPc} {rest fs : List Frame}
    {s' : Shared} (hw : (system numThreads).Reach (Drained numThreads) w) (h : Sound numThreads w)
    (hthread : w.threads[tid]? = some (.destructor pc :: rest))
    (hok : Drained numThreads w (.run tid choice))
    (hsteps : (Frame.destructor pc).Steps choice w.shared s' fs) :
    Sound numThreads ⟨s', w.threads.set tid (fs ++ rest)⟩ := by
  have hstack := List.mem_of_getElem? hthread
  have hfirst : w.shared.destroyed = [] → pc = .destroy .stopped := fun hnone =>
    (h.body hnone).2 _ hstack _ List.mem_cons_self
  obtain ⟨hexited, hqueue, hgone⟩ : w.shared.pool.exited = numThreads ∧
      w.shared.pool.taskQueue = [] ∧
      ∀ stack ∈ w.threads.set tid rest, ∀ f ∈ stack, f.inner? = none := by
    by_cases hnone : w.shared.destroyed = []
    · obtain rfl := hfirst hnone
      obtain ⟨hexited, hqueue⟩ := hok (Stacks.runs_eq hthread)
      refine ⟨hexited, hqueue, fun stack hmem f hf => ?_⟩
      rw [h.alone hw hnone hthread hexited stack hmem] at hf
      cases hf
    · obtain ⟨-, hexited, hqueue, hframes⟩ := h.members hnone
      refine ⟨hexited, hqueue, forall_mem_set hframes fun f hf => ?_⟩
      exact hframes _ hstack f (List.mem_cons_of_mem _ hf)
  cases hsteps with
  | destroys pc hmember =>
    exact h.destructs hthread hexited hqueue hgone rfl rfl rfl (by simp [Shared.destroy])
      (by simp [Frame.inner?])
  | requests worker pc =>
    exact h.destructs hthread hexited hqueue hgone rfl rfl rfl (fun hnone => nomatch hfirst hnone)
      (by simp [Frame.inner?])
  | joins worker pc =>
    exact h.destructs hthread hexited hqueue hgone rfl rfl rfl (fun hnone => nomatch hfirst hnone)
      (by simp [Frame.inner?])
  | returns =>
    exact h.destructs hthread hexited hqueue hgone rfl rfl rfl (by simp [Shared.destroy]) (by simp)

theorem Sound.arrives {fs : List Frame} {inner : List ThreadPool.Frame} {s' : Shared}
    (h : Sound numThreads w) (hnone : w.shared.destroyed = [])
    (hrefines : (ThreadPool.system numThreads).Reach System.free
      ⟨s'.pool, (poolOf w).threads ++ [inner]⟩)
    (hfs : fs.filterMap Frame.inner? = inner)
    (hpc : ∀ pc, Frame.destructor pc ∈ fs → pc = .destroy .stopped ∧ s'.begunAt ≠ none)
    (hbegunAt : w.shared.begunAt ≠ none → s'.begunAt ≠ none)
    (hrequested : s'.requested = w.shared.requested) (hdestroyed : s'.destroyed = [])
    (hdangling : s'.dangling = w.shared.dangling) :
    Sound numThreads ⟨s', w.threads ++ [fs]⟩ := by
  refine ⟨?_, forall_mem_append_singleton ?_ ?_, fun _ => ⟨?_, forall_mem_append_singleton ?_ ?_⟩,
    fun hne => absurd hdestroyed hne, hdangling.trans h.untouched⟩
  · simpa [poolOf, hfs] using hrefines
  · exact fun stack hstack pc hmem => hbegunAt (h.begun stack hstack pc hmem)
  · exact fun pc hmem => (hpc pc hmem).2
  · exact hrequested.trans (h.body hnone).1
  · exact (h.body hnone).2
  · exact fun pc hmem => (hpc pc hmem).1

theorem Sound.arrive {event : Event} {s' : Shared} {fs : List Frame}
    (hw : (system numThreads).Reach ok w) (h : Sound numThreads w)
    (harrived : w.shared.Arrived numThreads event s' fs) :
    Sound numThreads ⟨s', w.threads ++ [fs]⟩ := by
  obtain ⟨-, hbegun⟩ := calls_eq hw
  have hfirst : w.shared.begunAt = none ∨ 0 < w.shared.pool.unstarted →
      w.shared.destroyed = [] := by
    intro hbefore
    by_contra hne
    have hsome := (h.members hne).1
    obtain ⟨-, hstarted⟩ := hbegun hsome
    rcases hbefore with hnone | hpos
    · exact hsome hnone
    · omega
  cases harrived with
  | call call hstarted hbefore =>
    have hfree : System.free (poolOf w) (.spawn (.call call) : ThreadPool.Label) := trivial
    have hnext := Program.reach_arrive (p := ThreadPool.program numThreads) h.refines hfree
      (if_pos hstarted)
    exact h.arrives (hfirst (.inl hbefore)) hnext rfl (by simp) (fun h => h) rfl
      (hfirst (.inl hbefore)) rfl
  | startWorker hunstarted =>
    have hnone := hfirst (.inr (by omega))
    have harrives : (poolOf w).shared.arrive .startWorker = some
        ({ w.shared.pool with unstarted := w.shared.pool.unstarted - 1 },
          [.workerThread .predicate]) :=
      if_pos (by simp only [poolOf]; omega)
    have hfree : System.free (poolOf w) (.spawn .startWorker : ThreadPool.Label) := trivial
    have hnext := Program.reach_arrive (p := ThreadPool.program numThreads) h.refines hfree
      harrives
    rw [hunstarted, Nat.add_sub_cancel] at hnext
    exact h.arrives hnone hnext rfl (by simp) (fun h => h) rfl hnone rfl
  | destroy hstarted hcalls hbefore =>
    have hfree : System.free (poolOf w) (.spawn (.call .stop) : ThreadPool.Label) := trivial
    have hnext := Program.reach_arrive (p := ThreadPool.program numThreads) h.refines hfree
      (if_pos hstarted)
    exact h.arrives (hfirst (.inl hbefore)) hnext rfl (by simp) (fun _ => by simp) rfl
      (hfirst (.inl hbefore)) rfl

theorem sound (hw : (system numThreads).Reach (Drained numThreads) w) : Sound numThreads w := by
  apply Program.invariant (p := program numThreads) (I := Sound numThreads) ?_ ?_ ?_ hw
  · rintro s rfl
    refine ⟨.init ⟨rfl, rfl⟩, ?_, fun _ => ⟨rfl, ?_⟩, fun hne => absurd rfl hne, rfl⟩
    · intro stack hstack
      cases hstack
    · intro stack hstack
      cases hstack
  · intro w tid choice f rest hreach ih hok hthread
    have hsteps := f.steps_exec numThreads choice w.shared
    change f.Steps choice w.shared ((program numThreads).exec choice w.shared f).1
      ((program numThreads).exec choice w.shared f).2 at hsteps
    generalize (program numThreads).exec choice w.shared f = next at hsteps
    obtain ⟨s', fs⟩ := next
    cases f with
    | pool worker frame =>
      cases hsteps with
      | pool hbefore returned => exact ih.pool hthread hbefore
    | callReturns =>
      cases hsteps with
      | callReturns => exact ih.callReturns hthread
    | destructor pc => exact ih.destructor hreach hthread hok hsteps
  · intro w event s' fs hreach ih _ harrived
    exact ih.arrive hreach (Shared.arrived harrived)

theorem Sound.weigh_eq_zero (h : Sound numThreads w) (hne : w.shared.destroyed ≠ [])
    (weight : ThreadPool.Frame → Nat) : (poolOf w).weigh weight = 0 := by
  obtain ⟨-, -, -, hgone⟩ := h.members hne
  apply Stacks.weigh_eq_zero.mpr
  intro stack hstack f hf
  obtain ⟨outer, houter, rfl⟩ := List.mem_map.mp hstack
  obtain ⟨g, hg, hinner⟩ := List.mem_filterMap.mp hf
  rw [hgone outer houter g hg] at hinner
  cases hinner

/-- A pool is destroyed safely when its workers have returned and its queue is empty before
the first member goes. -/
theorem destroyed_safely (hw : (system numThreads).Reach (Drained numThreads) w) :
    DestroyedSafely w := by
  have hsound := sound hw
  refine ⟨hsound.untouched, fun hworkers n hn name => ?_, fun hworkers stack hstack => ?_⟩
  · have hne := List.ne_nil_of_mem hworkers
    obtain ⟨-, -, hqueue, -⟩ := hsound.members hne
    have hfifo : w.shared.pool.enqueued = w.shared.pool.dequeued ++ w.shared.pool.taskQueue :=
      (ThreadPool.ordered hsound.refines).fifo
    rw [hqueue, List.append_nil] at hfifo
    have hinvoked : w.shared.pool.invoked.count (some name) + _ =
        w.shared.pool.dequeued.count (some name) := ThreadPool.invoked_eq name hsound.refines
    rw [hsound.weigh_eq_zero hne, Nat.add_zero] at hinvoked
    calc (w.shared.pool.enqueued.take n).count (some name)
        ≤ w.shared.pool.enqueued.count (some name) :=
          (List.take_sublist n _).count_le (some name)
      _ = w.shared.pool.invoked.count (some name) := by rw [hfifo, hinvoked]
  · obtain ⟨hbegun, hexited, -, -⟩ := hsound.members (List.ne_nil_of_mem hworkers)
    obtain ⟨hcalls, hbefore⟩ := calls_eq hw
    obtain ⟨hreturned, hstarted⟩ := hbefore hbegun
    have hanchors := anchors_eq hw
    rw [if_neg hbegun] at hanchors
    have hpos : 0 < w.shared.destroyed.count .workers := List.count_pos_iff.mpr hworkers
    have hnone : w.weigh Frame.anchor = 0 := by omega
    exact (anchored hw stack hstack).eq_nil (tally_eq_zero.mp hnone stack hstack)

/-- A worker that has a task at work when the destructor is called, and returns while its
body waits to go on. -/
def worksOnWhileStopped : List Label :=
  let quiet : Choice := ⟨none, [], false⟩
  [.spawn .startWorker, .spawn (.call (.enqueue (some 7))), .run 1 quiet, .run 1 quiet,
    .run 1 quiet, .run 0 quiet, .spawn .destroy, .run 2 quiet, .run 2 quiet, .run 0 quiet,
    .run 0 quiet, .run 0 quiet, .run 2 quiet, .run 2 quiet, .run 2 quiet, .run 2 quiet,
    .run 2 quiet, .run 2 quiet, .run 2 quiet]

theorem destroyed_safely_worksOnWhileStopped :
    ∃ w, (system 1).runUnder (Drained 1) ⟨Shared.initial 1, []⟩ worksOnWhileStopped = some w ∧
      (decide (.workers ∈ w.shared.destroyed ∧ w.shared.pool.invoked = [some 7])) = true ∧
        DestroyedSafely w := by
  obtain ⟨w, hrun, htest⟩ := System.exists_of_runUnder (system 1) (Drained 1)
    ⟨Shared.initial 1, []⟩ worksOnWhileStopped
    (fun w => decide (.workers ∈ w.shared.destroyed ∧ w.shared.pool.invoked = [some 7]))
    (by decide +kernel)
  have hinit : (system 1).init ⟨Shared.initial 1, []⟩ := ⟨rfl, rfl⟩
  exact ⟨w, hrun, htest, destroyed_safely (.of_runUnder (.init hinit) hrun)⟩

/-- A worker that has not been scheduled yet when the pool is destroyed. -/
def destroyedAtOnce : List Label :=
  let quiet : Choice := ⟨none, [], false⟩
  [.spawn .startWorker, .spawn .destroy, .run 1 quiet, .run 1 quiet, .run 1 quiet, .run 0 quiet]

/-- The worker tests the flag that has been destroyed: it would be joined only after that. -/
theorem not_destroyed_safely : ¬ ∀ (numThreads : Nat) (w : World),
    (system numThreads).Reach System.free w → DestroyedSafely w := by
  intro h
  obtain ⟨w, hrun, htest⟩ := System.exists_of_runUnder (system 1) System.free
    ⟨Shared.initial 1, []⟩ destroyedAtOnce (fun w => decide (w.shared.dangling = [.stopped]))
    (by decide +kernel)
  have hinit : (system 1).init ⟨Shared.initial 1, []⟩ := ⟨rfl, rfl⟩
  have huntouched := (h 1 w (.of_runUnder (.init hinit) hrun)).untouched
  rw [of_decide_eq_true htest] at huntouched
  cases huntouched

end FastPort.Commons.ThreadPoolDestruction
