import FastPort.Foundation.WaitSet
import FastPort.Foundation.Stack

/-! `ThreadPool`: `Enqueue`, `Stop` and `WorkerThread`. Each section under the mutex is one
step; the notifications are made outside of it. The tasks are code of the users, who may
call the pool from within a task as from outside. -/
namespace FastPort.Commons.ThreadPool

open FastPort.Foundation.Pool FastPort.Foundation.Stack FastPort.Foundation.Tally
open FastPort.Foundation.Transition FastPort.Foundation.WaitSet

/-- A function object, `none` when it is empty. -/
abbrev Task := Option Nat

/-- `stopRequested` is of the stop tokens, which only the destructor of the workers asks
to stop; no step here does. `unstarted` is how many workers the constructor has still to
start. The rest is history, in the order of the sections under the mutex: what was
enqueued and dequeued, how much had been enqueued when `Stop` set its flag, what has been
invoked, and how many workers have returned. -/
structure Shared where
  taskQueue : List Task
  stopped : Bool
  stopRequested : Bool
  condition : Condition
  unstarted : Nat
  enqueued : List Task
  dequeued : List Task
  stoppedAt : Option Nat
  invoked : List Task
  exited : Nat
deriving DecidableEq

def Shared.initial (numThreads : Nat) : Shared where
  taskQueue := []
  stopped := false
  stopRequested := false
  condition := .initial
  unstarted := numThreads
  enqueued := []
  dequeued := []
  stoppedAt := none
  invoked := []
  exited := 0

inductive EnqueuePc where
  | emplace
  | notifyOne
deriving DecidableEq, Repr

inductive StopPc where
  | set
  | notifyAll
deriving DecidableEq, Repr

inductive WorkerPc where
  | predicate
  | waiting (ticket : Nat)
  | task (task : Task)
deriving DecidableEq, Repr

inductive Frame where
  | enqueue (task : Task) (pc : EnqueuePc)
  | stop (pc : StopPc)
  | workerThread (pc : WorkerPc)
  | userCode
deriving DecidableEq, Repr

inductive ApiCall where
  | enqueue (task : Task)
  | stop
deriving DecidableEq, Repr

def ApiCall.frame : ApiCall → Frame
  | enqueue task => .enqueue task .emplace
  | stop => .stop .set

/-- What a task calls next, `none` to return; whom a notification of one wakes; whether a
wait ends without one. -/
structure Choice where
  call : Option ApiCall
  woken : List Nat
  spurious : Bool
deriving DecidableEq, Repr

def Shared.predicate (s : Shared) : Bool :=
  s.stopped || !s.taskQueue.isEmpty || s.stopRequested

def enqueue (choice : Choice) (s : Shared) (task : Task) : EnqueuePc → Shared × List Frame
  | .emplace =>
      ({ s with taskQueue := s.taskQueue ++ [task], enqueued := s.enqueued ++ [task] },
        [.enqueue task .notifyOne])
  | .notifyOne => ({ s with condition := s.condition.notifyOne choice.woken }, [])

def stop (s : Shared) : StopPc → Shared × List Frame
  | .set =>
      if s.stopped then (s, [])
      else ({ s with stopped := true, stoppedAt := some s.enqueued.length }, [.stop .notifyAll])
  | .notifyAll => ({ s with condition := s.condition.notifyAll }, [])

def workerSection (s : Shared) : Shared × List Frame :=
  if !s.predicate then
    ({ s with condition := s.condition.wait },
      [.workerThread (.waiting s.condition.nextTicket)])
  else if (s.stopped || s.stopRequested) && s.taskQueue.isEmpty then
    ({ s with exited := s.exited + 1 }, [])
  else
    match s.taskQueue with
    | [] => (s, [.workerThread .predicate])
    | task :: rest =>
        ({ s with taskQueue := rest, dequeued := s.dequeued ++ [task] },
          [.workerThread (.task task)])

def workerThread (choice : Choice) (s : Shared) : WorkerPc → Shared × List Frame
  | .predicate => workerSection s
  | .waiting ticket =>
      if ticket ∉ s.condition.waiters then (s, [.workerThread .predicate])
      else if choice.spurious then
        ({ s with condition := s.condition.leave ticket }, [.workerThread .predicate])
      else (s, [.workerThread (.waiting ticket)])
  | .task none => (s, [.workerThread .predicate])
  | .task (some name) =>
      ({ s with invoked := s.invoked ++ [some name] }, [.userCode, .workerThread .predicate])

def Frame.exec (choice : Choice) (s : Shared) : Frame → Shared × List Frame
  | enqueue task pc => ThreadPool.enqueue choice s task pc
  | stop pc => ThreadPool.stop s pc
  | workerThread pc => ThreadPool.workerThread choice s pc
  | userCode => (s, choice.call.elim [] fun call => [call.frame, userCode])

/-- A call from outside, once the pool is constructed, and the start of a worker. -/
inductive Event where
  | call (call : ApiCall)
  | startWorker
deriving DecidableEq, Repr

def Shared.arrive (s : Shared) : Event → Option (Shared × List Frame)
  | .call call => if s.unstarted = 0 then some (s, [call.frame]) else none
  | .startWorker =>
      if 0 < s.unstarted then
        some ({ s with unstarted := s.unstarted - 1 }, [.workerThread .predicate])
      else none

def program (numThreads : Nat) : Program Shared Frame Choice Event where
  start s := s = Shared.initial numThreads
  exec choice s f := f.exec choice s
  arrive event s := s.arrive event

abbrev World := Stacks Shared Frame

abbrev Label := Move Choice Event

def system (numThreads : Nat) : System World Label := (program numThreads).system

inductive Frame.Steps (choice : Choice) (s : Shared) : Frame → Shared → List Frame → Prop where
  | emplace (task : Task) : Steps choice s (.enqueue task .emplace)
      { s with taskQueue := s.taskQueue ++ [task], enqueued := s.enqueued ++ [task] }
      [.enqueue task .notifyOne]
  | notifyOne (task : Task) : Steps choice s (.enqueue task .notifyOne)
      { s with condition := s.condition.notifyOne choice.woken } []
  | stoppedBefore (hstopped : s.stopped = true) : Steps choice s (.stop .set) s []
  | stops (hrunning : s.stopped = false) : Steps choice s (.stop .set)
      { s with stopped := true, stoppedAt := some s.enqueued.length } [.stop .notifyAll]
  | notifyAll : Steps choice s (.stop .notifyAll)
      { s with condition := s.condition.notifyAll } []
  | waits (hrunning : s.stopped = false) (hempty : s.taskQueue = []) :
      Steps choice s (.workerThread .predicate) { s with condition := s.condition.wait }
        [.workerThread (.waiting s.condition.nextTicket)]
  | returns (hstop : s.stopped = true ∨ s.stopRequested = true) (hempty : s.taskQueue = []) :
      Steps choice s (.workerThread .predicate) { s with exited := s.exited + 1 } []
  | dequeues {task : Task} {rest : List Task} (hqueue : s.taskQueue = task :: rest) :
      Steps choice s (.workerThread .predicate)
        { s with taskQueue := rest, dequeued := s.dequeued ++ [task] }
        [.workerThread (.task task)]
  | wakes {ticket : Nat} (hgone : ticket ∉ s.condition.waiters) :
      Steps choice s (.workerThread (.waiting ticket)) s [.workerThread .predicate]
  | wakesSpuriously {ticket : Nat} (hwaits : ticket ∈ s.condition.waiters)
      (hspurious : choice.spurious = true) :
      Steps choice s (.workerThread (.waiting ticket))
        { s with condition := s.condition.leave ticket } [.workerThread .predicate]
  | blocked {ticket : Nat} (hwaits : ticket ∈ s.condition.waiters) :
      Steps choice s (.workerThread (.waiting ticket)) s [.workerThread (.waiting ticket)]
  | skips : Steps choice s (.workerThread (.task none)) s [.workerThread .predicate]
  | invokes (name : Nat) : Steps choice s (.workerThread (.task (some name)))
      { s with invoked := s.invoked ++ [some name] } [.userCode, .workerThread .predicate]
  | calls (call : ApiCall) (hcall : choice.call = some call) :
      Steps choice s .userCode s [call.frame, .userCode]
  | done : Steps choice s .userCode s []

theorem steps_workerSection (choice : Choice) (s : Shared) :
    (Frame.workerThread .predicate).Steps choice s (workerSection s).1 (workerSection s).2 := by
  unfold workerSection
  split
  · rename_i hpredicate
    simp only [Shared.predicate, Bool.not_eq_true', Bool.or_eq_false_iff, Bool.not_eq_false',
      List.isEmpty_iff] at hpredicate
    exact .waits hpredicate.1.1 hpredicate.1.2
  · rename_i hpredicate
    split
    · rename_i hreturns
      simp only [Bool.and_eq_true, Bool.or_eq_true, List.isEmpty_iff] at hreturns
      exact .returns hreturns.1 hreturns.2
    · rename_i hgoes
      cases hqueue : s.taskQueue with
      | nil => simp_all [Shared.predicate]
      | cons task rest => exact .dequeues hqueue

theorem Frame.steps_exec (f : Frame) (choice : Choice) (s : Shared) :
    f.Steps choice s (f.exec choice s).1 (f.exec choice s).2 := by
  cases f with
  | enqueue task pc =>
    cases pc with
    | emplace => exact .emplace task
    | notifyOne => exact .notifyOne task
  | stop pc =>
    cases pc with
    | set =>
      cases hstopped : s.stopped with
      | true => simpa [exec, ThreadPool.stop, hstopped] using Steps.stoppedBefore hstopped
      | false => simpa [exec, ThreadPool.stop, hstopped] using Steps.stops hstopped
    | notifyAll => exact .notifyAll
  | workerThread pc =>
    cases pc with
    | predicate => exact steps_workerSection choice s
    | waiting ticket =>
      simp only [exec, ThreadPool.workerThread]
      split
      · rename_i hgone
        exact .wakes hgone
      · rename_i hwaits
        split
        · rename_i hspurious
          exact .wakesSpuriously (Decidable.not_not.mp hwaits) hspurious
        · exact .blocked (Decidable.not_not.mp hwaits)
    | task task =>
      cases task with
      | none => exact .skips
      | some name => exact .invokes name
  | userCode =>
    simp only [exec]
    cases hcall : choice.call with
    | none => exact .done
    | some call => exact .calls call hcall

inductive Shared.Arrived (s : Shared) : Event → Shared → List Frame → Prop where
  | call (call : ApiCall) (hstarted : s.unstarted = 0) : Arrived s (.call call) s [call.frame]
  | startWorker {n : Nat} (hunstarted : s.unstarted = n + 1) :
      Arrived s .startWorker { s with unstarted := n } [.workerThread .predicate]

theorem Shared.arrived {s s' : Shared} {event : Event} {fs : List Frame}
    (h : s.arrive event = some (s', fs)) : s.Arrived event s' fs := by
  cases event with
  | call call =>
    obtain ⟨hstarted, heq⟩ := Option.ite_none_right_eq_some.mp h
    cases heq
    exact .call call hstarted
  | startWorker =>
    obtain ⟨hunstarted, heq⟩ := Option.ite_none_right_eq_some.mp h
    cases heq
    exact .startWorker (by omega)

end FastPort.Commons.ThreadPool
