import FastPort.Foundation.Stack
import FastPort.Foundation.Threads
import FastPort.Foundation.WaitSet
import FastPort.Services.IOService

/-! `IOService` from `Start` to `Stop`: the workers take results off the completion port,
`Stop` posts a shutdown key for each of them behind whatever is there, and joins them. The
owner makes one call of the two at a time, and starts the service only while no workers are
left; `Wait` may be called by anybody. -/
namespace FastPort.Services.IOService

open FastPort.Foundation.Pool FastPort.Foundation.Stack FastPort.Foundation.Tally
open FastPort.Foundation.Threads FastPort.Foundation.Transition FastPort.Foundation.WaitSet

/-- `workers` is `m_Workers`, each thread under a number of its own. The rest is history:
how many threads have been created, which of them have not run yet and which have returned,
what has gone into the port and come out of it, which calls of `OnIOCompleted` have been
made, how much had come out when the port was opened and gone in when `Stop` was called,
how many threads have been joined since, and how often `Stop` could not post its key. -/
structure Shared where
  hICOP : Bool
  port : List CompletionStatus
  workers : List Nat
  terminated : Bool
  condition : Condition
  busy : Bool
  crew : Crew
  enqueued : List CompletionStatus
  dequeued : List CompletionStatus
  dispatched : List Dispatch
  opened : Nat
  stoppedAt : Option Nat
  joined : Nat
  refused : Nat
deriving DecidableEq

def Shared.initial : Shared where
  hICOP := false
  port := []
  workers := []
  terminated := false
  condition := .initial
  busy := false
  crew := .initial
  enqueued := []
  dequeued := []
  dispatched := []
  opened := 0
  stoppedAt := none
  joined := 0
  refused := 0

def shutdownSignal : CompletionStatus := ⟨true, 0, 0, threadShutdownCompletionKey, 0⟩

inductive StartPc where
  | createCompletionPort (threadCount : Nat)
  | store (threadCount : Nat)
  | emplaceBack (remaining : Nat)
deriving DecidableEq

inductive StopPc where
  | post (remaining : Nat)
  | join (remaining : List Nat)
  | clear
  | store
  | notifyAll
deriving DecidableEq

inductive WorkerPc where
  | getQueuedCompletionStatus
  | onIOCompleted (dispatch : Dispatch)
deriving DecidableEq

inductive WaitPc where
  | predicate
  | waiting (ticket : Nat)
deriving DecidableEq

inductive Frame where
  | start (pc : StartPc)
  | stop (pc : StopPc)
  | worker (id : Nat) (pc : WorkerPc)
  | wait (pc : WaitPc)
deriving DecidableEq

/-- Whether the system grants a port or takes a key; whether a wait ends by itself. -/
structure Choice where
  granted : Bool
  spurious : Bool
deriving DecidableEq

def Shared.createCompletionPort (s : Shared) : Shared :=
  { s with
    hICOP := true
    port := []
    enqueued := s.dequeued
    opened := s.dequeued.length
    stoppedAt := none
    joined := 0 }

def Shared.enqueue (s : Shared) (r : CompletionStatus) : Shared :=
  { s with port := s.port ++ [r], enqueued := s.enqueued ++ [r] }

def Shared.dequeue (s : Shared) (r : CompletionStatus) (rest : List CompletionStatus) : Shared :=
  { s with port := rest, dequeued := s.dequeued ++ [r] }

def start (choice : Choice) (s : Shared) : StartPc → Shared × List Frame
  | .createCompletionPort threadCount =>
      if choice.granted then (s.createCompletionPort, [.start (.store threadCount)])
      else ({ s with hICOP := false, busy := false }, [])
  | .store threadCount => ({ s with terminated := false }, [.start (.emplaceBack threadCount)])
  | .emplaceBack 0 => ({ s with busy := false }, [])
  | .emplaceBack (remaining + 1) =>
      ({ s with workers := s.workers ++ [s.crew.created], crew := s.crew.create },
        [.start (.emplaceBack remaining)])

def stop (choice : Choice) (s : Shared) : StopPc → Shared × List Frame
  | .post 0 => (s, [.stop (.join s.workers)])
  | .post (remaining + 1) =>
      if s.hICOP && choice.granted then
        (s.enqueue shutdownSignal, [.stop (.post remaining)])
      else ({ s with refused := s.refused + 1 }, [.stop (.post remaining)])
  | .join [] => (s, [.stop .clear])
  | .join (id :: remaining) =>
      if id ∈ s.crew.returned then (s, [.stop (.join remaining)])
      else (s, [.stop (.join (id :: remaining))])
  | .clear => ({ s with workers := [], joined := s.joined + s.workers.length }, [.stop .store])
  | .store => ({ s with terminated := true }, [.stop .notifyAll])
  | .notifyAll => ({ s with condition := s.condition.notifyAll, busy := false }, [])

/-- A turn of the loop, up to the call of the consumer. -/
def worker (s : Shared) (id : Nat) : WorkerPc → Shared × List Frame
  | .getQueuedCompletionStatus =>
      match s.port with
      | [] => (s, [.worker id .getQueuedCompletionStatus])
      | r :: rest =>
          match turn r with
          | .leave => ({ s.dequeue r rest with crew := s.crew.leave id }, [])
          | .next none => (s.dequeue r rest, [.worker id .getQueuedCompletionStatus])
          | .next (some d) => (s.dequeue r rest, [.worker id (.onIOCompleted d)])
  | .onIOCompleted d =>
      ({ s with dispatched := s.dispatched ++ [d] }, [.worker id .getQueuedCompletionStatus])

def wait (choice : Choice) (s : Shared) : WaitPc → Shared × List Frame
  | .predicate =>
      if s.terminated then (s, [])
      else ({ s with condition := s.condition.wait }, [.wait (.waiting s.condition.nextTicket)])
  | .waiting ticket =>
      if ticket ∉ s.condition.waiters then (s, [.wait .predicate])
      else if choice.spurious then
        ({ s with condition := s.condition.leave ticket }, [.wait .predicate])
      else (s, [.wait (.waiting ticket)])

def Frame.exec (choice : Choice) (s : Shared) : Frame → Shared × List Frame
  | start pc => IOService.start choice s pc
  | stop pc => IOService.stop choice s pc
  | worker id pc => IOService.worker s id pc
  | wait pc => IOService.wait choice s pc

/-- The calls, a result that comes into the port from a socket or by `Post`, and the start
of a thread that has been created. -/
inductive Event where
  | start (threadCount : Nat)
  | stop
  | wait
  | completes (r : CompletionStatus)
  | startWorker (id : Nat)
deriving DecidableEq

def Shared.arrive (s : Shared) : Event → Option (Shared × List Frame)
  | .start threadCount =>
      if s.busy = false ∧ s.workers = [] then
        some ({ s with busy := true }, [.start (.createCompletionPort threadCount)])
      else none
  | .stop =>
      if s.busy = false then
        some ({ s with busy := true, stoppedAt := s.stoppedAt.or (some s.enqueued.length) },
          [.stop (.post s.workers.length)])
      else none
  | .wait => some (s, [.wait .predicate])
  | .completes r => if s.hICOP then some (s.enqueue r, []) else none
  | .startWorker id =>
      if id ∈ s.crew.unstarted then
        some ({ s with crew := s.crew.enter id }, [.worker id .getQueuedCompletionStatus])
      else none

def program : Program Shared Frame Choice Event where
  start s := s = Shared.initial
  exec choice s f := f.exec choice s
  arrive event s := s.arrive event

abbrev World := Stacks Shared Frame

abbrev Label := Move Choice Event

def system : System World Label := program.system

inductive Frame.Steps (choice : Choice) (s : Shared) : Frame → Shared → List Frame → Prop where
  | opens (n : Nat) : Steps choice s (.start (.createCompletionPort n)) s.createCompletionPort
      [.start (.store n)]
  | fails (n : Nat) : Steps choice s (.start (.createCompletionPort n))
      { s with hICOP := false, busy := false } []
  | resumes (n : Nat) : Steps choice s (.start (.store n)) { s with terminated := false }
      [.start (.emplaceBack n)]
  | starts : Steps choice s (.start (.emplaceBack 0)) { s with busy := false } []
  | creates (n : Nat) : Steps choice s (.start (.emplaceBack (n + 1)))
      { s with workers := s.workers ++ [s.crew.created], crew := s.crew.create }
      [.start (.emplaceBack n)]
  | posted : Steps choice s (.stop (.post 0)) s [.stop (.join s.workers)]
  | posts (n : Nat) : Steps choice s (.stop (.post (n + 1))) (s.enqueue shutdownSignal)
      [.stop (.post n)]
  | refused (n : Nat) : Steps choice s (.stop (.post (n + 1))) { s with refused := s.refused + 1 }
      [.stop (.post n)]
  | joined : Steps choice s (.stop (.join [])) s [.stop .clear]
  | joins {id : Nat} {ids : List Nat} (hreturned : id ∈ s.crew.returned) :
      Steps choice s (.stop (.join (id :: ids))) s [.stop (.join ids)]
  | blocked {id : Nat} {ids : List Nat} (hrunning : id ∉ s.crew.returned) :
      Steps choice s (.stop (.join (id :: ids))) s [.stop (.join (id :: ids))]
  | clears : Steps choice s (.stop .clear)
      { s with workers := [], joined := s.joined + s.workers.length } [.stop .store]
  | terminates : Steps choice s (.stop .store) { s with terminated := true } [.stop .notifyAll]
  | notifies : Steps choice s (.stop .notifyAll)
      { s with condition := s.condition.notifyAll, busy := false } []
  | idles {id : Nat} (hempty : s.port = []) :
      Steps choice s (.worker id .getQueuedCompletionStatus) s
        [.worker id .getQueuedCompletionStatus]
  | leaves {id : Nat} {r : CompletionStatus} {rest : List CompletionStatus}
      (hport : s.port = r :: rest) (hturn : turn r = .leave) :
      Steps choice s (.worker id .getQueuedCompletionStatus)
        { s.dequeue r rest with crew := s.crew.leave id } []
  | skips {id : Nat} {r : CompletionStatus} {rest : List CompletionStatus}
      (hport : s.port = r :: rest) (hturn : turn r = .next none) :
      Steps choice s (.worker id .getQueuedCompletionStatus) (s.dequeue r rest)
        [.worker id .getQueuedCompletionStatus]
  | takes {id : Nat} {r : CompletionStatus} {rest : List CompletionStatus} {d : Dispatch}
      (hport : s.port = r :: rest) (hturn : turn r = .next (some d)) :
      Steps choice s (.worker id .getQueuedCompletionStatus) (s.dequeue r rest)
        [.worker id (.onIOCompleted d)]
  | dispatches {id : Nat} (d : Dispatch) : Steps choice s (.worker id (.onIOCompleted d))
      { s with dispatched := s.dispatched ++ [d] } [.worker id .getQueuedCompletionStatus]
  | returns (hterminated : s.terminated = true) : Steps choice s (.wait .predicate) s []
  | waits (hrunning : s.terminated = false) : Steps choice s (.wait .predicate)
      { s with condition := s.condition.wait } [.wait (.waiting s.condition.nextTicket)]
  | wakes {ticket : Nat} (hgone : ticket ∉ s.condition.waiters) :
      Steps choice s (.wait (.waiting ticket)) s [.wait .predicate]
  | wakesSpuriously {ticket : Nat} (hspurious : choice.spurious = true) :
      Steps choice s (.wait (.waiting ticket)) { s with condition := s.condition.leave ticket }
        [.wait .predicate]
  | sleeps {ticket : Nat} (hwaits : ticket ∈ s.condition.waiters) :
      Steps choice s (.wait (.waiting ticket)) s [.wait (.waiting ticket)]

theorem steps_stop (choice : Choice) (s : Shared) (pc : StopPc) :
    (Frame.stop pc).Steps choice s (stop choice s pc).1 (stop choice s pc).2 := by
  cases pc with
  | post n =>
    cases n with
    | zero => exact .posted
    | succ n =>
      simp only [stop]
      split
      · exact .posts n
      · exact .refused n
  | join ids =>
    cases ids with
    | nil => exact .joined
    | cons id ids =>
      simp only [stop]
      split
      · rename_i hreturned
        exact .joins hreturned
      · rename_i hrunning
        exact .blocked hrunning
  | clear => exact .clears
  | store => exact .terminates
  | notifyAll => exact .notifies

theorem steps_worker (choice : Choice) (s : Shared) (id : Nat) (pc : WorkerPc) :
    (Frame.worker id pc).Steps choice s (worker s id pc).1 (worker s id pc).2 := by
  cases pc with
  | onIOCompleted d => exact .dispatches d
  | getQueuedCompletionStatus =>
    simp only [worker]
    split
    · rename_i hempty
      exact .idles hempty
    · rename_i r rest hport
      split
      · rename_i hturn
        exact .leaves hport hturn
      · rename_i hturn
        exact .skips hport hturn
      · rename_i hturn
        exact .takes hport hturn

theorem Frame.steps_exec (f : Frame) (choice : Choice) (s : Shared) :
    f.Steps choice s (f.exec choice s).1 (f.exec choice s).2 := by
  cases f with
  | start pc =>
    cases pc with
    | createCompletionPort n =>
      simp only [exec, IOService.start]
      split
      · exact .opens n
      · exact .fails n
    | store n => exact .resumes n
    | emplaceBack n =>
      cases n with
      | zero => exact .starts
      | succ n => exact .creates n
  | stop pc => exact steps_stop choice s pc
  | worker id pc => exact steps_worker choice s id pc
  | wait pc =>
    cases pc with
    | predicate =>
      simp only [exec, IOService.wait]
      split
      · rename_i hterminated
        exact .returns hterminated
      · rename_i hrunning
        exact .waits (Bool.eq_false_iff.mpr hrunning)
    | waiting ticket =>
      simp only [exec, IOService.wait]
      split
      · rename_i hgone
        exact .wakes hgone
      · rename_i hwaits
        split
        · rename_i hspurious
          exact .wakesSpuriously hspurious
        · exact .sleeps (Decidable.not_not.mp hwaits)

inductive Shared.Arrived (s : Shared) : Event → Shared → List Frame → Prop where
  | start (n : Nat) (hidle : s.busy = false) (hnone : s.workers = []) :
      Arrived s (.start n) { s with busy := true } [.start (.createCompletionPort n)]
  | stop (hidle : s.busy = false) : Arrived s .stop
      { s with busy := true, stoppedAt := s.stoppedAt.or (some s.enqueued.length) }
      [.stop (.post s.workers.length)]
  | wait : Arrived s .wait s [.wait .predicate]
  | completes (r : CompletionStatus) : Arrived s (.completes r) (s.enqueue r) []
  | startWorker {id : Nat} (hunstarted : id ∈ s.crew.unstarted) : Arrived s (.startWorker id)
      { s with crew := s.crew.enter id } [.worker id .getQueuedCompletionStatus]

theorem Shared.arrived {s s' : Shared} {event : Event} {fs : List Frame}
    (h : s.arrive event = some (s', fs)) : s.Arrived event s' fs := by
  cases event with
  | start n =>
    obtain ⟨⟨hidle, hnone⟩, heq⟩ := Option.ite_none_right_eq_some.mp h
    cases heq
    exact .start n hidle hnone
  | stop =>
    obtain ⟨hidle, heq⟩ := Option.ite_none_right_eq_some.mp h
    cases heq
    exact .stop hidle
  | wait =>
    cases h
    exact .wait
  | completes r =>
    obtain ⟨-, heq⟩ := Option.ite_none_right_eq_some.mp h
    cases heq
    exact .completes r
  | startWorker id =>
    obtain ⟨hunstarted, heq⟩ := Option.ite_none_right_eq_some.mp h
    cases heq
    exact .startWorker hunstarted

end FastPort.Services.IOService
