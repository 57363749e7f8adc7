import FastPort.Foundation.Stack
import FastPort.Foundation.Threads

/-! `RIOService`: the workers poll one completion queue, whose dequeue may not be entered by
two threads at once, and hand each result to its session. `Stop` waits for all of them
before it closes the queue. The owner makes one call at a time. -/
namespace FastPort.Services.RIOService

open FastPort.Foundation.Pool FastPort.Foundation.Stack FastPort.Foundation.Threads
open FastPort.Foundation.Transition

inductive RioOperationType where
  | receive
  | send
deriving DecidableEq, Repr

structure RioContext where
  OpType : RioOperationType
  pSession : Option Nat
deriving DecidableEq, Repr

structure RIORESULT where
  Status : Int
  BytesTransferred : Nat
  RequestContext : Option RioContext
deriving DecidableEq, Repr

structure Completion where
  session : Nat
  bSuccess : Bool
  bytesTransferred : Nat
  opType : RioOperationType
deriving DecidableEq, Repr

def processResult (result : RIORESULT) : Option Completion :=
  match result.RequestContext with
  | none => none
  | some context =>
      match context.pSession with
      | none => none
      | some session =>
          some ⟨session, 0 ≤ result.Status, result.BytesTransferred, context.OpType⟩

def maxResults : Nat := 128

/-- `cq` is `m_CQ`, each queue under a number of its own. The rest is history: how many
queues have been created and which have been closed, whether the service has been started
since the last one was created, what has gone into it (what is left in a queue goes with
it), what each worker has taken out, and which calls it has made. -/
structure Shared where
  cq : Option Nat
  queue : List RIORESULT
  isRunning : Bool
  locked : Bool
  workers : List Nat
  busy : Bool
  crew : Crew
  queues : Nat
  closed : List Nat
  used : Bool
  enqueued : List RIORESULT
  taken : List (Nat × RIORESULT)
  handled : List (Nat × Completion)
deriving DecidableEq

def Shared.initial : Shared where
  cq := none
  queue := []
  isRunning := false
  locked := false
  workers := []
  busy := false
  crew := .initial
  queues := 0
  closed := []
  used := false
  enqueued := []
  taken := []
  handled := []

inductive InitializeQueuePc where
  | check
  | createCompletionQueue
deriving DecidableEq

inductive StartPc where
  | exchange (threadCount : Nat)
  | emplaceBack (remaining : Nat)
deriving DecidableEq

inductive StopPc where
  | exchange
  | join (remaining : List Nat)
  | clear
  | closeCompletionQueue
deriving DecidableEq

/-- Where a worker is in its loop. The count that the dequeue gave is `none` for
`RIO_CORRUPT_CQ`. -/
inductive WorkerPc where
  | running
  | lock
  | dequeueCompletion
  | unlock (count : Option (List RIORESULT))
  | processResults (results : List RIORESULT)
  | onRioIOCompleted (call : Completion) (results : List RIORESULT)
deriving DecidableEq

inductive Frame where
  | initializeQueue (pc : InitializeQueuePc)
  | start (pc : StartPc)
  | stop (pc : StopPc)
  | worker (id : Nat) (pc : WorkerPc)
deriving DecidableEq

/-- Whether the system grants a queue; whether it finds a queue corrupt, and how many
results it has ready to give. -/
structure Choice where
  granted : Bool
  corrupt : Bool
  ready : Nat
deriving DecidableEq

def Shared.rioCreateCompletionQueue (s : Shared) : Shared :=
  { s with
    cq := some s.queues
    queue := []
    queues := s.queues + 1
    used := false
    enqueued := s.taken.map Prod.snd }

def Shared.rioCloseCompletionQueue (s : Shared) (q : Nat) : Shared :=
  { s with
    cq := none
    queue := []
    closed := s.closed ++ [q]
    enqueued := s.taken.map Prod.snd }

/-- What `RIODequeueCompletion` gives: up to `maxResults` of what is in the queue, in the
order in which it went in. There is nothing to be had of `RIO_INVALID_CQ`. -/
def Shared.rioDequeueCompletion (s : Shared) (choice : Choice) : Option (List RIORESULT) :=
  if s.cq = none ∨ choice.corrupt = true then none
  else some (s.queue.take (min choice.ready maxResults))

def Shared.take (s : Shared) (id : Nat) (results : List RIORESULT) : Shared :=
  { s with
    queue := s.queue.drop results.length
    taken := s.taken ++ results.map (Prod.mk id) }

def initializeQueue (choice : Choice) (s : Shared) : InitializeQueuePc → Shared × List Frame
  | .check =>
      if s.cq ≠ none then ({ s with busy := false }, [])
      else (s, [.initializeQueue .createCompletionQueue])
  | .createCompletionQueue =>
      if choice.granted then ({ s.rioCreateCompletionQueue with busy := false }, [])
      else ({ s with busy := false }, [])

def start (s : Shared) : StartPc → Shared × List Frame
  | .exchange threadCount =>
      if s.isRunning then ({ s with busy := false }, [])
      else ({ s with isRunning := true, used := true }, [.start (.emplaceBack threadCount)])
  | .emplaceBack 0 => ({ s with busy := false }, [])
  | .emplaceBack (remaining + 1) =>
      ({ s with workers := s.workers ++ [s.crew.created], crew := s.crew.create },
        [.start (.emplaceBack remaining)])

def stop (s : Shared) : StopPc → Shared × List Frame
  | .exchange =>
      if s.isRunning then ({ s with isRunning := false }, [.stop (.join s.workers)])
      else ({ s with busy := false }, [])
  | .join [] => (s, [.stop .clear])
  | .join (id :: remaining) =>
      if id ∈ s.crew.returned then (s, [.stop (.join remaining)])
      else (s, [.stop (.join (id :: remaining))])
  | .clear => ({ s with workers := [] }, [.stop .closeCompletionQueue])
  | .closeCompletionQueue =>
      match s.cq with
      | none => ({ s with busy := false }, [])
      | some q => ({ s.rioCloseCompletionQueue q with busy := false }, [])

/-- `WorkerLoop`. -/
def worker (choice : Choice) (s : Shared) (id : Nat) : WorkerPc → Shared × List Frame
  | .running =>
      if s.isRunning then (s, [.worker id .lock])
      else ({ s with crew := s.crew.leave id }, [])
  | .lock =>
      if s.locked then (s, [.worker id .lock])
      else ({ s with locked := true }, [.worker id .dequeueCompletion])
  | .dequeueCompletion =>
      match s.rioDequeueCompletion choice with
      | none => (s, [.worker id (.unlock none)])
      | some results => (s.take id results, [.worker id (.unlock (some results))])
  | .unlock none => ({ s with locked := false, crew := s.crew.leave id }, [])
  | .unlock (some results) => ({ s with locked := false }, [.worker id (.processResults results)])
  -- the batch is through, or there was nothing and the thread yields
  | .processResults [] => (s, [.worker id .running])
  | .processResults (result :: results) =>
      match processResult result with
      | none => (s, [.worker id (.processResults results)])
      | some call => (s, [.worker id (.onRioIOCompleted call results)])
  | .onRioIOCompleted call results =>
      ({ s with handled := s.handled ++ [(id, call)] }, [.worker id (.processResults results)])

def Frame.exec (choice : Choice) (s : Shared) : Frame → Shared × List Frame
  | .initializeQueue pc => RIOService.initializeQueue choice s pc
  | start pc => RIOService.start s pc
  | stop pc => RIOService.stop s pc
  | worker id pc => RIOService.worker choice s id pc

/-- The calls, a result that the system puts into the queue, and the start of a thread that
has been created. The destructor is a call of `Stop`. -/
inductive Event where
  | initializeQueue
  | start (threadCount : Nat)
  | stop
  | completes (result : RIORESULT)
  | startWorker (id : Nat)
deriving DecidableEq

def Shared.arrive (s : Shared) : Event → Option (Shared × List Frame)
  | .initializeQueue =>
      if s.busy = false then some ({ s with busy := true }, [.initializeQueue .check]) else none
  | .start threadCount =>
      if s.busy = false then some ({ s with busy := true }, [.start (.exchange threadCount)])
      else none
  | .stop => if s.busy = false then some ({ s with busy := true }, [.stop .exchange]) else none
  | .completes result =>
      if s.cq ≠ none then
        some ({ s with queue := s.queue ++ [result], enqueued := s.enqueued ++ [result] }, [])
      else none
  | .startWorker id =>
      if id ∈ s.crew.unstarted then
        some ({ s with crew := s.crew.enter id }, [.worker id .running])
      else none

def program : Program Shared Frame Choice Event where
  start s := s = Shared.initial
  exec choice s f := f.exec choice s
  arrive event s := s.arrive event

abbrev World := Stacks Shared Frame

abbrev Label := Move Choice Event

def system : System World Label := program.system

/-- The owner starts the service only once it has a queue. -/
def StartsInitialized (w : World) : Label → Prop
  | .spawn (.start _) => w.shared.cq ≠ none
  | _ => True

instance (w : World) (l : Label) : Decidable (StartsInitialized w l) :=
  match l with
  | .spawn (.start _) => inferInstanceAs (Decidable (_ ≠ _))
  | .run _ _ | .spawn .initializeQueue | .spawn .stop | .spawn (.completes _)
  | .spawn (.startWorker _) => isTrue trivial

inductive Frame.Steps (choice : Choice) (s : Shared) : Frame → Shared → List Frame → Prop where
  | ignores (hcq : s.cq ≠ none) : Steps choice s (.initializeQueue .check)
      { s with busy := false } []
  | initializes (hcq : s.cq = none) : Steps choice s (.initializeQueue .check) s
      [.initializeQueue .createCompletionQueue]
  | opens : Steps choice s (.initializeQueue .createCompletionQueue)
      { s.rioCreateCompletionQueue with busy := false } []
  | fails : Steps choice s (.initializeQueue .createCompletionQueue) { s with busy := false } []
  | alreadyStarted (n : Nat) (hrunning : s.isRunning = true) :
      Steps choice s (.start (.exchange n)) { s with busy := false } []
  | starts (n : Nat) (hstopped : s.isRunning = false) : Steps choice s (.start (.exchange n))
      { s with isRunning := true, used := true } [.start (.emplaceBack n)]
  | started : Steps choice s (.start (.emplaceBack 0)) { s with busy := false } []
  | creates (n : Nat) : Steps choice s (.start (.emplaceBack (n + 1)))
      { s with workers := s.workers ++ [s.crew.created], crew := s.crew.create }
      [.start (.emplaceBack n)]
  | alreadyStopped (hstopped : s.isRunning = false) : Steps choice s (.stop .exchange)
      { s with busy := false } []
  | stops (hrunning : s.isRunning = true) : Steps choice s (.stop .exchange)
      { s with isRunning := false } [.stop (.join s.workers)]
  | joined : Steps choice s (.stop (.join [])) s [.stop .clear]
  | joins {id : Nat} {ids : List Nat} (hreturned : id ∈ s.crew.returned) :
      Steps choice s (.stop (.join (id :: ids))) s [.stop (.join ids)]
  | blocked {id : Nat} {ids : List Nat} (hrunning : id ∉ s.crew.returned) :
      Steps choice s (.stop (.join (id :: ids))) s [.stop (.join (id :: ids))]
  | clears : Steps choice s (.stop .clear) { s with workers := [] } [.stop .closeCompletionQueue]
  | nothingToClose (hcq : s.cq = none) : Steps choice s (.stop .closeCompletionQueue)
      { s with busy := false } []
  | closes {q : Nat} (hcq : s.cq = some q) : Steps choice s (.stop .closeCompletionQueue)
      { s.rioCloseCompletionQueue q with busy := false } []
  | goesOn {id : Nat} (hrunning : s.isRunning = true) : Steps choice s (.worker id .running) s
      [.worker id .lock]
  | leaves {id : Nat} (hstopped : s.isRunning = false) : Steps choice s (.worker id .running)
      { s with crew := s.crew.leave id } []
  | waits {id : Nat} (hlocked : s.locked = true) : Steps choice s (.worker id .lock) s
      [.worker id .lock]
  | locks {id : Nat} (hfree : s.locked = false) : Steps choice s (.worker id .lock)
      { s with locked := true } [.worker id .dequeueCompletion]
  | corrupt {id : Nat} (hcorrupt : s.rioDequeueCompletion choice = none) :
      Steps choice s (.worker id .dequeueCompletion) s [.worker id (.unlock none)]
  | takes {id : Nat} {results : List RIORESULT}
      (htakes : s.rioDequeueCompletion choice = some results) :
      Steps choice s (.worker id .dequeueCompletion) (s.take id results)
        [.worker id (.unlock (some results))]
  | breaks {id : Nat} : Steps choice s (.worker id (.unlock none))
      { s with locked := false, crew := s.crew.leave id } []
  | unlocks {id : Nat} (results : List RIORESULT) :
      Steps choice s (.worker id (.unlock (some results))) { s with locked := false }
        [.worker id (.processResults results)]
  | turns {id : Nat} : Steps choice s (.worker id (.processResults [])) s [.worker id .running]
  | skips {id : Nat} {result : RIORESULT} (results : List RIORESULT)
      (hnone : processResult result = none) :
      Steps choice s (.worker id (.processResults (result :: results))) s
        [.worker id (.processResults results)]
  | calls {id : Nat} {result : RIORESULT} {call : Completion} (results : List RIORESULT)
      (hsome : processResult result = some call) :
      Steps choice s (.worker id (.processResults (result :: results))) s
        [.worker id (.onRioIOCompleted call results)]
  | handles {id : Nat} (call : Completion) (results : List RIORESULT) :
      Steps choice s (.worker id (.onRioIOCompleted call results))
        { s with handled := s.handled ++ [(id, call)] } [.worker id (.processResults results)]

theorem steps_stop (choice : Choice) (s : Shared) (pc : StopPc) :
    (Frame.stop pc).Steps choice s (stop s pc).1 (stop s pc).2 := by
  cases pc with
  | exchange =>
    simp only [stop]
    split
    · rename_i hrunning
      exact .stops hrunning
    · rename_i hstopped
      exact .alreadyStopped (Bool.eq_false_iff.mpr hstopped)
  | join ids =>
    cases ids with
    | nil => exact .joined
    | cons id ids =>
      simp only [stop]
      split
      · rename_i hreturned
        exact .joins hreturned
      · rename_i hrunning
        exact .blocked hrunning
  | clear => exact .clears
  | closeCompletionQueue =>
    simp only [stop]
    split
    · rename_i hcq
      exact .nothingToClose hcq
    · rename_i hcq
      exact .closes hcq

theorem steps_worker (choice : Choice) (s : Shared) (id : Nat) (pc : WorkerPc) :
    (Frame.worker id pc).Steps choice s (worker choice s id pc).1 (worker choice s id pc).2 := by
  cases pc with
  | running =>
    simp only [worker]
    split
    · rename_i hrunning
      exact .goesOn hrunning
    · rename_i hstopped
      exact .leaves (Bool.eq_false_iff.mpr hstopped)
  | lock =>
    simp only [worker]
    split
    · rename_i hlocked
      exact .waits hlocked
    · rename_i hfree
      exact .locks (Bool.eq_false_iff.mpr hfree)
  | dequeueCompletion =>
    simp only [worker]
    split
    · rename_i hcorrupt
      exact .corrupt hcorrupt
    · rename_i htakes
      exact .takes htakes
  | unlock count =>
    cases count with
    | none => exact .breaks
    | some results => exact .unlocks results
  | processResults results =>
    cases results with
    | nil => exact .turns
    | cons result results =>
      simp only [worker]
      split
      · rename_i hnone
        exact .skips results hnone
      · rename_i hsome
        exact .calls results hsome
  | onRioIOCompleted call results => exact .handles call results

theorem Frame.steps_exec (f : Frame) (choice : Choice) (s : Shared) :
    f.Steps choice s (f.exec choice s).1 (f.exec choice s).2 := by
  cases f with
  | initializeQueue pc =>
    cases pc with
    | check =>
      simp only [exec, RIOService.initializeQueue]
      split
      · rename_i hcq
        exact .ignores hcq
      · rename_i hcq
        exact .initializes (not_not.mp hcq)
    | createCompletionQueue =>
      simp only [exec, RIOService.initializeQueue]
      split
      · exact .opens
      · exact .fails
  | start pc =>
    cases pc with
    | exchange n =>
      simp only [exec, RIOService.start]
      split
      · rename_i hrunning
        exact .alreadyStarted n hrunning
      · rename_i hstopped
        exact .starts n (Bool.eq_false_iff.mpr hstopped)
    | emplaceBack n =>
      cases n with
      | zero => exact .started
      | succ n => exact .creates n
  | stop pc => exact steps_stop choice s pc
  | worker id pc => exact steps_worker choice s id pc

inductive Shared.Arrived (s : Shared) : Event → Shared → List Frame → Prop where
  | initializeQueue (hidle : s.busy = false) :
      Arrived s .initializeQueue { s with busy := true } [.initializeQueue .check]
  | start (n : Nat) (hidle : s.busy = false) :
      Arrived s (.start n) { s with busy := true } [.start (.exchange n)]
  | stop (hidle : s.busy = false) : Arrived s .stop { s with busy := true } [.stop .exchange]
  | completes (result : RIORESULT) (hcq : s.cq ≠ none) : Arrived s (.completes result)
      { s with queue := s.queue ++ [result], enqueued := s.enqueued ++ [result] } []
  | startWorker {id : Nat} (hunstarted : id ∈ s.crew.unstarted) : Arrived s (.startWorker id)
      { s with crew := s.crew.enter id } [.worker id .running]

theorem Shared.arrived {s s' : Shared} {event : Event} {fs : List Frame}
    (h : s.arrive event = some (s', fs)) : s.Arrived event s' fs := by
  cases event with
  | initializeQueue =>
    obtain ⟨hidle, heq⟩ := Option.ite_none_right_eq_some.mp h
    cases heq
    exact .initializeQueue hidle
  | start n =>
    obtain ⟨hidle, heq⟩ := Option.ite_none_right_eq_some.mp h
    cases heq
    exact .start n hidle
  | stop =>
    obtain ⟨hidle, heq⟩ := Option.ite_none_right_eq_some.mp h
    cases heq
    exact .stop hidle
  | completes result =>
    obtain ⟨hcq, heq⟩ := Option.ite_none_right_eq_some.mp h
    cases heq
    exact .completes result hcq
  | startWorker id =>
    obtain ⟨hunstarted, heq⟩ := Option.ite_none_right_eq_some.mp h
    cases heq
    exact .startWorker hunstarted

end FastPort.Services.RIOService
