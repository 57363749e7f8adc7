import FastPort.Foundation.Stack
import FastPort.Foundation.ThreadpoolTimer
import Mathlib.Data.List.Perm.Basic
import Mathlib.Logic.Function.Basic

/-! `TimerQueue`: entries in a map, each with a timer of the thread pool, and the four
functions that run on them, `ScheduleImpl`, `RunEntry`, `CancelImpl` and `ShutdownImpl`.
What a frame does to one timer depends on that timer alone. -/
namespace FastPort.Commons.TimerQueue

open FastPort.Foundation.Pool FastPort.Foundation.Stack FastPort.Foundation.Tally
open FastPort.Foundation.ThreadpoolTimer FastPort.Foundation.Transition

/-- A counter of 64 bits, which does not come round. -/
abbrev TimerId := Nat

abbrev Duration := Int

def kInvalidTimerId : TimerId := 0

inductive EntryState where
  | scheduled
  | running
  | completed
  | cancelled
deriving DecidableEq, Repr

inductive QueueState where
  | running
  | shuttingDown
  | dead
deriving DecidableEq, Repr

/-- `handle` is whether the handle is not null. The memory of an entry is kept here
whether or not somebody owns it. -/
structure Entry where
  handle : Bool
  state : EntryState
  isPeriodic : Bool
  closeAfterCallback : Bool
deriving DecidableEq, Repr

/-- How often the thread-pool timer was created, its id returned, `Cancelled` stored, the
timer disarmed, `true` returned by `CancelImpl`, in all and outside of the timer's own
callbacks, the entry compare-exchange made, and the job invoked although `Cancelled` had
been stored before that. No step reads these. -/
structure History where
  created : Nat
  returned : Nat
  cancelled : Nat
  disarmed : Nat
  cancels : Nat
  outsideCancels : Nat
  entered : Nat
  enteredLate : Nat
deriving DecidableEq, Repr

/-- All there is of one id; `published` is whether `m_Entries` has it. -/
structure Timer extends Entry, TpTimer, History where
  published : Bool
deriving DecidableEq, Repr

def Timer.initial : Timer where
  handle := false
  state := .scheduled
  isPeriodic := false
  closeAfterCallback := false
  toTpTimer := .created
  created := 0
  returned := 0
  cancelled := 0
  disarmed := 0
  cancels := 0
  outsideCancels := 0
  entered := 0
  enteredLate := 0
  published := false

/-- `snapshotTaken` is whether `ShutdownImpl` has listed the ids; no step reads it. -/
structure Shared where
  queueState : QueueState
  nextId : TimerId
  timers : TimerId → Timer
  snapshotTaken : Bool

def Shared.initial : Shared where
  queueState := .running
  nextId := 1
  timers := fun _ => .initial
  snapshotTaken := false

/-- The keys of `m_Entries`, in the order in which the map iterates over them. -/
def Shared.entries (s : Shared) (order : List TimerId) : List TimerId :=
  let ids := (List.range s.nextId).filter fun id => (s.timers id).published
  if order.Perm ids then order else ids

def allocateId (nextId : TimerId) : TimerId × TimerId :=
  if nextId = kInvalidTimerId then (nextId + 1, nextId + 2) else (nextId, nextId + 1)

/-- A `DWORD`; a negative interval counts as 0. -/
def period (isPeriodic : Bool) (interval : Duration) : Nat :=
  if isPeriodic then interval.toNat % UInt32.size else 0

def isCurrentCallbackEntry (current : Option TimerId) (id : TimerId) : Bool :=
  current = some id

inductive AdmitPc where
  | checkState
  | allocateId
deriving DecidableEq, Repr

inductive SchedulePc where
  | createTimer
  | emplace
  | setTimer
  | returns
deriving DecidableEq, Repr

inductive CancelPc where
  | checkId
  | erase
  | storeCancelled
  | readHandle
  | disarm
  | storeCloseAfter
  | withdraw
  | wait
  | close
  | clearHandle
  | returns
deriving DecidableEq, Repr

inductive CallbackPc where
  | tpTimerCallback
  | keepAlive
  | entryCas
  | invoke
  | mark
  | closeExchange
  | readHandle
  | clearHandle (h : Bool)
  | close (h : Bool)
  | release
  | finish
deriving DecidableEq, Repr

inductive ShutdownPc where
  | cas
  | snapshot
  | cancel (ids : List TimerId)
  | dead
deriving DecidableEq, Repr

/-- A function in progress on one timer and the step it takes next. -/
inductive Act where
  | scheduleImpl (isPeriodic : Bool) (interval : Duration) (pc : SchedulePc)
  | cancelImpl (waitForCallbacks currentCallbackEntry : Bool) (pc : CancelPc)
  | runEntry (pc : CallbackPc)
deriving DecidableEq, Repr

/-- `scheduleImpl` is `ScheduleImpl` before it has an id. -/
inductive Frame where
  | userCode (current : Option TimerId)
  | scheduleImpl (isPeriodic : Bool) (interval : Duration) (pc : AdmitPc)
  | shutdownImpl (waitForCallbacks : Bool) (current : Option TimerId) (pc : ShutdownPc)
  | act (id : TimerId) (a : Act)
deriving DecidableEq, Repr

inductive ApiCall where
  | scheduleOnce
  | schedulePeriodic (interval : Duration)
  | cancel (id : TimerId)
  | shutdown (waitForCallbacks : Bool)
deriving DecidableEq, Repr

def ApiCall.frame (current : Option TimerId) : ApiCall → Frame
  | scheduleOnce => .scheduleImpl false 0 .checkState
  | schedulePeriodic interval => .scheduleImpl true interval .checkState
  | cancel id => .act id (.cancelImpl true (isCurrentCallbackEntry current id) .checkId)
  | shutdown waitForCallbacks => .shutdownImpl waitForCallbacks current .cas

/-- Whether `CreateThreadpoolTimer` succeeds, what a job calls next, `none` to end, and
the order of the map. -/
structure Choice where
  timerCreated : Bool
  call : Option ApiCall
  order : List TimerId
deriving DecidableEq, Repr

/-- The new entry and its timer. -/
def Timer.create (isPeriodic : Bool) (t : Timer) : Timer :=
  { t with
    handle := true
    state := .scheduled
    isPeriodic := isPeriodic
    closeAfterCallback := false
    toTpTimer := .created
    created := t.created + 1 }

def scheduleImpl (choice : Choice) (isPeriodic : Bool) (interval : Duration) (t : Timer) :
    SchedulePc → Timer × Option Act
  | .createTimer =>
      if choice.timerCreated then
        (t.create isPeriodic, some (.scheduleImpl isPeriodic interval .emplace))
      else (t, none)
  | .emplace => ({ t with published := true }, some (.scheduleImpl isPeriodic interval .setTimer))
  | .setTimer =>
      ({ t with toTpTimer := t.set (period isPeriodic interval) },
        some (.scheduleImpl isPeriodic interval .returns))
  | .returns => ({ t with returned := t.returned + 1 }, none)

def cancelImpl (id : TimerId) (waitForCallbacks currentCallbackEntry : Bool) (t : Timer) :
    CancelPc → Timer × Option Act
  | .checkId =>
      (t, if id = kInvalidTimerId then none
        else some (.cancelImpl waitForCallbacks currentCallbackEntry .erase))
  | .erase =>
      if t.published then
        ({ t with published := false },
          some (.cancelImpl waitForCallbacks currentCallbackEntry .storeCancelled))
      else (t, none)
  | .storeCancelled =>
      ({ t with state := .cancelled, cancelled := t.cancelled + 1 },
        some (.cancelImpl waitForCallbacks currentCallbackEntry .readHandle))
  | .readHandle =>
      (t, some (.cancelImpl waitForCallbacks currentCallbackEntry
        (if t.handle then .disarm else .returns)))
  | .disarm =>
      ({ t with toTpTimer := t.cease, disarmed := t.disarmed + 1 },
        some (.cancelImpl waitForCallbacks currentCallbackEntry
          (if currentCallbackEntry then .storeCloseAfter else .withdraw)))
  | .storeCloseAfter =>
      ({ t with closeAfterCallback := true },
        some (.cancelImpl waitForCallbacks currentCallbackEntry .returns))
  | .withdraw =>
      ({ t with toTpTimer := t.toTpTimer.withdraw waitForCallbacks },
        some (.cancelImpl waitForCallbacks currentCallbackEntry .wait))
  | .wait =>
      (t, some (.cancelImpl waitForCallbacks currentCallbackEntry
        (if t.outstanding = 0 then .close else .wait)))
  | .close =>
      ({ t with toTpTimer := t.close },
        some (.cancelImpl waitForCallbacks currentCallbackEntry .clearHandle))
  | .clearHandle =>
      ({ t with handle := false },
        some (.cancelImpl waitForCallbacks currentCallbackEntry .returns))
  | .returns =>
      ({ t with
        cancels := t.cancels + 1
        outsideCancels := t.outsideCancels + if currentCallbackEntry then 0 else 1 }, none)

/-- `TpTimerCallback` and `RunEntry`. The queue outlives its timers, so the `lock` of the
owner succeeds; that the job throws makes no difference. -/
def runEntry (t : Timer) : CallbackPc → Timer × Option Act
  | .tpTimerCallback => (t, some (.runEntry .keepAlive))
  | .keepAlive => (t, some (.runEntry .entryCas))
  | .entryCas =>
      if t.state = .cancelled then
        ({ t with entered := t.entered + 1 }, some (.runEntry .release))
      else
        ({ t with
          state := if t.state = .scheduled then .running else t.state
          entered := t.entered + 1
          enteredLate := t.enteredLate + if 0 < t.cancelled then 1 else 0 },
          some (.runEntry .invoke))
  | .invoke => (t, some (.runEntry .mark))
  | .mark =>
      ({ t with
        state :=
          if !t.isPeriodic then .completed
          else if t.state = .running then .scheduled
          else t.state }, some (.runEntry .closeExchange))
  | .closeExchange =>
      ({ t with closeAfterCallback := false },
        some (.runEntry (if t.closeAfterCallback then .readHandle else .release)))
  | .readHandle => (t, some (.runEntry (.clearHandle t.handle)))
  | .clearHandle h => ({ t with handle := false }, some (.runEntry (.close h)))
  | .close h =>
      ({ t with toTpTimer := if h then t.close else t.toTpTimer }, some (.runEntry .release))
  | .release => (t, some (.runEntry .finish))
  | .finish => ({ t with toTpTimer := t.finish }, none)

def Act.exec (choice : Choice) (id : TimerId) (t : Timer) : Act → Timer × Option Act
  | scheduleImpl isPeriodic interval pc =>
      TimerQueue.scheduleImpl choice isPeriodic interval t pc
  | cancelImpl waitForCallbacks currentCallbackEntry pc =>
      TimerQueue.cancelImpl id waitForCallbacks currentCallbackEntry t pc
  | runEntry pc => TimerQueue.runEntry t pc

def Act.calls (id : TimerId) : Act → List Frame
  | runEntry .invoke => [.userCode (some id)]
  | _ => []

def shutdownImpl (choice : Choice) (s : Shared) (waitForCallbacks : Bool)
    (current : Option TimerId) : ShutdownPc → Shared × List Frame
  | .cas =>
      if s.queueState = .running then
        ({ s with queueState := .shuttingDown },
          [.shutdownImpl waitForCallbacks current .snapshot])
      else (s, [])
  | .snapshot =>
      ({ s with snapshotTaken := true },
        [.shutdownImpl waitForCallbacks current (.cancel (s.entries choice.order))])
  | .cancel [] => (s, [.shutdownImpl waitForCallbacks current .dead])
  | .cancel (id :: ids) =>
      (s, [.act id (.cancelImpl waitForCallbacks (isCurrentCallbackEntry current id) .checkId),
        .shutdownImpl waitForCallbacks current (.cancel ids)])
  | .dead => ({ s with queueState := .dead }, [])

def Frame.exec (choice : Choice) (s : Shared) : Frame → Shared × List Frame
  | userCode current =>
      (s, choice.call.elim [] fun call => [call.frame current, userCode current])
  | scheduleImpl isPeriodic interval .checkState =>
      (s, if s.queueState = .running then [scheduleImpl isPeriodic interval .allocateId] else [])
  | scheduleImpl isPeriodic interval .allocateId =>
      ({ s with nextId := (TimerQueue.allocateId s.nextId).2 },
        [.act (TimerQueue.allocateId s.nextId).1 (.scheduleImpl isPeriodic interval .createTimer)])
  | shutdownImpl waitForCallbacks current pc =>
      TimerQueue.shutdownImpl choice s waitForCallbacks current pc
  | act id a =>
      ({ s with timers := Function.update s.timers id (a.exec choice id (s.timers id)).1 },
        a.calls id ++ (a.exec choice id (s.timers id)).2.toList.map (act id))

inductive Event where
  | call (call : ApiCall)
  | expire (id : TimerId)
  | startCallback (id : TimerId)
deriving DecidableEq, Repr

/-- The environment: a call from a thread that runs no callback, a timer that is due, and
a queued callback that a thread of the pool takes. -/
def Shared.arrive (s : Shared) : Event → Option (Shared × List Frame)
  | .call call => some (s, [call.frame none])
  | .expire id =>
      (s.timers id).expire.map fun tp =>
        ({ s with timers := Function.update s.timers id { s.timers id with toTpTimer := tp } }, [])
  | .startCallback id =>
      (s.timers id).start.map fun tp =>
        ({ s with timers := Function.update s.timers id { s.timers id with toTpTimer := tp } },
          [.act id (.runEntry .tpTimerCallback)])

def program : Program Shared Frame Choice Event where
  start s := s = Shared.initial
  exec choice s f := f.exec choice s
  arrive event s := s.arrive event

abbrev World := Stacks Shared Frame

abbrev Label := Move Choice Event

def system : System World Label := program.system

theorem init_initial : system.init ⟨Shared.initial, []⟩ := ⟨rfl, rfl⟩

end FastPort.Commons.TimerQueue
