import FastPort.Commons.TimerQueue

/-! Services that a periodic timer of the queue drives: `Start` registers the timer,
`Stop` cancels it, and the ticks run what the service has to do. Of the queue it is
assumed that `Cancel`, called from outside, returns only when no callback of the timer
runs or will start. The owner makes one call at a time. -/
namespace FastPort.Services.PeriodicService

open FastPort.Commons.TimerQueue (TimerId kInvalidTimerId)
open FastPort.Foundation.Pool FastPort.Foundation.Stack FastPort.Foundation.Tally
open FastPort.Foundation.Transition

/-- What one service does of its own: in `Start` before it schedules the timer, in a tick
after it has found itself running, and what others do to it. -/
structure Service (Own Input Other Body : Type) where
  enabled : Bool
  initial : Own
  beforeSchedule : List Body
  tick : List Body
  exec : Input → Own → Body → Own × List Body
  arrive : Other → Own → Own

variable {Own Input Other Body : Type}

/-- Beside the fields of the service: the queue's armed timers of this service and the id it
gives next, the timers of the callbacks in progress, whether a call of the owner is in
progress, and whether `Stop` has returned since `Start` was last called. -/
structure Shared (Own : Type) where
  running : Bool
  timerId : TimerId
  own : Own
  timers : List TimerId
  nextId : TimerId
  ticking : List TimerId
  calling : Bool
  stopReturned : Bool
deriving DecidableEq

def Shared.initial (own : Own) : Shared Own where
  running := false
  timerId := kInvalidTimerId
  own := own
  timers := []
  nextId := kInvalidTimerId + 1
  ticking := []
  calling := false
  stopReturned := false

inductive StartPc where
  | running
  | schedulePeriodic
  | timerId (id : TimerId)
deriving DecidableEq, Repr

/-- `Cancel` first disarms the timer, then it waits. -/
inductive StopPc where
  | running
  | timerId
  | cancel (id : TimerId)
  | wait (id : TimerId)
deriving DecidableEq, Repr

/-- A callback ends in `tickEnd`, where the timer gets its thread back. -/
inductive Frame (Body : Type) where
  | start (pc : StartPc)
  | stop (pc : StopPc)
  | onTick
  | body (b : Body)
  | tickEnd (id : TimerId)
deriving DecidableEq, Repr

/-- Whether the queue refuses a timer; and what else a step of the service depends on. -/
structure Choice (Input : Type) where
  refused : Bool
  input : Input

/-- A call of the owner, a callback of a timer, a timer that others register, and what
others do to the service. -/
inductive Event (Other : Type) where
  | start
  | stop
  | tick (id : TimerId)
  | otherTimer
  | other (event : Other)

def Shared.startReturns (s : Shared Own) : Shared Own := { s with calling := false }

def Shared.stopReturns (s : Shared Own) : Shared Own :=
  { s with calling := false, stopReturned := true }

/-- `TimerQueue::SchedulePeriodic`: a fresh id, or the invalid one if there is no timer. -/
def Shared.schedulePeriodic (s : Shared Own) (refused : Bool) : Shared Own × TimerId :=
  if refused then (s, kInvalidTimerId)
  else ({ s with timers := s.nextId :: s.timers, nextId := s.nextId + 1 }, s.nextId)

def start (service : Service Own Input Other Body) (refused : Bool) (s : Shared Own) :
    StartPc → Shared Own × List (Frame Body)
  | .running =>
      if !service.enabled then (s.startReturns, [])
      else if s.running then (s.startReturns, [])
      else ({ s with running := true },
        service.beforeSchedule.map .body ++ [.start .schedulePeriodic])
  | .schedulePeriodic =>
      ((s.schedulePeriodic refused).1, [.start (.timerId (s.schedulePeriodic refused).2)])
  | .timerId id => (({ s with timerId := id } : Shared Own).startReturns, [])

def stop (s : Shared Own) : StopPc → Shared Own × List (Frame Body)
  | .running =>
      if s.running then ({ s with running := false }, [.stop .timerId]) else (s.stopReturns, [])
  | .timerId =>
      if s.timerId ≠ kInvalidTimerId then
        ({ s with timerId := kInvalidTimerId }, [.stop (.cancel s.timerId)])
      else (({ s with timerId := kInvalidTimerId } : Shared Own).stopReturns, [])
  | .cancel id => ({ s with timers := s.timers.erase id }, [.stop (.wait id)])
  | .wait id => if id ∈ s.ticking then (s, [.stop (.wait id)]) else (s.stopReturns, [])

def onTick (service : Service Own Input Other Body) (s : Shared Own) :
    Shared Own × List (Frame Body) :=
  if s.running then (s, service.tick.map .body) else (s, [])

def body (service : Service Own Input Other Body) (input : Input) (s : Shared Own) (b : Body) :
    Shared Own × List (Frame Body) :=
  ({ s with own := (service.exec input s.own b).1 }, (service.exec input s.own b).2.map .body)

def Frame.exec (service : Service Own Input Other Body) (choice : Choice Input) (s : Shared Own) :
    Frame Body → Shared Own × List (Frame Body)
  | start pc => PeriodicService.start service choice.refused s pc
  | stop pc => PeriodicService.stop s pc
  | onTick => PeriodicService.onTick service s
  | body b => PeriodicService.body service choice.input s b
  | tickEnd id => ({ s with ticking := s.ticking.erase id }, [])

def Shared.arrive (service : Service Own Input Other Body) (s : Shared Own) :
    Event Other → Option (Shared Own × List (Frame Body))
  | .start =>
      if s.calling then none
      else some ({ s with calling := true, stopReturned := false }, [.start .running])
  | .stop => if s.calling then none else some ({ s with calling := true }, [.stop .running])
  | .tick id =>
      if id ∈ s.timers then
        some ({ s with ticking := id :: s.ticking }, [.onTick, .tickEnd id])
      else none
  | .otherTimer => some ({ s with nextId := s.nextId + 1 }, [])
  | .other event => some ({ s with own := service.arrive event s.own }, [])

def program (service : Service Own Input Other Body) :
    Program (Shared Own) (Frame Body) (Choice Input) (Event Other) where
  start s := s = Shared.initial service.initial
  exec choice s f := f.exec service choice s
  arrive event s := s.arrive service event

abbrev World (Own Body : Type) := Stacks (Shared Own) (Frame Body)

abbrev Label (Input Other : Type) := Move (Choice Input) (Event Other)

def system (service : Service Own Input Other Body) :
    System (World Own Body) (Label Input Other) := (program service).system

variable {service : Service Own Input Other Body}

inductive Frame.Steps (service : Service Own Input Other Body) (choice : Choice Input)
    (s : Shared Own) : Frame Body → Shared Own → List (Frame Body) → Prop where
  | startReturns : Steps service choice s (.start .running) s.startReturns []
  | starts (hidle : s.running = false) : Steps service choice s (.start .running)
      { s with running := true } (service.beforeSchedule.map .body ++ [.start .schedulePeriodic])
  | refused (hrefused : choice.refused = true) : Steps service choice s
      (.start .schedulePeriodic) s [.start (.timerId kInvalidTimerId)]
  | scheduled : Steps service choice s (.start .schedulePeriodic)
      { s with timers := s.nextId :: s.timers, nextId := s.nextId + 1 }
      [.start (.timerId s.nextId)]
  | started (id : TimerId) : Steps service choice s (.start (.timerId id))
      ({ s with timerId := id } : Shared Own).startReturns []
  | stopReturns (hidle : s.running = false) :
      Steps service choice s (.stop .running) s.stopReturns []
  | stops (hrunning : s.running = true) :
      Steps service choice s (.stop .running) { s with running := false } [.stop .timerId]
  | noTimer (hinvalid : s.timerId = kInvalidTimerId) : Steps service choice s (.stop .timerId)
      ({ s with timerId := kInvalidTimerId } : Shared Own).stopReturns []
  | takes (hvalid : s.timerId ≠ kInvalidTimerId) : Steps service choice s (.stop .timerId)
      { s with timerId := kInvalidTimerId } [.stop (.cancel s.timerId)]
  | disarms (id : TimerId) : Steps service choice s (.stop (.cancel id))
      { s with timers := s.timers.erase id } [.stop (.wait id)]
  | waits (id : TimerId) : Steps service choice s (.stop (.wait id)) s [.stop (.wait id)]
  | waited {id : TimerId} (hnone : id ∉ s.ticking) :
      Steps service choice s (.stop (.wait id)) s.stopReturns []
  | ticks : Steps service choice s .onTick s (service.tick.map .body)
  | skips : Steps service choice s .onTick s []
  | body (b : Body) : Steps service choice s (.body b)
      { s with own := (service.exec choice.input s.own b).1 }
      ((service.exec choice.input s.own b).2.map .body)
  | tickEnd (id : TimerId) : Steps service choice s (.tickEnd id)
      { s with ticking := s.ticking.erase id } []

theorem Frame.steps_exec (f : Frame Body) (choice : Choice Input) (s : Shared Own) :
    f.Steps service choice s (f.exec service choice s).1 (f.exec service choice s).2 := by
  cases f with
  | start pc =>
    cases pc with
    | running =>
      simp only [exec, PeriodicService.start]
      split
      · exact .startReturns
      · split
        · exact .startReturns
        · rename_i hidle
          exact .starts (eq_false_of_ne_true hidle)
    | schedulePeriodic =>
      cases hrefused : choice.refused with
      | true =>
        simpa [exec, PeriodicService.start, Shared.schedulePeriodic, hrefused] using
          Steps.refused hrefused
      | false =>
        simpa [exec, PeriodicService.start, Shared.schedulePeriodic, hrefused] using
          Steps.scheduled
    | timerId id => exact .started id
  | stop pc =>
    cases pc with
    | running =>
      cases hrunning : s.running with
      | true => simpa [exec, PeriodicService.stop, hrunning] using Steps.stops hrunning
      | false => simpa [exec, PeriodicService.stop, hrunning] using Steps.stopReturns hrunning
    | timerId =>
      simp only [exec, PeriodicService.stop]
      split
      · rename_i hvalid
        exact .takes hvalid
      · rename_i hinvalid
        exact .noTimer (Decidable.not_not.mp hinvalid)
    | cancel id => exact .disarms id
    | wait id =>
      simp only [exec, PeriodicService.stop]
      split
      · exact .waits id
      · rename_i hnone
        exact .waited hnone
  | onTick =>
    simp only [exec, PeriodicService.onTick]
    split
    · exact .ticks
    · exact .skips
  | body b => exact .body b
  | tickEnd id => exact .tickEnd id

inductive Shared.Arrived (service : Service Own Input Other Body) (s : Shared Own) :
    Event Other → Shared Own → List (Frame Body) → Prop where
  | start (hfree : s.calling = false) : Arrived service s .start
      { s with calling := true, stopReturned := false } [.start .running]
  | stop (hfree : s.calling = false) :
      Arrived service s .stop { s with calling := true } [.stop .running]
  | tick {id : TimerId} (harmed : id ∈ s.timers) : Arrived service s (.tick id)
      { s with ticking := id :: s.ticking } [.onTick, .tickEnd id]
  | otherTimer : Arrived service s .otherTimer { s with nextId := s.nextId + 1 } []
  | other (event : Other) : Arrived service s (.other event)
      { s with own := service.arrive event s.own } []

theorem Shared.arrived {s s' : Shared Own} {event : Event Other} {fs : List (Frame Body)}
    (h : s.arrive service event = some (s', fs)) : s.Arrived service event s' fs := by
  cases event with
  | start =>
    obtain ⟨hfree, heq⟩ := Option.ite_none_left_eq_some.mp h
    cases heq
    exact .start (eq_false_of_ne_true hfree)
  | stop =>
    obtain ⟨hfree, heq⟩ := Option.ite_none_left_eq_some.mp h
    cases heq
    exact .stop (eq_false_of_ne_true hfree)
  | tick id =>
    obtain ⟨harmed, heq⟩ := Option.ite_none_right_eq_some.mp h
    cases heq
    exact .tick harmed
  | otherTimer =>
    cases h
    exact .otherTimer
  | other event =>
    cases h
    exact .other event

end FastPort.Services.PeriodicService
