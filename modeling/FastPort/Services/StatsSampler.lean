import FastPort.Services.SessionIdleChecker

/-! `StatsSampler`: a sample at once in `Start`, then one with each tick. The percentage that
`DoSample` computes is a floating-point number and left out. -/
namespace FastPort.Services.StatsSampler

open FastPort.Foundation.Pool FastPort.Foundation.Stack FastPort.Foundation.Transition
open FastPort.Services.PeriodicService

structure Sampler where
  prevProcKernelTicks : UInt64
  prevProcUserTicks : UInt64
  prevWallTicks : UInt64
  hasPrevSample : Bool
  memoryBytesCache : UInt64
deriving DecidableEq

def Sampler.initial : Sampler := ⟨0, 0, 0, false, 0⟩

/-- What `GetProcessTimes` with the clock and `GetProcessMemoryInfo` answer, `none` if they
fail. -/
structure Sample where
  times : Option (UInt64 × UInt64 × UInt64)
  workingSetSize : Option UInt64

def Sampler.doSample (sample : Sample) (s : Sampler) : Sampler :=
  match sample.times with
  | none => s
  | some (kernel, user, wall) =>
      { prevProcKernelTicks := kernel
        prevProcUserTicks := user
        prevWallTicks := wall
        hasPrevSample := true
        memoryBytesCache := sample.workingSetSize.getD s.memoryBytesCache }

inductive Body where
  | doSample
deriving DecidableEq, Repr

/-- The other way to a sample is `ForceSampleNow`. -/
def service (enabled : Bool) : Service Sampler Sample Sample Body where
  enabled := enabled
  initial := .initial
  beforeSchedule := [.doSample]
  tick := [.doSample]
  exec sample s _ := (s.doSample sample, [])
  arrive := Sampler.doSample

abbrev World := PeriodicService.World Sampler Body

abbrev Label := PeriodicService.Label Sample Sample

def system (enabled : Bool) : System World Label := PeriodicService.system (service enabled)

end FastPort.Services.StatsSampler

namespace FastPort.Services.PeriodicService

open FastPort.Foundation.Pool FastPort.Foundation.Stack FastPort.Foundation.Transition

theorem services_start_and_stop_cleanly (Session : Type) [DecidableEq Session]
    (config : SessionIdleChecker.IdleCheckerConfig) (enabled : Bool) :
    (∀ w : SessionIdleChecker.World Session,
      (SessionIdleChecker.system config).Reach Scheduled w →
        Clean (SessionIdleChecker.service config) w) ∧
    ∀ w : StatsSampler.World,
      (StatsSampler.system enabled).Reach Scheduled w → Clean (StatsSampler.service enabled) w :=
  ⟨fun _ hw => clean hw, fun _ hw => clean hw⟩

/-- A tick that is under way when the service is stopped, which has to wait for it. The
numbers are of the steps of `Start`, and of the tick from then on. -/
def startTickStop {Input Other : Type} (steps left : Nat) (input : Input) :
    List (Label Input Other) :=
  .spawn .start :: List.replicate steps (.run 0 ⟨false, input⟩) ++
    [.spawn (.tick 1), .run 1 ⟨false, input⟩, .spawn .stop] ++
    List.replicate 4 (.run 2 ⟨false, input⟩) ++ List.replicate left (.run 1 ⟨false, input⟩) ++
    [.run 2 ⟨false, input⟩]

theorem services_start_and_stop_cleanly_startTickStop :
    (∃ w, (SessionIdleChecker.system ⟨10000, true⟩).runUnder Scheduled
        (⟨Shared.initial .initial, []⟩ : SessionIdleChecker.World Nat)
        (startTickStop 3 4 ⟨some [], 20000, 0, false⟩) = some w ∧
      w.shared.stopReturned = true ∧ Clean (SessionIdleChecker.service ⟨10000, true⟩) w) ∧
    ∃ w, (StatsSampler.system true).runUnder Scheduled
        (⟨Shared.initial .initial, []⟩ : StatsSampler.World)
        (startTickStop 4 2 ⟨none, none⟩) = some w ∧
      w.shared.stopReturned = true ∧ Clean (StatsSampler.service true) w := by
  constructor
  · obtain ⟨w, hrun, htest⟩ := System.exists_of_runUnder
      (SessionIdleChecker.system ⟨10000, true⟩) Scheduled
      (⟨Shared.initial .initial, []⟩ : SessionIdleChecker.World Nat)
      (startTickStop 3 4 ⟨some [], 20000, 0, false⟩) (fun w => w.shared.stopReturned)
      (by decide +kernel)
    have hinit : (SessionIdleChecker.system ⟨10000, true⟩).init
      (⟨Shared.initial .initial, []⟩ : SessionIdleChecker.World Nat) := ⟨rfl, rfl⟩
    exact ⟨w, hrun, htest, (services_start_and_stop_cleanly Nat ⟨10000, true⟩ true).1 w
      (.of_runUnder (.init hinit) hrun)⟩
  · obtain ⟨w, hrun, htest⟩ := System.exists_of_runUnder (StatsSampler.system true) Scheduled
      (⟨Shared.initial .initial, []⟩ : StatsSampler.World) (startTickStop 4 2 ⟨none, none⟩)
      (fun w => w.shared.stopReturned) (by decide +kernel)
    have hinit : (StatsSampler.system true).init ⟨Shared.initial .initial, []⟩ := ⟨rfl, rfl⟩
    exact ⟨w, hrun, htest, (services_start_and_stop_cleanly Nat ⟨10000, true⟩ true).2 w
      (.of_runUnder (.init hinit) hrun)⟩

def startRefused {Input Other : Type} (steps : Nat) (input : Input) : List (Label Input Other) :=
  .spawn .start :: List.replicate steps (.run 0 ⟨true, input⟩)

theorem not_services_start_and_stop_cleanly :
    (¬ ∀ w : SessionIdleChecker.World Nat, (SessionIdleChecker.system ⟨10000, true⟩).Reach
      System.free w → Clean (SessionIdleChecker.service ⟨10000, true⟩) w) ∧
    ¬ ∀ w : StatsSampler.World, (StatsSampler.system true).Reach System.free w →
      Clean (StatsSampler.service true) w := by
  constructor
  · intro h
    obtain ⟨w, hrun, htest⟩ := System.exists_of_runUnder
      (SessionIdleChecker.system ⟨10000, true⟩) System.free
      (⟨Shared.initial .initial, []⟩ : SessionIdleChecker.World Nat)
      (startRefused 3 ⟨some [], 20000, 0, false⟩) (fun w => decide (w.weigh Frame.calls = 0 ∧
        w.shared.running = true ∧ w.shared.timers = [])) (by decide +kernel)
    have hinit : (SessionIdleChecker.system ⟨10000, true⟩).init
      (⟨Shared.initial .initial, []⟩ : SessionIdleChecker.World Nat) := ⟨rfl, rfl⟩
    obtain ⟨hnone, hon, htimers⟩ := of_decide_eq_true htest
    exact ((h w (.of_runUnder (.init hinit) hrun)).running_iff hnone).mp hon htimers
  · intro h
    obtain ⟨w, hrun, htest⟩ := System.exists_of_runUnder (StatsSampler.system true) System.free
      (⟨Shared.initial .initial, []⟩ : StatsSampler.World) (startRefused 4 ⟨none, none⟩)
      (fun w => decide (w.weigh Frame.calls = 0 ∧ w.shared.running = true ∧ w.shared.timers = []))
      (by decide +kernel)
    have hinit : (StatsSampler.system true).init ⟨Shared.initial .initial, []⟩ := ⟨rfl, rfl⟩
    obtain ⟨hnone, hon, htimers⟩ := of_decide_eq_true htest
    exact ((h w (.of_runUnder (.init hinit) hrun)).running_iff hnone).mp hon htimers

end FastPort.Services.PeriodicService
