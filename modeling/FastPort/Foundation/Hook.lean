import FastPort.Foundation.Refinement
import FastPort.Foundation.Stack

/-! User code in the place of the frame that stands for any. The frame of a program that
may call whatever it likes is filled in with code that has a state of its own and says what
it calls next. What runs then is still a run of the program. -/
namespace FastPort.Foundation.Hook

open FastPort.Foundation.Pool FastPort.Foundation.Refinement FastPort.Foundation.Stack
open FastPort.Foundation.Tally

variable {Shared Frame Choice Event Call Own Code Choice' Event' : Type}

/-- What code does next: it returns, or it makes a call and goes on behind it. -/
inductive Act (Call Code : Type) where
  | returns
  | calls (call : Call) (next : Code)

inductive Layered (Frame Code : Type) where
  | base (f : Frame)
  | code (c : Code)
deriving DecidableEq

/-- Code for a program whose frame `hook` stands for any code: which code the step of a
frame calls back, what it does, and how its calls are made. -/
structure UserCode (p : Program Shared Frame Choice Event) (Call Own Code Choice' Event' : Type)
    where
  hook : Frame
  frame : Call → Frame
  choice : Choice' → Option Call → Choice
  event : Event' → Event
  enters : Frame → Code
  own : Own
  act : Choice' → Own → Code → Own × Act Call Code
  exec_returns : ∀ c s, p.exec (choice c none) s hook = (s, [])
  exec_calls : ∀ c s call, p.exec (choice c (some call)) s hook = (s, [frame call, hook])

namespace UserCode

variable {p : Program Shared Frame Choice Event} (u : UserCode p Call Own Code Choice' Event')

def erase : Layered Frame Code → Frame
  | .base f => f
  | .code _ => u.hook

theorem map_erase_base (fs : List Frame) : (fs.map Layered.base).map u.erase = fs := by
  rw [List.map_map]
  exact List.map_id fs

variable [DecidableEq Frame]

/-- The frames that a step leads to, with the code in its place. -/
def fill (f : Frame) (fs : List Frame) : List (Layered Frame Code) :=
  fs.map fun g => if g = u.hook then .code (u.enters f) else .base g

def exec (choice : Choice') (s : Shared × Own) :
    Layered Frame Code → (Shared × Own) × List (Layered Frame Code)
  | .base f =>
      let r := p.exec (u.choice choice none) s.1 f
      ((r.1, s.2), u.fill f r.2)
  | .code c =>
      match u.act choice s.2 c with
      | (own, .returns) => ((s.1, own), [])
      | (own, .calls call next) => ((s.1, own), [.base (u.frame call), .code next])

def program : Program (Shared × Own) (Layered Frame Code) Choice' Event' where
  start s := p.start s.1 ∧ s.2 = u.own
  exec := u.exec
  arrive event s := (p.arrive (u.event event) s.1).map fun r => ((r.1, s.2), r.2.map .base)

theorem map_erase_fill (f : Frame) (fs : List Frame) : (u.fill f fs).map u.erase = fs := by
  rw [fill, List.map_map]
  refine (List.map_congr_left fun g _ => ?_).trans (List.map_id fs)
  by_cases hg : g = u.hook
  · simp [erase, hg]
  · simp [erase, hg]

theorem exec_erase (choice : Choice') (s : Shared × Own) (f : Layered Frame Code) :
    ∃ call, p.exec (u.choice choice call) s.1 (u.erase f) =
      ((u.exec choice s f).1.1, (u.exec choice s f).2.map u.erase) := by
  cases f with
  | base f =>
    refine ⟨none, ?_⟩
    simp only [exec, erase, map_erase_fill]
  | code c =>
    simp only [exec]
    cases u.act choice s.2 c with
    | mk own next =>
      cases next with
      | returns => exact ⟨none, u.exec_returns choice s.1⟩
      | calls call next => exact ⟨some call, u.exec_calls choice s.1 call⟩

/-- The program sees a run of its own. -/
def simulation : Simulation u.program.machine p.machine
    (fun choice choice' => ∃ call, choice' = u.choice choice call) where
  shared := Prod.fst
  thread := List.map u.erase
  event := u.event
  start _ h := h.1
  run := by
    intro choice s stack s' stack' hrun
    cases stack with
    | nil => cases hrun
    | cons f rest =>
      cases hrun
      obtain ⟨call, hexec⟩ := u.exec_erase choice s f
      refine .inr ⟨_, ⟨call, rfl⟩, ?_⟩
      simp only [Program.machine, Program.run, program, List.map_cons, hexec, List.map_append]
  spawn := by
    intro e s s' stack hspawn
    obtain ⟨⟨shared, fs⟩, harrived, hr⟩ := Option.map_eq_some_iff.mp hspawn
    cases hr
    simp only [Program.machine, harrived, map_erase_base]

theorem weigh_state (weight : Frame → Nat) (w : Stacks (Shared × Own) (Layered Frame Code)) :
    Stacks.weigh (u.simulation.state w) weight = w.weigh fun f => weight (u.erase f) := by
  have hstack : (fun stack : List (Layered Frame Code) => tally weight (stack.map u.erase)) =
      tally fun f => weight (u.erase f) := by
    funext stack
    exact tally_map weight u.erase stack
  have hmap := tally_map (tally weight) (List.map u.erase) w.threads
  rw [hstack] at hmap
  exact hmap

theorem runs_state (w : Stacks (Shared × Own) (Layered Frame Code)) (tid : Nat)
    (choice : Choice') (choice' : Choice) :
    Stacks.runs (u.simulation.state w) (.run tid choice' : Move Choice Event) =
      (w.runs (.run tid choice : Move Choice' Event')).map u.erase := by
  simp only [Stacks.runs, Simulation.state, simulation, List.getElem?_map]
  cases w.threads[tid]? with
  | none => rfl
  | some stack => cases stack <;> rfl

end UserCode

end FastPort.Foundation.Hook
