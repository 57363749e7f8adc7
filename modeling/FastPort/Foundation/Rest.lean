import FastPort.Foundation.Stack

/-! Programs left to themselves. They go on with events of their own and with steps that
change something; at rest there is neither. -/
namespace FastPort.Foundation.Rest

open FastPort.Foundation.Pool FastPort.Foundation.Stack FastPort.Foundation.Tally
open FastPort.Foundation.Transition

variable {Shared Frame Choice Event : Type} (p : Program Shared Frame Choice Event)
variable (own : Event → Prop) (plain : Choice → Prop)

def GoesOn (w w' : Stacks Shared Frame) : Prop :=
  w' ≠ w ∧ ((∃ event, own event ∧ p.system.step w (.spawn event) = some w') ∨
    ∃ tid choice, plain choice ∧ p.system.step w (.run tid choice) = some w')

def AtRest (w : Stacks Shared Frame) : Prop := ∀ w', ¬ GoesOn p own plain w w'

inductive Goes (w : Stacks Shared Frame) : Stacks Shared Frame → Prop where
  | arrive {event : Event} {s' : Shared} {fs : List Frame} (hown : own event)
      (harrived : p.arrive event w.shared = some (s', fs)) : Goes w ⟨s', w.threads ++ [fs]⟩
  | exec {tid : Nat} {choice : Choice} {f : Frame} {rest : List Frame} (hplain : plain choice)
      (hthread : w.threads[tid]? = some (f :: rest))
      (hmoves : p.exec choice w.shared f ≠ (w.shared, [f])) :
      Goes w ⟨(p.exec choice w.shared f).1,
        w.threads.set tid ((p.exec choice w.shared f).2 ++ rest)⟩

variable {p own plain} {ok : Stacks Shared Frame → Move Choice Event → Prop}
variable {w w' : Stacks Shared Frame}

theorem moved_of_step {l : Move Choice Event} (h : p.system.step w l = some w') :
    p.machine.Moved w l w' :=
  Machine.moved_of_step (m := p.machine) h

theorem GoesOn.goes (h : GoesOn p own plain w w') : Goes p own plain w w' := by
  obtain ⟨hne, ⟨event, hown, hstep⟩ | ⟨tid, choice, hplain, hstep⟩⟩ := h
  · cases moved_of_step hstep with
    | spawn harrived => exact .arrive hown harrived
  · cases moved_of_step hstep with
    | @run _ _ stack stack' s' hthread hrun =>
      cases stack with
      | nil => cases hrun
      | cons f rest =>
        cases hrun
        refine .exec hplain hthread fun hsame => hne ?_
        have hthreads : w.threads.set tid ((p.exec choice w.shared f).2 ++ rest) = w.threads := by
          rw [hsame]
          exact set_eq_self hthread
        exact congrArg₂ State.mk (congrArg Prod.fst hsame) hthreads

theorem GoesOn.reach (hw : p.system.Reach ok w) (h : GoesOn p own plain w w')
    (hspawn : ∀ event, own event → ok w (.spawn event))
    (hrun : ∀ tid choice, ok w (.run tid choice)) : p.system.Reach ok w' := by
  obtain ⟨-, ⟨event, hown, hstep⟩ | ⟨tid, choice, -, hstep⟩⟩ := h
  · exact hw.step (hspawn event hown) hstep
  · exact hw.step (hrun tid choice) hstep

theorem AtRest.exec_eq (h : AtRest p own plain w) {tid : Nat} {choice : Choice} {f : Frame}
    {rest : List Frame} (hplain : plain choice) (hthread : w.threads[tid]? = some (f :: rest)) :
    p.exec choice w.shared f = (w.shared, [f]) := by
  by_contra hmoves
  have hstep : p.system.step w (.run tid choice) = some ⟨(p.exec choice w.shared f).1,
      w.threads.set tid ((p.exec choice w.shared f).2 ++ rest)⟩ := by
    simp [Program.system, Program.machine, Machine.system, Machine.step, hthread, Program.run]
  refine h _ ⟨fun heq => hmoves ?_, .inr ⟨tid, choice, hplain, hstep⟩⟩
  have hstack := congrArg (fun w => w.threads[tid]?) heq
  obtain ⟨hlt, -⟩ := List.getElem?_eq_some_iff.mp hthread
  rw [List.getElem?_set_self hlt, hthread] at hstack
  have hframes : (p.exec choice w.shared f).2 = [f] :=
    List.append_cancel_right (Option.some.inj hstack)
  exact Prod.ext (congrArg State.shared heq) hframes

theorem AtRest.arrive_eq (h : AtRest p own plain w) {event : Event} (hown : own event) :
    p.arrive event w.shared = none := by
  by_contra hsome
  obtain ⟨⟨s', fs⟩, harrived⟩ := Option.ne_none_iff_exists'.mp hsome
  have hstep : p.system.step w (.spawn event) = some ⟨s', w.threads ++ [fs]⟩ := by
    simp [Program.system, Program.machine, Machine.system, Machine.step, harrived]
  refine h _ ⟨fun heq => ?_, .inl ⟨event, hown, hstep⟩⟩
  have hlength := congrArg (fun w => w.threads.length) heq
  simp at hlength

theorem AtRest.forall_frame (h : AtRest p own plain w) (choice : Choice) (hplain : plain choice)
    {P : Frame → Prop} (hstill : ∀ f, p.exec choice w.shared f = (w.shared, [f]) → P f)
    (hshort : ∀ stack ∈ w.threads, stack.length ≤ 1) :
    ∀ stack ∈ w.threads, ∀ f ∈ stack, P f := by
  intro stack hstack f hf
  have hlength := hshort stack hstack
  obtain ⟨tid, hthread⟩ := List.mem_iff_getElem?.mp hstack
  cases stack with
  | nil => cases hf
  | cons g rest =>
    obtain rfl : rest = [] := List.length_eq_zero_iff.mp (by simpa using hlength)
    obtain rfl := List.mem_singleton.mp hf
    exact hstill f (h.exec_eq hplain hthread)

end FastPort.Foundation.Rest
