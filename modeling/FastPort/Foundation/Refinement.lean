import FastPort.Foundation.Connection

/-! Machines whose moves are moves of another machine, or leave what is seen of it where it
is. What one reaches is seen to be reached by the other, by itself, beside a stream and at
the end of a connection. -/
namespace FastPort.Foundation.Refinement

open FastPort.Foundation.Connection FastPort.Foundation.Feed FastPort.Foundation.Pool
open FastPort.Foundation.Tally FastPort.Foundation.Transition

variable {Shared Thread Choice Event Shared' Thread' Choice' Event' α : Type}

/-- A view of the machine `m` under which it moves as `m'` does. -/
structure Simulation (m : Machine Shared Thread Choice Event)
    (m' : Machine Shared' Thread' Choice' Event') (agrees : Choice → Choice' → Prop) where
  shared : Shared → Shared'
  thread : Thread → Thread'
  event : Event → Event'
  start : ∀ s, m.start s → m'.start (shared s)
  run : ∀ {choice s t s' t'}, m.run choice s t = some (s', t') →
    (shared s' = shared s ∧ thread t' = thread t) ∨
      ∃ choice', agrees choice choice' ∧
        m'.run choice' (shared s) (thread t) = some (shared s', thread t')
  spawn : ∀ {e s s' t'}, m.spawn e s = some (s', t') →
    m'.spawn (event e) (shared s) = some (shared s', thread t')

namespace Simulation

variable {m : Machine Shared Thread Choice Event} {m' : Machine Shared' Thread' Choice' Event'}
variable {agrees : Choice → Choice' → Prop} (sim : Simulation m m' agrees)

def state (w : State Shared Thread) : State Shared' Thread' :=
  ⟨sim.shared w.shared, w.threads.map sim.thread⟩

def fed (w : Fed (State Shared Thread) α) : Fed (State Shared' Thread') α :=
  ⟨sim.state w.state, w.taken⟩

inductive Follows : Move Choice Event → Move Choice' Event' → Prop where
  | run {choice : Choice} {choice' : Choice'} (tid : Nat) (h : agrees choice choice') :
      Follows (.run tid choice) (.run tid choice')
  | spawn (event : Event) : Follows (.spawn event) (.spawn (sim.event event))

variable {w w' : State Shared Thread} {l : Move Choice Event}

theorem step_state (h : m.step w l = some w') :
    (sim.state w' = sim.state w ∧ ∃ tid choice, l = .run tid choice) ∨
      ∃ l', sim.Follows l l' ∧ m'.step (sim.state w) l' = some (sim.state w') := by
  cases Machine.moved_of_step h with
  | @run tid choice t t' s' hthread hrun =>
    have hseen : (w.threads.map sim.thread)[tid]? = some (sim.thread t) := by simp [hthread]
    rcases sim.run hrun with ⟨hshared, hsame⟩ | ⟨choice', hagrees, hrun'⟩
    · refine .inl ⟨?_, tid, choice, rfl⟩
      rw [state, state, hshared, List.map_set, hsame, set_eq_self hseen]
    · refine .inr ⟨_, .run tid hagrees, ?_⟩
      simp only [state, Machine.step, hseen, hrun', List.map_set]
  | spawn hspawn =>
    refine .inr ⟨_, .spawn _, ?_⟩
    simp only [state, Machine.step, sim.spawn hspawn, List.map_append, List.map_cons,
      List.map_nil]

variable {sim}

theorem reach_state {ok : State Shared Thread → Move Choice Event → Prop}
    {ok' : State Shared' Thread' → Move Choice' Event' → Prop}
    (hok : ∀ w l l', sim.Follows l l' → ok w l → ok' (sim.state w) l')
    (hw : m.system.Reach ok w) : m'.system.Reach ok' (sim.state w) := by
  induction hw with
  | @init w hinit =>
    refine .init ⟨sim.start _ hinit.1, ?_⟩
    simp only [state, hinit.2, List.map_nil]
  | step _ hstepOk hstep ih =>
    rcases sim.step_state hstep with ⟨hsame, -⟩ | ⟨l', hfollows, hmoved⟩
    · exact hsame ▸ ih
    · exact ih.step (hok _ _ _ hfollows hstepOk) hmoved

theorem reach_fed [BEq α] [LawfulBEq α] {brings : Event → List α} {brings' : Event' → List α}
    (hbrings : ∀ e, brings' (sim.event e) = brings e) {stream : List α}
    {ok : Fed (State Shared Thread) α → Move Choice Event → Prop}
    {ok' : Fed (State Shared' Thread') α → Move Choice' Event' → Prop}
    (hok : ∀ w l l', sim.Follows l l' → ok w l → ok' (sim.fed w) l')
    {w : Fed (State Shared Thread) α} (hw : (Feed.fed m brings stream).Reach ok w) :
    (Feed.fed m' brings' stream).Reach ok' (sim.fed w) := by
  induction hw with
  | @init w hinit =>
    refine .init ⟨⟨sim.start _ hinit.1.1, ?_⟩, hinit.2⟩
    simp only [fed, state, hinit.1.2, List.map_nil]
  | @step w w' l hreach hstepOk hstep ih =>
    obtain ⟨htaken, hfront, hmoved⟩ := step_eq_some hstep
    rcases sim.step_state hmoved with ⟨hsame, tid, choice, rfl⟩ | ⟨l', hfollows, hmoved'⟩
    · have heq : sim.fed w' = sim.fed w := by
        rw [fed, fed, hsame, htaken, takes, List.append_nil]
      exact heq ▸ ih
    · have htakes : takes brings' l' = takes brings l := by
        cases hfollows with
        | run => rfl
        | spawn event => exact hbrings event
      refine ih.step (hok _ _ _ hfollows hstepOk) ?_
      have hopen : ((sim.fed w).taken ++ takes brings' l').isPrefixOf stream = true := by
        rw [htakes, List.isPrefixOf_iff_prefix]
        exact htaken ▸ hfront
      simp only [Feed.fed, hopen, if_true]
      refine Option.map_eq_some_iff.mpr ⟨sim.state w'.state, hmoved', ?_⟩
      rw [htakes]
      exact congrArg (Fed.mk _) htaken.symm

variable (sim)

def peer (p : Peer Shared' Thread' Choice' Event' α)
    (hp : p.machine = m') : Peer Shared Thread Choice Event α where
  machine := m
  brings e := p.brings (sim.event e)
  puts s := p.puts (sim.shared s)
  grows := by
    intro w l w' hstep
    subst hp
    rcases sim.step_state hstep with ⟨hsame, -⟩ | ⟨l', -, hmoved⟩
    · have hshared : sim.shared w'.shared = sim.shared w.shared := congrArg State.shared hsame
      exact hshared ▸ List.prefix_refl _
    · exact p.grows hmoved

end Simulation

end FastPort.Foundation.Refinement
