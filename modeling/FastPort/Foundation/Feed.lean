import FastPort.Foundation.Pool
import Mathlib.Data.List.Basic

/-! A machine beside the stream that it takes its input from. Every event says how
many elements it brings; they come off the stream in order. -/
namespace FastPort.Foundation.Feed

open FastPort.Foundation.Pool FastPort.Foundation.Transition

structure Fed (State α : Type) where
  state : State
  taken : List α

variable {Shared Thread Choice Event α : Type}

def takes (brings : Event → List α) : Move Choice Event → List α
  | .run _ _ => []
  | .spawn event => brings event

variable (m : Machine Shared Thread Choice Event) (brings : Event → List α) (stream : List α)

def fed [BEq α] : System (Fed (State Shared Thread) α) (Move Choice Event) where
  init w := m.system.init w.state ∧ w.taken = []
  step w l :=
    if (w.taken ++ takes brings l).isPrefixOf stream then
      (m.step w.state l).map fun s => ⟨s, w.taken ++ takes brings l⟩
    else none

variable {m} {brings} {stream} [BEq α] [LawfulBEq α]
variable {ok : Fed (State Shared Thread) α → Move Choice Event → Prop}
variable {w w' : Fed (State Shared Thread) α} {l : Move Choice Event}

theorem step_eq_some (h : (fed m brings stream).step w l = some w') :
    w'.taken = w.taken ++ takes brings l ∧ w'.taken <+: stream ∧
      m.system.step w.state l = some w'.state := by
  simp only [fed] at h
  split at h
  · rename_i hfront
    obtain ⟨s, hstep, rfl⟩ := Option.map_eq_some_iff.mp h
    exact ⟨rfl, List.isPrefixOf_iff_prefix.mp hfront, hstep⟩
  · cases h

theorem taken_front (hw : (fed m brings stream).Reach ok w) : w.taken <+: stream := by
  cases hw with
  | init hinit =>
    rw [hinit.2]
    exact List.nil_prefix
  | step _ _ hstep => exact (step_eq_some hstep).2.1

theorem reach_of_longer {longer : List α} (h : stream <+: longer)
    (hw : (fed m brings stream).Reach ok w) : (fed m brings longer).Reach ok w := by
  induction hw with
  | init hinit => exact .init hinit
  | @step w w' l _ hok hstep ih =>
    obtain ⟨htaken, hfront, hmoved⟩ := step_eq_some hstep
    refine ih.step hok ?_
    have hlonger : w.taken ++ takes brings l <+: longer := htaken ▸ hfront.trans h
    simp only [fed, List.isPrefixOf_iff_prefix.mpr hlonger, if_true]
    exact Option.map_eq_some_iff.mpr ⟨w'.state, hmoved, by rw [← htaken]⟩

theorem reach_state {ok' : State Shared Thread → Move Choice Event → Prop}
    (hok : ∀ w l, ok w l → ok' w.state l) (hw : (fed m brings stream).Reach ok w) :
    m.system.Reach ok' w.state := by
  induction hw with
  | init hinit => exact .init hinit.1
  | step _ hstepOk hstep ih => exact .step ih (hok _ _ hstepOk) (step_eq_some hstep).2.2

theorem reach_run {s s' : Shared} {pool : List Thread} {taken : List α}
    (hw : (fed m brings stream).Reach ok ⟨⟨s, pool⟩, taken⟩) {tid : Nat} {choice : Choice}
    (hok : ok ⟨⟨s, pool⟩, taken⟩ (.run tid choice)) {t t' : Thread} (hthread : pool[tid]? = some t)
    (hrun : m.run choice s t = some (s', t')) :
    (fed m brings stream).Reach ok ⟨⟨s', pool.set tid t'⟩, taken⟩ := by
  apply hw.step hok
  have hfront := List.isPrefixOf_iff_prefix.mpr (taken_front hw)
  simp only at hfront
  simp [fed, takes, Machine.step, hthread, hrun, hfront]

theorem reach_spawn {w : State Shared Thread} {taken : List α}
    (hw : (fed m brings stream).Reach ok ⟨w, taken⟩) {event : Event}
    (hok : ok ⟨w, taken⟩ (.spawn event)) {s' : Shared} {t' : Thread}
    (hfront : taken ++ brings event <+: stream) (hspawn : m.spawn event w.shared = some (s', t')) :
    (fed m brings stream).Reach ok ⟨⟨s', w.threads ++ [t']⟩, taken ++ brings event⟩ := by
  apply hw.step hok
  simp [fed, takes, Machine.step, hspawn, List.isPrefixOf_iff_prefix.mpr hfront]

theorem invariant {I : State Shared Thread → List α → Prop} (hinit : ∀ s, m.start s → I ⟨s, []⟩ [])
    (hrun : ∀ w taken tid choice t s' t', (fed m brings stream).Reach ok ⟨w, taken⟩ → I w taken →
      ok ⟨w, taken⟩ (.run tid choice) → w.threads[tid]? = some t →
      m.run choice w.shared t = some (s', t') → I ⟨s', w.threads.set tid t'⟩ taken)
    (hspawn : ∀ w taken event s' t', (fed m brings stream).Reach ok ⟨w, taken⟩ → I w taken →
      ok ⟨w, taken⟩ (.spawn event) → taken ++ brings event <+: stream →
      m.spawn event w.shared = some (s', t') → I ⟨s', w.threads ++ [t']⟩ (taken ++ brings event))
    (hw : (fed m brings stream).Reach ok w) : I w.state w.taken := by
  refine hw.invariant (I := fun w => I w.state w.taken) ?_ ?_
  · rintro ⟨⟨s, threads⟩, taken⟩ ⟨⟨hstart, hthreads⟩, htaken⟩
    cases hthreads
    cases htaken
    exact hinit s hstart
  · rintro ⟨w, taken⟩ l ⟨w', taken'⟩ hreach ih hok hstep
    obtain ⟨htaken, hfront, hmoved⟩ := step_eq_some hstep
    simp only at htaken hfront hmoved
    subst htaken
    cases Machine.moved_of_step hmoved with
    | run hthread hmove =>
      rw [takes, List.append_nil]
      exact hrun w taken _ _ _ _ _ hreach ih hok hthread hmove
    | spawn hmove => exact hspawn w taken _ _ _ hreach ih hok hfront hmove

end FastPort.Foundation.Feed
