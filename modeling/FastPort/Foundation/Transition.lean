import Mathlib.Logic.Basic

/-! Labelled transition systems and the states their runs reach. A run can be
held to a step condition: `Reach ok` contains the states reached by runs each of
whose steps is taken in a state and under a label that meet `ok`. -/
namespace FastPort.Foundation.Transition

variable {State Label : Type}

structure System (State Label : Type) where
  init : State → Prop
  step : State → Label → Option State

namespace System

inductive Reach (sys : System State Label) (ok : State → Label → Prop) : State → Prop where
  | init {s : State} : sys.init s → Reach sys ok s
  | step {s s' : State} {l : Label} :
      Reach sys ok s → ok s l → sys.step s l = some s' → Reach sys ok s'

/-- The condition that every step meets. -/
def free (_ : State) (_ : Label) : Prop := True

instance (s : State) (l : Label) : Decidable (free s l) := inferInstanceAs (Decidable True)

theorem Reach.mono {sys : System State Label} {ok ok' : State → Label → Prop}
    (h : ∀ s l, ok s l → ok' s l) {s : State} (hs : sys.Reach ok s) : sys.Reach ok' s := by
  induction hs with
  | init hinit => exact .init hinit
  | step _ hok hstep ih => exact .step ih (h _ _ hok) hstep

theorem Reach.of_steps {sys : System State Label} {ok ok' : State → Label → Prop}
    (h : ∀ s l, sys.Reach ok s → ok s l → ok' s l) {s : State} (hs : sys.Reach ok s) :
    sys.Reach ok' s := by
  induction hs with
  | init hinit => exact .init hinit
  | step hreach hok hstep ih => exact .step ih (h _ _ hreach hok) hstep

theorem Reach.invariant {sys : System State Label} {ok : State → Label → Prop}
    {I : State → Prop} (hinit : ∀ s, sys.init s → I s)
    (hstep : ∀ s l s', sys.Reach ok s → I s → ok s l → sys.step s l = some s' → I s')
    {s : State} (hs : sys.Reach ok s) : I s := by
  induction hs with
  | init h => exact hinit _ h
  | step hreach hok h ih => exact hstep _ _ _ hreach ih hok h

theorem acc_of_falls {P : State → Prop} {α : Type} {r : α → α → Prop} (hr : WellFounded r)
    (rank : State → α) {goesOn : State → State → Prop}
    (hkeeps : ∀ s s', P s → goesOn s s' → P s')
    (hfalls : ∀ s s', P s → goesOn s s' → r (rank s') (rank s)) {s : State} (hs : P s) :
    Acc (fun s'' s' => goesOn s' s'') s := by
  have hacc := (InvImage.wf rank hr).apply s
  induction hacc with
  | intro s _ ih =>
    exact Acc.intro s fun s' hgoes => ih s' (hfalls s s' hs hgoes) (hkeeps s s' hs hgoes)

def after (sys : System State Label) (s : State) : System State Label where
  init := (· = s)
  step := sys.step

theorem Reach.of_after {sys : System State Label} {ok : State → Label → Prop} {s s' : State}
    (hs : sys.Reach ok s) (hlater : (sys.after s).Reach ok s') : sys.Reach ok s' := by
  induction hlater with
  | init hinit => exact hinit ▸ hs
  | step _ hok hstep ih => exact .step ih hok hstep

/-- Follow a list of labels, stopping with `none` at a step that is not enabled
or does not meet the condition. -/
def runUnder (sys : System State Label) (ok : State → Label → Prop)
    [∀ s l, Decidable (ok s l)] (s : State) : List Label → Option State
  | [] => some s
  | l :: rest =>
      if ok s l then
        match sys.step s l with
        | some s' => runUnder sys ok s' rest
        | none => none
      else none

theorem Reach.of_runUnder {sys : System State Label} {ok : State → Label → Prop}
    [∀ s l, Decidable (ok s l)] {s s' : State} {labels : List Label} (hs : sys.Reach ok s)
    (hrun : sys.runUnder ok s labels = some s') : sys.Reach ok s' := by
  induction labels generalizing s with
  | nil => cases hrun; exact hs
  | cons l rest ih =>
    simp only [runUnder] at hrun
    split at hrun
    · rename_i hok
      split at hrun
      · rename_i hstep
        exact ih (hs.step hok hstep) hrun
      · cases hrun
    · cases hrun

theorem exists_of_runUnder (sys : System State Label) (ok : State → Label → Prop)
    [∀ s l, Decidable (ok s l)] (s : State) (labels : List Label) (test : State → Bool)
    (h : (sys.runUnder ok s labels).any test = true) :
    ∃ s', sys.runUnder ok s labels = some s' ∧ test s' = true := by
  cases hrun : sys.runUnder ok s labels with
  | none => simp [hrun] at h
  | some s' => exact ⟨s', rfl, by simpa [hrun] using h⟩

end System

end FastPort.Foundation.Transition
