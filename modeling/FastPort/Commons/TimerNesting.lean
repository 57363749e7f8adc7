import FastPort.Commons.TimerSteps

/-! The stacks of the threads. A thread of the pool has one execution of a callback at the
bottom, and above it, while the job runs, what the job calls; all other threads run calls
from outside. So who cancels a timer from its own callback stands above that callback. -/
namespace FastPort.Commons.TimerQueue

open FastPort.Foundation.Pool FastPort.Foundation.Stack FastPort.Foundation.Tally
open FastPort.Foundation.ThreadpoolTimer FastPort.Foundation.Transition

variable {ok : World → Label → Prop} {w : World} {id : TimerId}

/-- What a frame knows of the thread-local `g_pCurrentCallbackEntry`. -/
def Frame.RunsIn (current : Option TimerId) : Frame → Prop
  | userCode c => c = current
  | scheduleImpl _ _ _ => True
  | shutdownImpl _ c _ => c = current
  | act _ (.scheduleImpl _ _ _) => True
  | act id (.cancelImpl _ own pc) =>
      (own = true → current = some id) ∧ (pc = .storeCloseAfter → own = true)
  | act _ (.runEntry _) => False

inductive Nested : Option TimerId → List Frame → Prop where
  | outside : Nested none []
  | job (id : TimerId) : Nested (some id) [.act id (.runEntry .mark)]
  | cons {current : Option TimerId} {f : Frame} {rest : List Frame} (hf : f.RunsIn current)
      (h : Nested current rest) : Nested current (f :: rest)

inductive Shaped : List Frame → Prop where
  | nested {current : Option TimerId} {stack : List Frame} (h : Nested current stack) : Shaped stack
  | callback (id : TimerId) (pc : CallbackPc) : Shaped [.act id (.runEntry pc)]

theorem Nested.append {current : Option TimerId} {fs rest : List Frame}
    (hfs : ∀ f ∈ fs, f.RunsIn current) (h : Nested current rest) : Nested current (fs ++ rest) := by
  induction fs with
  | nil => exact h
  | cons f fs ih =>
    apply Nested.cons (hfs f List.mem_cons_self)
    apply ih
    intro g hg
    exact hfs g (List.mem_cons_of_mem f hg)

theorem Nested.mem {stack : List Frame} (h : Nested (some id) stack) :
    .act id (.runEntry .mark) ∈ stack := by
  generalize hcurrent : some id = current at h
  induction h with
  | outside => cases hcurrent
  | job i =>
    cases hcurrent
    exact List.mem_singleton_self _
  | cons hf h ih => exact List.mem_cons_of_mem _ (ih hcurrent)

theorem runsIn_frame (current : Option TimerId) (call : ApiCall) :
    (call.frame current).RunsIn current := by
  cases call with
  | cancel id => exact ⟨fun h => of_decide_eq_true h, by rintro ⟨⟩⟩
  | shutdown wait => exact rfl
  | _ => trivial

theorem runsIn_exec {choice : Choice} {s : Shared} {f g : Frame} {current : Option TimerId}
    (hf : f.RunsIn current) (hg : g ∈ (f.exec choice s).2) : g.RunsIn current := by
  cases follows hg with
  | call c hcall =>
    cases hf
    exact runsIn_frame current _
  | userCode c => exact hf
  | pass => trivial
  | allocate => trivial
  | shutdown => exact hf
  | cancel wait c i ids =>
    cases hf
    exact ⟨fun h => of_decide_eq_true h, by rintro ⟨⟩⟩
  | job => exact hf.elim
  | scheduleImpl => trivial
  | cancelImpl i wait own pc pc' hown => exact ⟨hf.1, hown⟩
  | runEntry => exact hf.elim

theorem shaped_exec {choice : Choice} {s : Shared} {f : Frame} {rest : List Frame}
    (h : Shaped (f :: rest)) : Shaped ((f.exec choice s).2 ++ rest) := by
  cases h with
  | nested h =>
    cases h with
    | job i => exact .callback i .closeExchange
    | cons hf h =>
      apply Shaped.nested
      apply Nested.append ?_ h
      intro g hg
      exact runsIn_exec hf hg
  | callback i pc =>
    cases pc with
    | invoke => exact .nested (.cons rfl (.job i))
    | entryCas =>
      simp only [Frame.exec, Act.exec, runEntry]
      split
      · exact .callback i .release
      · exact .callback i .invoke
    | finish => exact .nested .outside
    | _ => exact .callback i _

theorem shaped (hw : system.Reach ok w) : ∀ stack ∈ w.threads, Shaped stack := by
  apply Program.forall_stack (p := program) (P := Shaped) ?_ ?_ hw
  · intro w tid choice f rest _ _ h
    exact shaped_exec h
  · intro w event s' fs _ _ harrived
    cases (arrived harrived).1 with
    | call call => exact .nested (.cons (runsIn_frame none call) .outside)
    | expire i => exact .nested .outside
    | startCallback i => exact .callback i .tpTimerCallback

theorem callback_below (hw : system.Reach ok w) {tid : Nat} {wait : Bool} {pc : CancelPc}
    {rest : List Frame}
    (hthread : w.threads[tid]? = some (.act id (.cancelImpl wait true pc) :: rest)) :
    .act id (.runEntry .mark) ∈ rest := by
  have hshaped := shaped hw _ (List.mem_of_getElem? hthread)
  cases hshaped with
  | nested h =>
    cases h with
    | cons hf h =>
      cases hf.1 rfl
      exact h.mem

theorem own_of_storeCloseAfter (hw : system.Reach ok w) {tid : Nat} {wait own : Bool}
    {rest : List Frame}
    (hthread : w.threads[tid]? = some (.act id (.cancelImpl wait own .storeCloseAfter) :: rest)) :
    own = true := by
  have hshaped := shaped hw _ (List.mem_of_getElem? hthread)
  cases hshaped with
  | nested h =>
    cases h with
    | cons hf h => exact hf.2 rfl

end FastPort.Commons.TimerQueue
