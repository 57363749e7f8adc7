import FastPort.Foundation.WaitGraph
import FastPort.Commons.TimerCancel

/-! Who waits for whom. A thread that executes a callback of one timer and cancels another
one waits for the threads that execute callbacks of that one. The code looks only at the
callback of the thread itself; that the others do not wait for it in turn is up to the jobs:
they do not if all of them cancel in one order. -/
namespace FastPort.Commons.TimerQueue

open FastPort.Foundation.Pool FastPort.Foundation.Stack FastPort.Foundation.Tally
open FastPort.Foundation.ThreadpoolTimer FastPort.Foundation.Transition
open FastPort.Foundation.WaitGraph

variable {ok : World → Label → Prop} {w : World} {id : TimerId}

def Frame.awaits : Frame → Option TimerId
  | act id (.cancelImpl _ _ .wait) => some id
  | _ => none

def Frame.executes : Frame → Option TimerId
  | act id (.runEntry _) => some id
  | _ => none

def stackAwaits (stack : List Frame) : Option TimerId := stack.head?.bind Frame.awaits

def stackExecutes (stack : List Frame) : Option TimerId := stack.getLast?.bind Frame.executes

def waitsOn (w : World) (tid : Nat) : Option TimerId := w.threads[tid]?.bind stackAwaits

def callbackOf (w : World) (tid : Nat) : Option TimerId := w.threads[tid]?.bind stackExecutes

/-- One thread is in `WaitForThreadpoolTimerCallbacks` on a timer a callback of which the
other one is executing. -/
def Blocks (w : World) (tid other : Nat) : Prop :=
  ∃ id, waitsOn w tid = some id ∧ callbackOf w other = some id

/-- Callback threads that are all blocked on one another. -/
def CallbackDeadlock (w : World) (threads : Set Nat) : Prop :=
  Deadlocked (Blocks w) threads ∧ ∀ tid ∈ threads, (callbackOf w tid).isSome

/-- On behalf of which callback a step asks for cancellations, and of which timers: `Cancel`
names one, and `Shutdown` takes all that it finds in the map. -/
def Frame.asks (choice : Choice) (s : Shared) : Frame → Option TimerId × List TimerId
  | userCode current =>
      (current, match choice.call with
        | some (.cancel id) => [id]
        | _ => [])
  | shutdownImpl _ current .snapshot => (current, s.entries choice.order)
  | _ => (none, [])

variable (before : TimerId → TimerId → Prop)

def Allowed (current : Option TimerId) (id : TimerId) : Prop :=
  ∀ x ∈ current, id = x ∨ before x id

/-- The jobs cancel in the order `before`. -/
def CancelsInOrder (w : World) : Label → Prop
  | .run tid choice => ∀ f ∈ w.runs (.run tid choice : Label),
      ∀ id ∈ (f.asks choice w.shared).2, Allowed before (f.asks choice w.shared).1 id
  | .spawn _ => True

instance [DecidableRel before] (w : World) (l : Label) : Decidable (CancelsInOrder before w l) :=
  match l with
  | .run _ _ => inferInstanceAs (Decidable (∀ _ ∈ (_ : Option _), ∀ _ ∈ (_ : List _),
      ∀ _ ∈ (_ : Option _), _))
  | .spawn _ => .isTrue trivial

/-- What the order leads to, with what the code itself sees to: a cancellation that is to
wait is not one of the timer whose callback runs it. -/
def Frame.InOrder (current : Option TimerId) : Frame → Prop
  | userCode c => c = current
  | scheduleImpl _ _ _ => True
  | shutdownImpl _ c pc => c = current ∧ ∀ ids, pc = .cancel ids → ∀ id ∈ ids,
      Allowed before current id
  | act _ (.scheduleImpl _ _ _) => True
  | act id (.cancelImpl _ own pc) =>
      (own = false → ∀ x ∈ current, before x id) ∧ (pc = .withdraw ∨ pc = .wait → own = false)
  | act id (.runEntry _) => current = some id

variable {before}

section Step

variable {choice : Choice} {s : Shared} {f g : Frame}

theorem mem_exec_cancelImpl {wait own : Bool} {pc : CancelPc}
    (hg : g ∈ ((Frame.act id (.cancelImpl wait own pc)).exec choice s).2) :
    ∃ pc', g = .act id (.cancelImpl wait own pc') ∧
      (pc' = .withdraw ∨ pc' = .wait → own = false ∨ pc = .withdraw ∨ pc = .wait) := by
  obtain ⟨next, hnext, rfl⟩ := List.mem_map.mp (show g ∈ List.map (Frame.act id) _ from hg)
  have hstep := stepped_cancelImpl id wait own (s.timers id) pc
  rw [show (cancelImpl id wait own (s.timers id) pc).2 = some next from
    Option.mem_toList.mp hnext] at hstep
  generalize (cancelImpl id wait own (s.timers id) pc).1 = t' at hstep
  cases hstep with
  | disarm => exact ⟨_, rfl, fun _ => .inl rfl⟩
  | withdraw => exact ⟨_, rfl, fun _ => .inr (.inl rfl)⟩
  | waiting => exact ⟨_, rfl, fun _ => .inr (.inr rfl)⟩
  | _ => exact ⟨_, rfl, by rintro (⟨⟨⟩⟩ | ⟨⟨⟩⟩)⟩

theorem mem_exec_shutdownImpl {wait : Bool} {current : Option TimerId} {pc : ShutdownPc}
    {ids : List TimerId} (hg : .shutdownImpl wait current (.cancel ids) ∈
      ((Frame.shutdownImpl wait current pc).exec choice s).2) :
    pc = .snapshot ∧ ids = s.entries choice.order ∨ ∃ id, pc = .cancel (id :: ids) := by
  cases pc with
  | cas =>
    simp only [Frame.exec, shutdownImpl] at hg
    split at hg <;> simp at hg
  | snapshot =>
    simp only [Frame.exec, shutdownImpl, List.mem_singleton, Frame.shutdownImpl.injEq,
      ShutdownPc.cancel.injEq, true_and] at hg
    exact .inl ⟨rfl, hg⟩
  | cancel all =>
    cases all with
    | nil => simp [Frame.exec, shutdownImpl] at hg
    | cons id rest =>
      simp only [Frame.exec, shutdownImpl, List.mem_cons, reduceCtorEq, Frame.shutdownImpl.injEq,
        ShutdownPc.cancel.injEq, true_and, List.not_mem_nil, or_false, false_or] at hg
      exact .inr ⟨id, by rw [hg]⟩
  | dead => simp [Frame.exec, shutdownImpl] at hg

theorem executes_exec (hg : g ∈ (f.exec choice s).2) (hexecutes : g.executes = some id) :
    f.executes = some id := by
  cases follows hg with
  | call current hcall =>
    rename_i call
    cases call <;> cases hexecutes
  | runEntry i pc pc' => exact hexecutes
  | _ => cases hexecutes

theorem inOrder_cancel {wait : Bool} {current : Option TimerId}
    (hallowed : Allowed before current id) :
    (Frame.act id (.cancelImpl wait (isCurrentCallbackEntry current id) .checkId)).InOrder before
      current := by
  refine ⟨fun hother x hx => ?_, by rintro (⟨⟨⟩⟩ | ⟨⟨⟩⟩)⟩
  rcases hallowed x hx with rfl | hbefore
  · exact absurd hx (of_decide_eq_false hother)
  · exact hbefore

theorem inOrder_frame {current : Option TimerId} {call : ApiCall}
    (hallowed : ∀ id, call = .cancel id → Allowed before current id) :
    (call.frame current).InOrder before current := by
  cases call with
  | cancel i => exact inOrder_cancel (hallowed i rfl)
  | shutdown wait => exact ⟨rfl, by rintro ids ⟨⟩⟩
  | _ => trivial

/-- One step of a frame: what it asks for is allowed, and the rest the code sees to. -/
theorem inOrder_exec {current : Option TimerId} (hf : f.InOrder before current)
    (hasks : ∀ id ∈ (f.asks choice s).2, Allowed before (f.asks choice s).1 id)
    (hg : g ∈ (f.exec choice s).2) : g.InOrder before current := by
  cases follows hg with
  | @call call c hcall =>
    cases hf
    apply inOrder_frame
    rintro i rfl
    exact hasks i (by simp [Frame.asks, hcall])
  | userCode c => exact hf
  | shutdown wait c pc pc' =>
    obtain ⟨rfl, hids⟩ := hf
    refine ⟨rfl, ?_⟩
    rintro ids rfl i hi
    rcases mem_exec_shutdownImpl hg with ⟨rfl, rfl⟩ | ⟨first, rfl⟩
    · exact hasks i hi
    · exact hids _ rfl i (List.mem_cons_of_mem first hi)
  | cancel wait c i ids =>
    obtain ⟨rfl, hids⟩ := hf
    exact inOrder_cancel (hids _ rfl i List.mem_cons_self)
  | job i => exact hf.symm
  | cancelImpl i wait own pc pc' hown =>
    obtain ⟨pc'', heq, hwait⟩ := mem_exec_cancelImpl hg
    cases heq
    exact ⟨hf.1, fun hnext => (hwait hnext).elim (fun hother => hother) hf.2⟩
  | runEntry i pc pc' => exact hf
  | _ => trivial

theorem stackExecutes_append (fs : List Frame) (g : Frame) (rest : List Frame) :
    stackExecutes (fs ++ g :: rest) = stackExecutes (g :: rest) := by
  rw [stackExecutes, stackExecutes, List.getLast?_append, List.getLast?_cons, Option.some_or]

theorem stackExecutes_exec (choice : Choice) (s : Shared) (f : Frame) (rest : List Frame) :
    (f.exec choice s).2 ++ rest = [] ∨
      stackExecutes ((f.exec choice s).2 ++ rest) = stackExecutes (f :: rest) := by
  cases rest with
  | cons g rest =>
    refine .inr ?_
    rw [stackExecutes_append]
    exact (stackExecutes_append [f] g rest).symm
  | nil =>
    rw [List.append_nil]
    change _ ∨ _ = f.executes
    cases hexecutes : f.executes with
    | none =>
      refine .inr (Option.eq_none_iff_forall_ne_some.mpr fun i hi => ?_)
      obtain ⟨bottom, hlast, hbottom⟩ := Option.bind_eq_some_iff.mp hi
      rw [executes_exec (List.mem_of_getLast? hlast) hbottom] at hexecutes
      cases hexecutes
    | some i =>
      unfold Frame.executes at hexecutes
      split at hexecutes
      · rename_i pc
        cases hexecutes
        cases pc with
        | finish => exact .inl rfl
        | entryCas =>
          simp only [Frame.exec, Act.exec, runEntry]
          split <;> exact .inr rfl
        | _ => exact .inr rfl
      · cases hexecutes

end Step

theorem inOrder (hw : system.Reach (CancelsInOrder before) w) :
    ∀ stack ∈ w.threads, ∀ f ∈ stack, f.InOrder before (stackExecutes stack) := by
  apply Program.invariant (p := program) (I := fun w => ∀ stack ∈ w.threads, ∀ f ∈ stack,
    f.InOrder before (stackExecutes stack)) ?_ ?_ ?_ hw
  · intro s _ stack hstack
    cases hstack
  · intro w tid choice f rest _ ih hok hthread
    apply forall_mem_set ih
    intro g hg
    have hstack := ih _ (List.mem_of_getElem? hthread)
    rcases stackExecutes_exec choice w.shared f rest with hdone | hsame
    · rw [show (program.exec choice w.shared f).2 ++ rest = [] from hdone] at hg
      cases hg
    · change g.InOrder before (stackExecutes ((f.exec choice w.shared).2 ++ rest))
      rw [hsame]
      rcases List.mem_append.mp hg with hnew | hold
      · exact inOrder_exec (hstack f List.mem_cons_self) (hok f (Stacks.runs_eq hthread)) hnew
      · exact hstack g (List.mem_cons_of_mem f hold)
  · intro w event s' fs _ ih _ harrived
    apply forall_mem_append_singleton ih
    intro g hg
    cases (arrived harrived).1 with
    | call call =>
      rw [List.mem_singleton.mp hg]
      have hnone : stackExecutes [call.frame none] = none := by cases call <;> rfl
      rw [hnone]
      exact inOrder_frame fun i _ x hx => by cases hx
    | expire i => cases hg
    | startCallback i =>
      rw [List.mem_singleton.mp hg]
      exact rfl

theorem acyclic (hw : system.Reach (CancelsInOrder before) w) [IsStrictOrder TimerId before] :
    Acyclic (Blocks w) := by
  have hlater : ∀ a b, Blocks w a b →
      ∃ id ∈ callbackOf w b, ∀ x ∈ callbackOf w a, before x id := by
    rintro a b ⟨id, hwaits, hcallback⟩
    refine ⟨id, hcallback, fun x hx => ?_⟩
    obtain ⟨stack, hstack, hawaits⟩ := Option.bind_eq_some_iff.mp hwaits
    obtain ⟨top, hhead, htop⟩ := Option.bind_eq_some_iff.mp hawaits
    have hinOrder :=
      inOrder hw stack (List.mem_of_getElem? hstack) top (List.mem_of_head? hhead)
    unfold Frame.awaits at htop
    split at htop
    · cases htop
      rw [callbackOf, hstack] at hx
      exact hinOrder.1 (hinOrder.2 (.inr rfl)) x hx
    · cases htop
  exact acyclic_of_order hlater

/-- No set of callback threads is blocked on one another. -/
theorem no_callback_deadlock (before : TimerId → TimerId → Prop) [IsStrictOrder TimerId before]
    (hw : system.Reach (CancelsInOrder before) w) (threads : Set Nat) :
    ¬ CallbackDeadlock w threads := by
  rintro ⟨hdeadlocked, hcallbacks⟩
  have hfinite : threads.Finite := by
    apply (Set.finite_lt_nat w.threads.length).subset
    intro tid htid
    obtain ⟨stack, hstack, -⟩ := Option.bind_eq_some_iff.mp
      (Option.eq_some_of_isSome (hcallbacks tid htid))
    exact (List.getElem?_eq_some_iff.mp hstack).1
  exact (acyclic hw).not_deadlocked hfinite hdeadlocked

/-- Two timers whose jobs run, and the job of the first cancels the second: it waits. -/
def cancelOther : List Label :=
  [.spawn (.call (.schedulePeriodic 10)), .spawn (.call (.schedulePeriodic 10))] ++
    List.replicate 6 (.run 0 .go) ++ List.replicate 6 (.run 1 .go) ++
    [.spawn (.expire 1), .spawn (.expire 2), .spawn (.startCallback 1),
      .spawn (.startCallback 2)] ++
    List.replicate 4 (.run 4 .go) ++ List.replicate 4 (.run 5 .go) ++
    [.run 4 ⟨true, some (.cancel 2), []⟩] ++ List.replicate 6 (.run 4 .go)

theorem no_callback_deadlock_cancelOther : ∃ w : World,
    waitsOn w 4 = some 2 ∧ callbackOf w 4 = some 1 ∧ callbackOf w 5 = some 2 ∧
      ¬ CallbackDeadlock w {4, 5} := by
  obtain ⟨w, hrun, htest⟩ := System.exists_of_runUnder system (CancelsInOrder (· < ·))
    ⟨Shared.initial, []⟩ cancelOther (fun w => decide (waitsOn w 4 = some 2 ∧
      callbackOf w 4 = some 1 ∧ callbackOf w 5 = some 2)) (by decide)
  obtain ⟨hwaits, hfirst, hsecond⟩ := of_decide_eq_true htest
  have hw : system.Reach (CancelsInOrder (· < ·)) w := .of_runUnder (.init init_initial) hrun
  exact ⟨w, hwaits, hfirst, hsecond, no_callback_deadlock (· < ·) hw {4, 5}⟩

/-- The job of the second timer cancels the first one as well. -/
theorem not_no_callback_deadlock : ∃ w : World, system.Reach System.free w ∧
    CallbackDeadlock w {4, 5} := by
  obtain ⟨w, hrun, htest⟩ := System.exists_of_runUnder system System.free ⟨Shared.initial, []⟩
    (cancelOther ++ [.run 5 ⟨true, some (.cancel 1), []⟩] ++ List.replicate 6 (.run 5 .go))
    (fun w => decide (waitsOn w 4 = some 2 ∧ waitsOn w 5 = some 1 ∧ callbackOf w 4 = some 1 ∧
      callbackOf w 5 = some 2)) (by decide)
  obtain ⟨hwaits, hwaits', hfirst, hsecond⟩ := of_decide_eq_true htest
  refine ⟨w, .of_runUnder (.init init_initial) hrun, ⟨⟨4, .inl rfl⟩, ?_⟩, ?_⟩
  · rintro tid (rfl | rfl)
    · exact ⟨5, .inr rfl, 2, hwaits, hsecond⟩
    · exact ⟨4, .inl rfl, 1, hwaits', hfirst⟩
  · rintro tid (rfl | rfl)
    · rw [hfirst]
      rfl
    · rw [hsecond]
      rfl

end FastPort.Commons.TimerQueue
