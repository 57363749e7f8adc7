import FastPort.Foundation.Rest

/-! Programs whose steps are known by what they can do. The rules take a step, or an event
that comes in, as one case of that description each. -/
namespace FastPort.Foundation.StepRules

open FastPort.Foundation.Pool FastPort.Foundation.Stack FastPort.Foundation.Tally
open FastPort.Foundation.Transition

variable {Shared Frame Choice Event : Type}

structure Known (p : Program Shared Frame Choice Event)
    (Steps : Choice → Shared → Frame → Shared → List Frame → Prop)
    (Arrived : Shared → Event → Shared → List Frame → Prop) : Prop where
  exec : ∀ choice s f, Steps choice s f (p.exec choice s f).1 (p.exec choice s f).2
  arrive : ∀ {event s s' fs}, p.arrive event s = some (s', fs) → Arrived s event s' fs

namespace Known

variable {p : Program Shared Frame Choice Event}
variable {Steps : Choice → Shared → Frame → Shared → List Frame → Prop}
variable {Arrived : Shared → Event → Shared → List Frame → Prop} (k : Known p Steps Arrived)
variable {ok : Stacks Shared Frame → Move Choice Event → Prop} {w : Stacks Shared Frame}

include k

theorem holds {I : Shared → Prop} (hinit : ∀ s, p.start s → I s)
    (hsteps : ∀ choice s f s' fs, Steps choice s f s' fs → I s → I s')
    (harrived : ∀ s event s' fs, Arrived s event s' fs → I s → I s')
    (hw : p.system.Reach ok w) : I w.shared := by
  apply Program.invariant_shared hinit ?_ ?_ hw
  · intro choice s f
    exact hsteps choice s f _ _ (k.exec choice s f)
  · intro event s s' fs ih harrive
    exact harrived s event s' fs (k.arrive harrive) ih

theorem flag (held : Shared → Bool) (weight : Frame → Nat)
    (hinit : ∀ s, p.start s → held s = false)
    (hsteps : ∀ choice s f s' fs, Steps choice s f s' fs → (0 < weight f → held s = true) →
      tally weight fs + (held s).toNat = (held s').toNat + weight f)
    (harrived : ∀ s event s' fs, Arrived s event s' fs →
      tally weight fs + (held s).toNat = (held s').toNat)
    (hw : p.system.Reach ok w) : w.weigh weight = (held w.shared).toNat := by
  apply Program.flag held weight hinit ?_ ?_ hw
  · intro choice s f
    exact hsteps choice s f _ _ (k.exec choice s f)
  · intro event s s' fs harrive
    exact harrived s event s' fs (k.arrive harrive)

theorem focus (weight : Frame → Nat) {J : Shared → Nat → Prop}
    (hinit : ∀ s, p.start s → J s 0)
    (hsteps : ∀ choice s f s' fs others, Steps choice s f s' fs → J s (weight f + others) →
      J s' (tally weight fs + others))
    (harrived : ∀ s event s' fs n, Arrived s event s' fs → J s n → J s' (tally weight fs + n))
    (hw : p.system.Reach ok w) : J w.shared (w.weigh weight) := by
  apply Program.focus id weight (J := J) hinit ?_ ?_ hw
  · intro w tid choice f rest others _ _ _ _
    exact hsteps choice w.shared f _ _ others (k.exec choice w.shared f)
  · intro w event s' fs _ _ harrive
    exact harrived w.shared event s' fs _ (k.arrive harrive)

theorem total (value : Shared → Nat) (weight : Frame → Nat)
    (hinit : ∀ s, p.start s → value s = 0)
    (hsteps : ∀ choice s f s' fs, Steps choice s f s' fs → weight f ≤ value s →
      tally weight fs + value s = value s' + weight f)
    (harrived : ∀ s event s' fs, Arrived s event s' fs →
      tally weight fs + value s = value s')
    (hw : p.system.Reach ok w) : w.weigh weight = value w.shared := by
  apply k.focus weight (J := fun s n => n = value s) ?_ ?_ ?_ hw
  · intro s hs
    exact (hinit s hs).symm
  · intro choice s f s' fs others h ih
    have hstep := hsteps choice s f s' fs h (by omega)
    omega
  · intro s event s' fs n h ih
    have hstep := harrived s event s' fs h
    omega

theorem balance (paid due : Shared → Nat) (weight : Frame → Nat)
    (hinit : ∀ s, p.start s → paid s = due s)
    (hsteps : ∀ choice s f s' fs, Steps choice s f s' fs →
      paid s' + tally weight fs + due s = due s' + (paid s + weight f))
    (harrived : ∀ s event s' fs, Arrived s event s' fs →
      paid s' + tally weight fs + due s = due s' + paid s)
    (hw : p.system.Reach ok w) : paid w.shared + w.weigh weight = due w.shared := by
  apply Program.balance paid due weight hinit ?_ ?_ hw
  · intro choice s f
    exact hsteps choice s f _ _ (k.exec choice s f)
  · intro w event s' fs _ harrive
    exact harrived w.shared event s' fs (k.arrive harrive)

theorem forall_stack {P : List Frame → Prop}
    (hsteps : ∀ choice s f s' fs rest, Steps choice s f s' fs → P (f :: rest) → P (fs ++ rest))
    (harrived : ∀ s event s' fs, Arrived s event s' fs → P fs)
    (hw : p.system.Reach ok w) : ∀ stack ∈ w.threads, P stack := by
  apply Program.forall_stack (P := P) ?_ ?_ hw
  · intro w _ choice f rest _ _
    exact hsteps choice w.shared f _ _ rest (k.exec choice w.shared f)
  · intro w event s' fs _ _ harrive
    exact harrived w.shared event s' fs (k.arrive harrive)

theorem staged {weight : Frame → Nat} {Stage : Shared → Frame → Prop} {Idle : Shared → Prop}
    (hone : ∀ {w}, p.system.Reach ok w → w.weigh weight ≤ 1)
    (hinit : ∀ s, p.start s → Idle s)
    (howner : ∀ (w : Stacks Shared Frame) choice f s' fs, p.system.Reach ok w →
      Steps choice w.shared f s' fs → 0 < weight f → Stage w.shared f →
      Stacks.Settled weight Stage Idle s' fs)
    (hother : ∀ (w : Stacks Shared Frame) (tid : Nat) choice f rest s' fs, p.system.Reach ok w →
      w.threads[tid]? = some (f :: rest) → Steps choice w.shared f s' fs → weight f = 0 →
      (∀ g, 0 < weight g → Stage w.shared g → Stage s' g) ∧
        (Idle w.shared → Stacks.Settled weight Stage Idle s' fs))
    (harrived : ∀ (w : Stacks Shared Frame) event s' fs, p.system.Reach ok w → ok w (.spawn event) →
      Arrived w.shared event s' fs →
      (0 < w.weigh weight → ∀ g, 0 < weight g → Stage w.shared g → Stage s' g) ∧
        (w.weigh weight = 0 → Idle w.shared → Stacks.Settled weight Stage Idle s' fs))
    (hw : p.system.Reach ok w) : Stacks.Staged weight Stage Idle w := by
  apply Program.token hone hinit ?_ ?_ ?_ hw
  · intro w _ choice f _ hreach _ _ hpos hstage
    exact howner w choice f _ _ hreach (k.exec choice w.shared f) hpos hstage
  · intro w tid choice f rest hreach _ hthread hzero
    exact hother w tid choice f rest _ _ hreach hthread (k.exec choice w.shared f) hzero
  · intro w event s' fs hreach hok harrive
    exact harrived w event s' fs hreach hok (k.arrive harrive)

theorem forall_frame_atRest {own : Event → Prop} {plain : Choice → Prop}
    (h : Rest.AtRest p own plain w) (choice : Choice) (hplain : plain choice) {P : Frame → Prop}
    (hstill : ∀ f s' fs, Steps choice w.shared f s' fs → s' = w.shared → fs = [f] → P f)
    (hshort : ∀ stack ∈ w.threads, stack.length ≤ 1) :
    ∀ stack ∈ w.threads, ∀ f ∈ stack, P f :=
  h.forall_frame choice hplain (fun f heq => hstill f _ _ (k.exec choice w.shared f)
    (congrArg Prod.fst heq) (congrArg Prod.snd heq)) hshort

end Known

end FastPort.Foundation.StepRules
