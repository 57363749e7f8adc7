import Mathlib.Logic.Basic

/-! Objects that answer one operation after the other, and simulations between
them. Objects in related states give the same answers to every sequence of
operations and end in related states. -/
namespace FastPort.Foundation

structure Object (State Op Reply : Type) where
  apply : State → Op → Reply × State

namespace Object

variable {S T U Op Reply : Type}

/-- The answers to a sequence of operations, and the state they leave. -/
def run (obj : Object S Op Reply) (s : S) : List Op → List Reply × S
  | [] => ([], s)
  | op :: ops =>
      let answer := obj.apply s op
      let rest := run obj answer.2 ops
      (answer.1 :: rest.1, rest.2)

structure Simulates (R : S → T → Prop) (low : Object S Op Reply) (high : Object T Op Reply) :
    Prop where
  reply : ∀ {s t}, R s t → ∀ op, (low.apply s op).1 = (high.apply t op).1
  state : ∀ {s t}, R s t → ∀ op, R (low.apply s op).2 (high.apply t op).2

namespace Simulates

variable {R : S → T → Prop} {Q : T → U → Prop}
variable {low : Object S Op Reply} {mid : Object T Op Reply} {high : Object U Op Reply}

theorem run (h : Simulates R low mid) {s : S} {t : T} (hst : R s t) (ops : List Op) :
    (low.run s ops).1 = (mid.run t ops).1 ∧ R (low.run s ops).2 (mid.run t ops).2 := by
  induction ops generalizing s t with
  | nil => exact ⟨rfl, hst⟩
  | cons op ops ih =>
    obtain ⟨hreplies, hstates⟩ := ih (h.state hst op)
    refine ⟨?_, hstates⟩
    simp only [Object.run, h.reply hst op, hreplies]

theorem trans (h : Simulates R low mid) (h' : Simulates Q mid high) :
    Simulates (fun s u => ∃ t, R s t ∧ Q t u) low high where
  reply := fun ⟨_, hR, hQ⟩ op => (h.reply hR op).trans (h'.reply hQ op)
  state := fun ⟨_, hR, hQ⟩ op => ⟨_, h.state hR op, h'.state hQ op⟩

end Simulates

end Object

end FastPort.Foundation
