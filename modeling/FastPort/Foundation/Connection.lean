import FastPort.Foundation.Feed

/-! Two machines at the ends of one connection. Each puts out a stream that only grows,
and takes its own input off what the other one has put out so far. Neither end sees more
of the other than that: whatever it reaches, it reaches beside a stream of its own. -/
namespace FastPort.Foundation.Connection

open FastPort.Foundation.Feed FastPort.Foundation.Pool FastPort.Foundation.Transition

structure Peer (Shared Thread Choice Event α : Type) where
  machine : Machine Shared Thread Choice Event
  brings : Event → List α
  puts : Shared → List α
  grows : ∀ {w l w'}, machine.step w l = some w' → puts w.shared <+: puts w'.shared

structure Ends (State₁ State₂ α : Type) where
  left : Fed State₁ α
  right : Fed State₂ α

variable {Shared₁ Thread₁ Choice₁ Event₁ Shared₂ Thread₂ Choice₂ Event₂ α : Type} [BEq α]
variable (p₁ : Peer Shared₁ Thread₁ Choice₁ Event₁ α)
variable (p₂ : Peer Shared₂ Thread₂ Choice₂ Event₂ α)

def connection : System (Ends (State Shared₁ Thread₁) (State Shared₂ Thread₂) α)
    (Move Choice₁ Event₁ ⊕ Move Choice₂ Event₂) where
  init w := (fed p₁.machine p₁.brings []).init w.left ∧ (fed p₂.machine p₂.brings []).init w.right
  step w
    | .inl l => ((fed p₁.machine p₁.brings (p₂.puts w.right.state.shared)).step w.left l).map
        fun left => ⟨left, w.right⟩
    | .inr l => ((fed p₂.machine p₂.brings (p₁.puts w.left.state.shared)).step w.right l).map
        fun right => ⟨w.left, right⟩

/-- Each end keeps to its own condition. -/
def either {State₁ State₂ Label₁ Label₂ : Type} (ok₁ : Fed State₁ α → Label₁ → Prop)
    (ok₂ : Fed State₂ α → Label₂ → Prop) (w : Ends State₁ State₂ α) : Label₁ ⊕ Label₂ → Prop
  | .inl l => ok₁ w.left l
  | .inr l => ok₂ w.right l

instance {State₁ State₂ Label₁ Label₂ : Type} {ok₁ : Fed State₁ α → Label₁ → Prop}
    {ok₂ : Fed State₂ α → Label₂ → Prop} [∀ w l, Decidable (ok₁ w l)]
    [∀ w l, Decidable (ok₂ w l)] (w : Ends State₁ State₂ α) (l : Label₁ ⊕ Label₂) :
    Decidable (either ok₁ ok₂ w l) :=
  match l with
  | .inl l => inferInstanceAs (Decidable (ok₁ w.left l))
  | .inr l => inferInstanceAs (Decidable (ok₂ w.right l))

variable {p₁ p₂} [LawfulBEq α]
variable {ok₁ : Fed (State Shared₁ Thread₁) α → Move Choice₁ Event₁ → Prop}
variable {ok₂ : Fed (State Shared₂ Thread₂) α → Move Choice₂ Event₂ → Prop}
variable {w : Ends (State Shared₁ Thread₁) (State Shared₂ Thread₂) α}

theorem reach_ends (hw : (connection p₁ p₂).Reach (either ok₁ ok₂) w) :
    (fed p₁.machine p₁.brings (p₂.puts w.right.state.shared)).Reach ok₁ w.left ∧
      (fed p₂.machine p₂.brings (p₁.puts w.left.state.shared)).Reach ok₂ w.right := by
  induction hw with
  | init hinit => exact ⟨.init hinit.1, .init hinit.2⟩
  | @step w w' l _ hok hstep ih =>
    obtain ⟨hleft, hright⟩ := ih
    cases l with
    | inl l =>
      obtain ⟨left, hmove, rfl⟩ := Option.map_eq_some_iff.mp hstep
      have hgrows := p₁.grows (Feed.step_eq_some hmove).2.2
      exact ⟨hleft.step hok hmove, reach_of_longer hgrows hright⟩
    | inr l =>
      obtain ⟨right, hmove, rfl⟩ := Option.map_eq_some_iff.mp hstep
      have hgrows := p₂.grows (Feed.step_eq_some hmove).2.2
      exact ⟨reach_of_longer hgrows hleft, hright.step hok hmove⟩

end FastPort.Foundation.Connection
