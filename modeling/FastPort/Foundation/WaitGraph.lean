import Mathlib.Logic.Relation
import Mathlib.Order.WellFoundedSet

/-! Wait-for graphs: an edge leads from who waits to who is waited for. A set is
deadlocked when each of its members waits for one of them. Where everybody holds at most one
item and waits only for somebody who holds a later one, nobody waits for itself by way of
others, and no finite set is deadlocked. -/
namespace FastPort.Foundation.WaitGraph

open Relation

variable {Node Item : Type} {waits : Node → Node → Prop}

def Deadlocked (waits : Node → Node → Prop) (set : Set Node) : Prop :=
  set.Nonempty ∧ ∀ a ∈ set, ∃ b ∈ set, waits a b

def Acyclic (waits : Node → Node → Prop) : Prop := ∀ a, ¬ TransGen waits a a

theorem Acyclic.not_deadlocked (h : Acyclic waits) {set : Set Node} (hfinite : set.Finite) :
    ¬ Deadlocked waits set := by
  rintro ⟨hnonempty, hclosed⟩
  have : IsStrictOrder Node fun b a => TransGen waits a b :=
    { irrefl := h, trans := fun _ _ _ hba hcb => hcb.trans hba }
  have hwf : set.WellFoundedOn fun b a => TransGen waits a b := hfinite.wellFoundedOn
  obtain ⟨v, hv⟩ := hnonempty
  obtain ⟨⟨a, ha⟩, -, hmin⟩ := WellFounded.has_min hwf Set.univ ⟨⟨v, hv⟩, trivial⟩
  obtain ⟨b, hb, hedge⟩ := hclosed a ha
  exact hmin ⟨b, hb⟩ trivial (.single hedge)

theorem acyclic_of_order {before : Item → Item → Prop} [IsStrictOrder Item before]
    {held : Node → Option Item}
    (hlater : ∀ a b, waits a b → ∃ y ∈ held b, ∀ x ∈ held a, before x y) : Acyclic waits := by
  have hpath : ∀ {a b}, TransGen waits a b → ∃ y ∈ held b, ∀ x ∈ held a, before x y := by
    intro a b hpath
    induction hpath with
    | single hedge => exact hlater _ _ hedge
    | tail _ hedge ih =>
      obtain ⟨y, hy, hbefore⟩ := ih
      obtain ⟨z, hz, hnext⟩ := hlater _ _ hedge
      exact ⟨z, hz, fun x hx => Trans.trans (hbefore x hx) (hnext y hy)⟩
  intro a hcycle
  obtain ⟨x, hx, hbefore⟩ := hpath hcycle
  exact irrefl_of before x (hbefore x hx)

end FastPort.Foundation.WaitGraph
