import FastPort.Foundation.Tally
import Mathlib.Data.List.Nodup
import Mathlib.Data.List.Perm.Basic

/-! Blocks of numbers that tile an initial segment: every number below the bound lies
in exactly one of them. -/
namespace FastPort.Foundation.Tiling

open FastPort.Foundation.Tally

structure Block where
  start : Nat
  length : Nat
deriving DecidableEq, Repr

def Block.cells (block : Block) : List Nat :=
  List.range' block.start block.length

def Block.Apart (left right : Block) : Prop :=
  left.start + left.length ≤ right.start ∨ right.start + right.length ≤ left.start

/-- The blocks, in whatever order, are the numbers below `n` cut into pieces. -/
def Tiles (n : Nat) (blocks : List Block) : Prop :=
  (blocks.flatMap Block.cells).Perm (List.range n)

variable {n : Nat} {blocks blocks' : List Block} {block : Block}

theorem Block.mem_cells {i : Nat} :
    i ∈ block.cells ↔ block.start ≤ i ∧ i < block.start + block.length := by
  simp [cells]

theorem Block.apart_of_disjoint {left right : Block} (hleft : 0 < left.length)
    (hright : 0 < right.length) (h : List.Disjoint left.cells right.cells) :
    left.Apart right := by
  by_contra hmeet
  unfold Apart at hmeet
  have hshared : max left.start right.start ∈ left.cells := by
    rw [mem_cells]
    omega
  have hshared' : max left.start right.start ∈ right.cells := by
    rw [mem_cells]
    omega
  exact h hshared hshared'

theorem tiles_zero : Tiles 0 [] := List.Perm.refl _

theorem Tiles.perm (h : Tiles n blocks) (hperm : blocks'.Perm blocks) : Tiles n blocks' :=
  (hperm.flatMap_right Block.cells).trans h

theorem Tiles.grow (h : Tiles n blocks) (length : Nat) :
    Tiles (n + length) (⟨n, length⟩ :: blocks) := by
  unfold Tiles
  rw [List.flatMap_cons, List.range_eq_range', ← List.range'_append_1, Nat.zero_add,
    ← List.range_eq_range']
  exact List.perm_append_comm.trans (h.append_right _)

theorem Tiles.le (h : Tiles n blocks) (hblock : block ∈ blocks) (hpos : 0 < block.length) :
    block.start + block.length ≤ n := by
  have hlast : block.start + block.length - 1 ∈ blocks.flatMap Block.cells := by
    apply List.mem_flatMap_of_mem hblock
    rw [Block.mem_cells]
    omega
  have hlt := List.mem_range.mp (h.subset hlast)
  omega

theorem Tiles.apart (h : Tiles n blocks) (hpos : ∀ block ∈ blocks, 0 < block.length) :
    blocks.Pairwise Block.Apart := by
  have hnodup := (List.nodup_flatMap.mp (h.nodup_iff.mpr List.nodup_range)).2
  apply hnodup.imp_of_mem
  intro left right hleft hright hdisjoint
  exact Block.apart_of_disjoint (hpos left hleft) (hpos right hright) hdisjoint

theorem length_flatMap_cells (blocks : List Block) :
    (blocks.flatMap Block.cells).length = tally Block.length blocks := by
  induction blocks with
  | nil => rfl
  | cons block blocks ih => simp [ih, Block.cells]

theorem Tiles.sum (h : Tiles n blocks) : tally Block.length blocks = n := by
  rw [← length_flatMap_cells, h.length_eq, List.length_range]

theorem Tiles.length_le (h : Tiles n blocks) (hpos : ∀ block ∈ blocks, 0 < block.length) :
    blocks.length ≤ n := by
  have hle : tally (fun _ => 1) blocks ≤ tally Block.length blocks := tally_le_tally hpos
  rwa [tally_one, h.sum] at hle

end FastPort.Foundation.Tiling
