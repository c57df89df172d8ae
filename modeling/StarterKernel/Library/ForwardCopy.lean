import Mathlib.Logic.Function.Basic
import Mathlib.Data.Set.Defs

/-!
# Copying one cell after the other

Cells are copied in increasing order.  The copy is right when the source does not
begin before a destination that it overlaps.
-/

namespace ForwardCopy

variable {α : Type} {memory : Nat -> α} {dest src count position : Nat}

/-- Copy `count` cells from `src` on to the cells from `dest` on. -/
def copy (memory : Nat -> α) (dest src : Nat) : (count : Nat) -> Nat -> α
  | 0 => memory
  | count + 1 =>
      copy (Function.update memory dest (memory src)) (dest + 1) (src + 1) count

theorem copy_zero : copy memory dest src 0 = memory := rfl

theorem copy_succ :
    copy memory dest src (count + 1) =
      copy (Function.update memory dest (memory src)) (dest + 1) (src + 1) count := rfl

attribute [irreducible] copy

theorem copy_outside (outside : position < dest ∨ dest + count ≤ position) :
    copy memory dest src count position = memory position := by
  induction count generalizing memory dest src with
  | zero => rw [copy_zero]
  | succ count inductionHypothesis =>
      rw [copy_succ, inductionHypothesis (by omega),
        Function.update_of_ne (show position ≠ dest by omega)]

theorem copy_inside
    (apart : dest ≤ src ∨ src + count ≤ dest)
    (above : dest ≤ position) (below : position < dest + count) :
    copy memory dest src count position = memory (src + (position - dest)) := by
  induction count generalizing memory dest src with
  | zero => omega
  | succ count inductionHypothesis =>
      rw [copy_succ]
      by_cases first : position = dest
      · subst first
        rw [copy_outside (by omega), Function.update_self, Nat.sub_self, Nat.add_zero]
      · rw [inductionHypothesis (by omega) (by omega) (by omega),
          Function.update_of_ne (by omega)]
        congr 1
        omega

/-- On cells that contain the source a copy depends on these cells only. -/
theorem copy_congr {other : Nat -> α} {cells : Set Nat}
    (agree : ∀ cell ∈ cells, other cell = memory cell)
    (inside : ∀ offset < count, src + offset ∈ cells) (here : position ∈ cells) :
    copy other dest src count position = copy memory dest src count position := by
  induction count generalizing memory other dest src with
  | zero => rw [copy_zero, copy_zero, agree position here]
  | succ count inductionHypothesis =>
      rw [copy_succ, copy_succ]
      have source : src ∈ cells := inside 0 (Nat.succ_pos _)
      refine inductionHypothesis (fun cell member => ?_) fun offset small => ?_
      · rw [agree src source]
        by_cases written : cell = dest
        · rw [written, Function.update_self, Function.update_self]
        · rw [Function.update_of_ne written, Function.update_of_ne written,
            agree cell member]
      · rw [Nat.add_assoc, Nat.add_comm 1 offset]
        exact inside (offset + 1) (by omega)

end ForwardCopy
