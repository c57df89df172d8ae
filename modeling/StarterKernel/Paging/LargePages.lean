import StarterKernel.Paging.VmUnmap

/-!
# Large pages on the walk

`vm_map`, `vm_unmap`, `vm_protect` and `translate` follow every present entry down to
level 1 and do not look at its page-size bit.  So they take the first frame of a large
page for a page table.
-/

namespace StarterKernel

open RadixTree (Slot Walk)

/-- The frame taken for the page table of a depth on the way to an address, and at
depth 4 for the page. -/
def takenTable (memory : Nat -> UInt8) (root address : Nat) :
    (depth : Nat) -> Option Nat
  | 0 => some root
  | depth + 1 =>
      (takenTable memory root address depth).bind fun table =>
        let entry := entryAt memory table (indices address (4 - depth))
        if entry.present then some entry.frame else none

/-- The walk of the address ends in a large page. -/
def LargePage (memory : Nat -> UInt8) (root address : Nat) : Prop :=
  ∃ depth < 4, ∃ entry links,
    treeWalk memory root (walkPath address depth) = .leaf (entry :: links)

variable {memory : Nat -> UInt8} {root address depth table frame : Nat}
variable {entry : PtEntry} {entries links : List PtEntry}

theorem takenTable_succ (present :
      (entryAt memory table (indices address (4 - depth))).present = true)
    (taken : takenTable memory root address depth = some table) :
    takenTable memory root address (depth + 1) =
      some (entryAt memory table (indices address (4 - depth))).frame := by
  rw [takenTable, taken, Option.bind_some]
  exact if_pos present

theorem takenTable_succ_some
    (taken : takenTable memory root address (depth + 1) = some frame) :
    ∃ table, takenTable memory root address depth = some table ∧
      (entryAt memory table (indices address (4 - depth))).present = true ∧
      (entryAt memory table (indices address (4 - depth))).frame = frame := by
  rw [takenTable] at taken
  obtain ⟨table, reached, below⟩ := Option.bind_eq_some_iff.mp taken
  dsimp only at below
  split at below
  next present => exact ⟨table, reached, present, Option.some.inj below⟩
  next => cases below

/-- Frames taken for tables are frames. -/
theorem isFrame_of_takenTable (rootFrame : IsFrame root)
    (taken : takenTable memory root address depth = some frame) : IsFrame frame := by
  cases depth with
  | zero =>
      obtain rfl : root = frame := Option.some.inj taken
      exact rootFrame
  | succ depth =>
      obtain ⟨table, _, _, rfl⟩ := takenTable_succ_some taken
      exact ⟨PtEntry.frame_mod _, PtEntry.frame_lt _⟩

/-- From an entry that is not present on no frame is taken for a table. -/
theorem takenTable_of_absent {deeper : Nat}
    (taken : takenTable memory root address depth = some table)
    (absent : (entryAt memory table (indices address (4 - depth))).present = false)
    (below : depth < deeper) : takenTable memory root address deeper = none := by
  induction below with
  | refl =>
      rw [takenTable, taken, Option.bind_some]
      exact if_neg (by simp [absent])
  | step _ inductionHypothesis =>
      rw [takenTable, inductionHypothesis]
      rfl

/-- A walk that does not reach the page stops at an entry that is not present. -/
theorem takenTable_stops (unreached : takenTable memory root address 4 = none) :
    ∃ depth ≤ 3, ∃ table, takenTable memory root address depth = some table ∧
      (entryAt memory table (indices address (4 - depth))).present = false := by
  by_contra goesOn
  have reached : ∀ depth ≤ 4, ∃ table,
      takenTable memory root address depth = some table := by
    intro depth bound
    induction depth with
    | zero => exact ⟨root, rfl⟩
    | succ depth inductionHypothesis =>
        obtain ⟨table, taken⟩ := inductionHypothesis (by omega)
        cases present : (entryAt memory table (indices address (4 - depth))).present with
        | false => exact absurd ⟨depth, by omega, table, taken, present⟩ goesOn
        | true => exact ⟨_, takenTable_succ present taken⟩
  obtain ⟨page, taken⟩ := reached 4 (le_refl 4)
  rw [unreached] at taken
  cases taken

/-! ## The walk of the processor -/

/-- The page tables of an address are taken for what they are. -/
theorem takenTable_of_tableAt (bound : depth ≤ 4)
    (reached : tableAt memory root (walkPath address depth) = some frame) :
    takenTable memory root address depth = some frame := by
  induction depth generalizing frame with
  | zero => exact reached
  | succ depth inductionHypothesis =>
      rw [walkPath_succ] at reached
      obtain ⟨parent, parentReached, denotes⟩ := RadixTree.tableAt_cons.mp reached
      obtain ⟨present, rfl⟩ := table_of_classify denotes
      exact takenTable_succ present (inductionHypothesis (by omega) parentReached)

/-- Without a large page the frames taken for tables are the tables. -/
theorem tableAt_of_takenTable (bound : depth ≤ 3)
    (small : ¬LargePage memory root address)
    (taken : takenTable memory root address depth = some frame) :
    tableAt memory root (walkPath address depth) = some frame := by
  induction depth generalizing frame with
  | zero => exact taken
  | succ depth inductionHypothesis =>
      obtain ⟨table, parentTaken, present, rfl⟩ := takenTable_succ_some taken
      obtain ⟨above, parent⟩ :=
        RadixTree.tableAt_eq_some.mp (inductionHypothesis (by omega) parentTaken)
      have step : treeWalk memory root (walkPath address (depth + 1)) =
          (Walk.table table above).step classify depth
            fun frame => entryAt memory frame (indices address (4 - depth)) := by
        rw [walkPath_succ, treeWalk_cons, walkPath_length]
        exact congrArg _ parent
      by_cases last : 3 ≤ depth ∨ 0 < depth ∧
          (entryAt memory table (indices address (4 - depth))).pageSize = true
      · have leaf : treeWalk memory root (walkPath address (depth + 1)) =
            .leaf (entryAt memory table (indices address (4 - depth)) :: above) := by
          rw [step, RadixTree.Walk.step, classify_of_leaf present last]
        exact absurd ⟨depth + 1, by omega, _, above, leaf⟩ small
      · have below : treeWalk memory root (walkPath address (depth + 1)) =
            .table (entryAt memory table (indices address (4 - depth))).frame
              (entryAt memory table (indices address (4 - depth)) :: above) := by
          rw [step, RadixTree.Walk.step, classify_of_table present last]
        exact tableAt_of_treeWalk below

/-- The first frame of a large page is taken for a table. -/
theorem takenTable_of_leaf (bound : depth ≤ 4)
    (leaf : treeWalk memory root (walkPath address (depth + 1)) = .leaf (entry :: links))
    (atDepth : ∀ entries, treeWalk memory root (walkPath address depth) ≠ .leaf entries) :
    ∃ table, takenTable memory root address depth = some table ∧
      entryAt memory table (indices address (4 - depth)) = entry ∧
      entry.present = true ∧ links.length = depth := by
  rw [walkPath_succ, treeWalk_cons, walkPath_length] at leaf
  cases parent : treeWalk memory root (walkPath address depth) with
  | fault =>
      rw [parent] at leaf
      cases leaf
  | leaf above => exact absurd parent (atDepth above)
  | table table above =>
      rw [parent, RadixTree.Walk.step] at leaf
      have size : above.length = depth :=
        (RadixTree.length_of_walk parent).trans (walkPath_length address depth)
      cases present : (entryAt memory table (indices address (4 - depth))).present with
      | false =>
          rw [classify_of_absent present] at leaf
          cases leaf
      | true =>
          split at leaf
          next => cases leaf
          next =>
            obtain ⟨rfl, rfl⟩ := List.cons.inj (Walk.leaf.inj leaf)
            exact ⟨table, takenTable_of_tableAt bound (tableAt_of_treeWalk parent), rfl,
              present, size⟩
          next => cases leaf

/-- The step at which a walk ends in its leaf. -/
theorem leaf_step
    (leaf : treeWalk memory root (walkPath address depth) = .leaf (entry :: links)) :
    ∃ before < depth,
      treeWalk memory root (walkPath address (before + 1)) = .leaf (entry :: links) ∧
      ∀ entries, treeWalk memory root (walkPath address before) ≠ .leaf entries := by
  induction depth with
  | zero => cases leaf
  | succ depth inductionHypothesis =>
      cases parent : treeWalk memory root (walkPath address depth) with
      | leaf above =>
          have same : treeWalk memory root (walkPath address (depth + 1)) = .leaf above :=
            RadixTree.walk_append_of_leaf parent [_]
          rw [leaf] at same
          obtain rfl := Walk.leaf.inj same
          obtain ⟨before, small, ends, first⟩ := inductionHypothesis parent
          exact ⟨before, by omega, ends, first⟩
      | fault => exact ⟨depth, by omega, leaf, by simp [parent]⟩
      | table table above => exact ⟨depth, by omega, leaf, by simp [parent]⟩

/-- The walks of the processor and of the code meet in the entry of a leaf. -/
theorem takenTable_of_pagePath_leaf
    (leaf : treeWalk memory root (pagePath address) = .leaf (entry :: links)) :
    0 < links.length ∧ links.length ≤ 3 ∧
      takenTable memory root address (links.length + 1) = some entry.frame := by
  obtain ⟨before, small, ends, first⟩ := leaf_step leaf
  obtain ⟨table, taken, isEntry, present, size⟩ :=
    takenTable_of_leaf (by omega) ends first
  rw [size]
  refine ⟨?_, by omega, ?_⟩
  · by_contra zero
    obtain rfl : before = 0 := by omega
    have atRoot : treeWalk memory root (walkPath address 0) = .table root [] := rfl
    rw [walkPath_succ, treeWalk_cons, atRoot, RadixTree.Walk.step, walkPath_length] at ends
    cases rootPresent : (entryAt memory root (indices address (4 - 0))).present with
    | false =>
        rw [classify_of_absent rootPresent] at ends
        cases ends
    | true =>
        rw [classify_of_table rootPresent (by omega)] at ends
        cases ends
  · rw [takenTable_succ (by rw [isEntry]; exact present) taken, isEntry]

/-- Where the processor finds an entry that is not present, so does the code. -/
theorem takenTable_of_fault
    (fault : treeWalk memory root (pagePath address) = .fault) :
    takenTable memory root address 4 = none := by
  have small : ¬LargePage memory root address := by
    rintro ⟨depth, bound, entry, links, leaf⟩
    have ends : ∀ table entries,
        treeWalk memory root (walkPath address depth) ≠ .table table entries := by
      simp [leaf]
    rw [treeWalk_pagePath (Nat.le_of_lt bound) ends, leaf] at fault
    cases fault
  by_contra reached
  obtain ⟨page, taken⟩ := Option.ne_none_iff_exists'.mp reached
  obtain ⟨table, parentTaken, present, _⟩ := takenTable_succ_some taken
  obtain ⟨above, parent⟩ :=
    RadixTree.tableAt_eq_some.mp (tableAt_of_takenTable (le_refl 3) small parentTaken)
  have reachedTable : treeWalk memory root (walkPath address 3) = .table table above := parent
  rw [pagePath, walkPath_succ, treeWalk_cons, reachedTable, RadixTree.Walk.step,
    walkPath_length, classify_of_leaf present (Or.inl (le_refl 3))] at fault
  cases fault

/-- The walk of a page does not end in a page table. -/
theorem pagePath_ne_table (table : Nat) (entries : List PtEntry) :
    treeWalk memory root (pagePath address) ≠ .table table entries := by
  intro reached
  obtain ⟨parent, _, denotes⟩ := RadixTree.tableAt_cons.mp (tableAt_of_treeWalk reached)
  have present := (table_of_classify denotes).1
  rw [walkPath_length, classify_of_leaf present (Or.inl (le_refl 3))] at denotes
  cases denotes

end StarterKernel
