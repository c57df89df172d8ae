import StarterKernel.Kernel.Page
import StarterKernel.Library.RadixTree

/-!
# The hardware walk and the tree of page tables

`translation` is the four-level walk of the processor.  It resolves an address
through the page tables, which form a radix tree over physical memory whose
entries are classified by their present and page-size bits.  `translation_eq`
connects the two, so facts about the tree are facts about the hardware walk.
-/

namespace StarterKernel

open RadixTree (Slot Walk)

/-- The physical address and the effective permissions of a mapped address. -/
structure Translation where
  physical : Nat
  user : Bool
  writable : Bool
  noExecute : Bool
  deriving DecidableEq

/-- Add the permission bits of an entry above: user and writable hold only if
every level grants them, no-execute holds if any level demands it. -/
def Translation.through (entry : PtEntry) (below : Translation) : Translation :=
  { below with
    user := entry.user && below.user
    writable := entry.writable && below.writable
    noExecute := entry.noExecute || below.noExecute }

/-- The walk of the processor from the table of `level` at `table` on.  A
page-size bit at level 2 or 3 ends the walk in a large page. -/
def hardwareWalk (memory : Nat -> UInt8) (address : Nat) :
    (level table : Nat) -> Option Translation
  | 0, _ => none
  | level + 1, table =>
      let entry := PtEntry.decode
        (ByteMemory.load memory (table + 8 * indices address (level + 1)) 8)
      if !entry.present then none
      else if level = 0 || (level < 3 && entry.pageSize) then
        let size := 2 ^ (12 + 9 * level)
        some
          { physical := entry.frame / size * size + address % size
            user := entry.user
            writable := entry.writable
            noExecute := entry.noExecute }
      else
        (hardwareWalk memory address level entry.frame).map
          (Translation.through entry)

/-- The translation of an address under the level 4 table at `root`. -/
def translation (memory : Nat -> UInt8) (root address : Nat) :
    Option Translation :=
  hardwareWalk memory address 4 root

/-! ## The tree of page tables -/

/-- One of the 512 entries of the page table in the frame at `table`. -/
def entryAt (memory : Nat -> UInt8) (table index : Nat) : PtEntry :=
  if index < 512 then
    .decode (ByteMemory.load memory (table + 8 * index) 8)
  else .decode 0

/-- What an entry denotes at a depth below the level 4 table. -/
def classify (depth : Nat) (entry : PtEntry) : Slot Nat :=
  if !entry.present then .absent
  else if 3 ≤ depth || (0 < depth && entry.pageSize) then .leaf
  else .table entry.frame

/-- Resolve a path of table indices, deepest index first. -/
def treeWalk (memory : Nat -> UInt8) (root : Nat) (path : List Nat) :
    Walk Nat PtEntry :=
  RadixTree.walk classify (entryAt memory) root path

/-- The frame of the page table at a path. -/
def tableAt (memory : Nat -> UInt8) (root : Nat) (path : List Nat) : Option Nat :=
  RadixTree.tableAt classify (entryAt memory) root path

/-- Each page table is referenced once. -/
def IsTree (memory : Nat -> UInt8) (root : Nat) : Prop :=
  RadixTree.UniqueTables classify (entryAt memory) root

/-- The indices of an address in the first `depth` levels. -/
def walkPath (address : Nat) : Nat -> List Nat
  | 0 => []
  | depth + 1 => indices address (4 - depth) :: walkPath address depth

/-- The path of the page of an address. -/
abbrev pagePath (address : Nat) : List Nat := walkPath address 4

/-- A path below one of the level 4 entries 0 to 255. -/
def LowerPath (path : List Nat) : Prop := ∃ top ∈ path.getLast?, top < 256

/-- An address of the lower half: its level 4 index is below 256. -/
def LowerHalf (address : Nat) : Prop := indices address 4 < 256

instance (address : Nat) : Decidable (LowerHalf address) :=
  inferInstanceAs (Decidable (_ < _))

theorem classify_of_absent {depth : Nat} {entry : PtEntry}
    (absent : entry.present = false) :
    classify depth entry = .absent := by
  simp [classify, absent]

theorem classify_of_leaf {depth : Nat} {entry : PtEntry}
    (present : entry.present = true)
    (last : 3 ≤ depth ∨ 0 < depth ∧ entry.pageSize = true) :
    classify depth entry = .leaf := by
  rw [classify, if_neg (by simp [present]), if_pos (by simpa using last)]

theorem classify_of_table {depth : Nat} {entry : PtEntry}
    (present : entry.present = true)
    (inner : ¬(3 ≤ depth ∨ 0 < depth ∧ entry.pageSize = true)) :
    classify depth entry = .table entry.frame := by
  rw [classify, if_neg (by simp [present]), if_neg (by simpa using inner)]

/-- An entry that leads to a table is present, and the table is its frame. -/
theorem table_of_classify {depth frame : Nat} {entry : PtEntry}
    (denotes : classify depth entry = .table frame) :
    entry.present = true ∧ entry.frame = frame := by
  unfold classify at denotes
  split at denotes
  next => cases denotes
  next present =>
    split at denotes
    next => cases denotes
    next => exact ⟨by simpa using present, RadixTree.Slot.table.inj denotes⟩

theorem indices_lt (address level : Nat) : indices address (level + 1) < 512 :=
  Nat.mod_lt _ (by decide)

theorem walkPath_succ (address depth : Nat) :
    walkPath address (depth + 1) =
      indices address (4 - depth) :: walkPath address depth := rfl

@[simp] theorem walkPath_length (address depth : Nat) :
    (walkPath address depth).length = depth := by
  induction depth with
  | zero => rfl
  | succ depth inductionHypothesis => simp [walkPath, inductionHypothesis]

theorem walkPath_suffix (address : Nat) {depth deeper : Nat}
    (le : depth ≤ deeper) :
    walkPath address depth <:+ walkPath address deeper := by
  induction le with
  | refl => exact List.suffix_refl _
  | step _ inductionHypothesis =>
      exact inductionHypothesis.trans (List.suffix_cons _ _)

@[simp] theorem not_lowerPath_nil : ¬LowerPath [] := by
  simp [LowerPath]

theorem lowerPath_append (above : List Nat) {path : List Nat} (nonempty : path ≠ []) :
    LowerPath (above ++ path) ↔ LowerPath path := by
  unfold LowerPath
  rw [List.getLast?_append_of_ne_nil _ nonempty]

theorem lowerPath_singleton {index : Nat} : LowerPath [index] ↔ index < 256 := by
  simp [LowerPath]

theorem lowerPath_cons {index : Nat} {path : List Nat} (nonempty : path ≠ []) :
    LowerPath (index :: path) ↔ LowerPath path :=
  lowerPath_append [index] nonempty

theorem lowerPath_walkPath (address depth : Nat) :
    LowerPath (walkPath address (depth + 1)) ↔ LowerHalf address := by
  induction depth with
  | zero => simp [walkPath, lowerPath_singleton, LowerHalf]
  | succ depth inductionHypothesis =>
      rw [walkPath_succ, lowerPath_cons (by simp [walkPath])]
      exact inductionHypothesis

/-! ## The hardware walk resolves the tree -/

/-- The translation denoted by the walk of an address. -/
def walkTranslation (address : Nat) : Walk Nat PtEntry -> Option Translation
  | .leaf (entry :: above) =>
      let size := 2 ^ (12 + 9 * (3 - above.length))
      some
        { physical := entry.frame / size * size + address % size
          user := (entry :: above).all PtEntry.user
          writable := (entry :: above).all PtEntry.writable
          noExecute := (entry :: above).any PtEntry.noExecute }
  | _ => none

theorem treeWalk_cons (memory : Nat -> UInt8) (root index : Nat) (path : List Nat) :
    treeWalk memory root (index :: path) =
      (treeWalk memory root path).step classify path.length
        fun frame => entryAt memory frame index := rfl

theorem tableAt_of_treeWalk
    {memory : Nat -> UInt8} {root frame : Nat} {path : List Nat}
    {entries : List PtEntry}
    (reached : treeWalk memory root path = .table frame entries) :
    tableAt memory root path = some frame :=
  RadixTree.tableAt_eq_some.mpr ⟨entries, reached⟩

theorem tableAt_congr
    {memory other : Nat -> UInt8} {root : Nat} {path : List Nat}
    (same : treeWalk other root path = treeWalk memory root path) :
    tableAt other root path = tableAt memory root path :=
  congrArg Walk.table? same

theorem entryAt_indices (memory : Nat -> UInt8) (table address level : Nat) :
    entryAt memory table (indices address (level + 1)) =
      .decode (ByteMemory.load memory
        (table + 8 * indices address (level + 1)) 8) := by
  rw [entryAt, if_pos (indices_lt address level)]

theorem treeWalk_pagePath
    {memory : Nat -> UInt8} {root address depth : Nat}
    (le : depth ≤ 4)
    (ends : ∀ frame entries,
      treeWalk memory root (walkPath address depth) ≠ .table frame entries) :
    treeWalk memory root (pagePath address) =
      treeWalk memory root (walkPath address depth) := by
  obtain ⟨below, split⟩ := walkPath_suffix address le
  rw [pagePath, ← split]
  cases reached : treeWalk memory root (walkPath address depth) with
  | fault => exact RadixTree.walk_append_of_fault reached below
  | leaf entries => exact RadixTree.walk_append_of_leaf reached below
  | table frame entries => exact absurd reached (ends frame entries)

/-- Add the permission bits of all entries above. -/
def Translation.throughAll (entries : List PtEntry) (below : Translation) :
    Translation :=
  entries.foldl (fun translation entry => translation.through entry) below

theorem Translation.throughAll_eq (entries : List PtEntry) (below : Translation) :
    below.throughAll entries =
      { physical := below.physical
        user := entries.all PtEntry.user && below.user
        writable := entries.all PtEntry.writable && below.writable
        noExecute := entries.any PtEntry.noExecute || below.noExecute } := by
  unfold throughAll
  induction entries generalizing below with
  | nil => simp
  | cons entry entries inductionHypothesis =>
      rw [List.foldl_cons, inductionHypothesis]
      simp only [through, List.all_cons, List.any_cons]
      grind

private theorem hardwareWalk_eq
    {memory : Nat -> UInt8} {root address : Nat} (level : Nat) :
    ∀ (table : Nat) (entries : List PtEntry), level ≤ 4 ->
      entries.length = 4 - level ->
      treeWalk memory root (walkPath address (4 - level)) =
        .table table entries ->
      (hardwareWalk memory address level table).map
          (Translation.throughAll entries) =
        walkTranslation address (treeWalk memory root (pagePath address)) := by
  induction level with
  | zero =>
      intro table entries _ _ reached
      rw [pagePath, reached]
      rfl
  | succ level inductionHypothesis =>
      intro table entries bound count reached
      have depthEq : 4 - level = 4 - (level + 1) + 1 := by omega
      have indexEq : 4 - (4 - (level + 1)) = level + 1 := by omega
      have next : treeWalk memory root (walkPath address (4 - level)) =
          (RadixTree.Walk.table table entries).step classify (4 - (level + 1))
            fun frame => entryAt memory frame (indices address (level + 1)) := by
        rw [depthEq, walkPath_succ, treeWalk_cons, reached, walkPath_length,
          indexEq]
      simp only [RadixTree.Walk.step, entryAt_indices] at next
      rw [hardwareWalk]
      generalize PtEntry.decode (ByteMemory.load memory
        (table + 8 * indices address (level + 1)) 8) = entry at next ⊢
      cases present : entry.present with
      | false =>
          rw [classify_of_absent present] at next
          rw [treeWalk_pagePath (Nat.sub_le 4 level) (by simp [next]), next]
          simp [walkTranslation]
      | true =>
          by_cases last : level = 0 ∨ level < 3 ∧ entry.pageSize = true
          · have atLeaf : 3 ≤ 4 - (level + 1) ∨
                0 < 4 - (level + 1) ∧ entry.pageSize = true :=
              last.imp (by omega) (And.imp_left (by omega))
            have levelEq : 3 - entries.length = level := by omega
            rw [classify_of_leaf present atLeaf] at next
            rw [treeWalk_pagePath (Nat.sub_le 4 level) (by simp [next]), next,
              if_neg (by simp), if_pos (by simpa using last),
              Option.map_some, Translation.throughAll_eq, walkTranslation]
            simp [levelEq, Bool.and_comm, Bool.or_comm]
          · have notLeaf : ¬(3 ≤ 4 - (level + 1) ∨
                0 < 4 - (level + 1) ∧ entry.pageSize = true) := by
              intro atLeaf
              exact last (atLeaf.imp (by omega) (And.imp_left (by omega)))
            rw [classify_of_table present notLeaf] at next
            have deeper := inductionHypothesis entry.frame (entry :: entries)
              (by omega) (by simp only [List.length_cons]; omega) next
            rw [← deeper, if_neg (by simp), if_neg (by simpa using last),
              Option.map_map]
            rfl

/-- The hardware walk resolves the path of the page in the tree. -/
theorem translation_eq (memory : Nat -> UInt8) (root address : Nat) :
    translation memory root address =
      walkTranslation address (treeWalk memory root (pagePath address)) := by
  have whole : (hardwareWalk memory address 4 root).map
      (Translation.throughAll []) =
        walkTranslation address (treeWalk memory root (pagePath address)) :=
    hardwareWalk_eq 4 root [] (le_refl 4) rfl rfl
  have unchanged : Translation.throughAll [] = id := rfl
  rw [← whole, translation, unchanged, Option.map_id, id]

end StarterKernel
