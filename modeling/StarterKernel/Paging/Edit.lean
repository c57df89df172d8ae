import StarterKernel.Paging.Frames

/-!
# Editing one entry of the tree of page tables

Writing one entry of one page table changes one slot of the tree.  A zeroed
frame linked into a vacant slot becomes an empty table there, or the page that
the slot maps; rewriting a leaf changes that leaf.
-/

namespace StarterKernel

open RadixTree (Slot Walk)

/-- Zero a frame and write an entry of a table. -/
def installFrame
    (memory : Nat -> UInt8) (table index fresh : Nat) (entry : PtEntry) :
    Nat -> UInt8 :=
  ByteMemory.store (ByteMemory.fill memory fresh 4096 0) (table + 8 * index) 8
    entry.encode

/-- Write an entry of a table. -/
def writeEntry
    (memory : Nat -> UInt8) (table index : Nat) (entry : PtEntry) : Nat -> UInt8 :=
  ByteMemory.store memory (table + 8 * index) 8 entry.encode

variable {memory : Nat -> UInt8} {root table index fresh frame : Nat}
variable {path : List Nat} {entry : PtEntry} {entries : List PtEntry}

theorem writeEntry_outside
    {position : Nat}
    (outside : position < table + 8 * index ∨ table + 8 * index + 8 ≤ position) :
    writeEntry memory table index entry position = memory position :=
  ByteMemory.store_outside outside

theorem agreeOn_writeEntry
    (tableFrame : IsFrame table) (inTable : index < 512)
    (different : frame ≠ table) :
    AgreeOn memory (writeEntry memory table index entry) frame :=
  agreeOn_store_entry tableFrame inTable different

theorem entryAt_writeEntry
    (tableFrame : IsFrame table) (inTable : index < 512)
    (frameFrame : IsFrame frame) (position : Nat) :
    entryAt (writeEntry memory table index entry) frame position =
      if frame = table ∧ position = index then entry
      else entryAt memory frame position :=
  entryAt_store tableFrame inTable frameFrame entry position

theorem agreeOn_installFrame
    (tableFrame : IsFrame table) (inTable : index < 512)
    (freshFrame : IsFrame fresh)
    (notTable : frame ≠ table) (notFresh : frame ≠ fresh) :
    AgreeOn memory (installFrame memory table index fresh entry) frame :=
  (agreeOn_fill freshFrame notFresh).trans
    (agreeOn_store_entry tableFrame inTable notTable)

/-- Outside the fresh frame only the new entry changes. -/
theorem installFrame_outside
    {position : Nat}
    (outsideFresh : position < fresh ∨ fresh + 4096 ≤ position)
    (outside : position < table + 8 * index ∨ table + 8 * index + 8 ≤ position) :
    installFrame memory table index fresh entry position = memory position := by
  rw [installFrame, ByteMemory.store_outside outside,
    ByteMemory.fill_outside outsideFresh]

/-- The bytes of the fresh frame are zero. -/
theorem installFrame_fresh
    (tableFrame : IsFrame table) (inTable : index < 512)
    (freshFrame : IsFrame fresh) (different : fresh ≠ table)
    {offset : Nat} (small : offset < 4096) :
    installFrame memory table index fresh entry (fresh + offset) = 0 := by
  have inFresh := frameOf_add_of_lt freshFrame small
  rw [installFrame, agreeOn_store_entry tableFrame inTable different _ inFresh]
  exact ByteMemory.fill_inside (by omega) (by omega)

theorem entryAt_installFrame
    (tableFrame : IsFrame table) (inTable : index < 512)
    (freshFrame : IsFrame fresh) (frameFrame : IsFrame frame)
    (notFresh : frame ≠ fresh) (position : Nat) :
    entryAt (installFrame memory table index fresh entry) frame position =
      if frame = table ∧ position = index then entry
      else entryAt memory frame position := by
  rw [installFrame, entryAt_store tableFrame inTable frameFrame,
    (agreeOn_fill freshFrame notFresh).entryAt_eq frameFrame]

theorem entryAt_installFrame_fresh
    (tableFrame : IsFrame table) (inTable : index < 512)
    (freshFrame : IsFrame fresh) (different : fresh ≠ table) (position : Nat) :
    entryAt (installFrame memory table index fresh entry) fresh position =
      .decode 0 := by
  rw [installFrame, entryAt_store tableFrame inTable freshFrame,
    if_neg fun same => different same.1]
  exact entryAt_fill_self

/-! ## The changed slot -/

theorem isFrame_of_treeWalk
    (rootFrame : IsFrame root)
    (reached : treeWalk memory root path = .table table entries) :
    IsFrame table :=
  isFrame_of_tableAt rootFrame (tableAt_of_treeWalk reached)

/-- Writing one entry of a table changes one slot. -/
theorem agreeOff_writeEntry
    (entry : PtEntry) (rootFrame : IsFrame root) (tree : IsTree memory root)
    (reached : treeWalk memory root path = .table table entries)
    (inTable : index < 512) :
    RadixTree.AgreeOff classify (entryAt memory)
      (entryAt (writeEntry memory table index entry)) root (index :: path) := by
  apply RadixTree.AgreeOff.of_frame tree
    (tableAt_of_treeWalk reached)
  rintro other position ⟨above, otherReached⟩ different
  rw [entryAt_writeEntry (isFrame_of_treeWalk rootFrame reached) inTable
    (isFrame_of_tableAt rootFrame otherReached), if_neg (by tauto)]

/-- Installing a frame that is no table changes one slot. -/
theorem agreeOff_installFrame
    (entry : PtEntry) (rootFrame : IsFrame root) (tree : IsTree memory root)
    (reached : treeWalk memory root path = .table table entries)
    (inTable : index < 512) (freshFrame : IsFrame fresh)
    (isFresh : ∀ above, tableAt memory root above ≠ some fresh) :
    RadixTree.AgreeOff classify (entryAt memory)
      (entryAt (installFrame memory table index fresh entry)) root
      (index :: path) := by
  apply RadixTree.AgreeOff.of_frame tree
    (tableAt_of_treeWalk reached)
  rintro other position ⟨above, otherReached⟩ different
  have notFresh : other ≠ fresh := by
    rintro rfl
    exact isFresh above otherReached
  rw [entryAt_installFrame (isFrame_of_treeWalk rootFrame reached) inTable
    freshFrame (isFrame_of_tableAt rootFrame otherReached) notFresh,
    if_neg (by tauto)]

/-- A walk ends where its table has no present entry. -/
theorem treeWalk_of_absent
    (reached : treeWalk memory root path = .table table entries)
    (absent : (entryAt memory table index).present = false) :
    treeWalk memory root (index :: path) = .fault := by
  rw [treeWalk_cons, reached]
  simp only [RadixTree.Walk.step, classify_of_absent absent]

/-- Linking a zeroed frame into a vacant slot makes it an empty table there and
changes no other walk. -/
theorem treeWalk_installTable
    (rootFrame : IsFrame root) (tree : IsTree memory root)
    (reached : treeWalk memory root path = .table table entries)
    (inTable : index < 512)
    (vacant : (entryAt memory table index).present = false)
    (freshFrame : IsFrame fresh)
    (isFresh : ∀ above, tableAt memory root above ≠ some fresh)
    (denotes : classify path.length entry = .table fresh) :
    treeWalk (installFrame memory table index fresh entry) root (index :: path) =
        .table fresh (entry :: entries) ∧
      ∀ query, query ≠ index :: path ->
        treeWalk (installFrame memory table index fresh entry) root query =
          treeWalk memory root query := by
  have tableFrame := isFrame_of_treeWalk rootFrame reached
  have different : fresh ≠ table := by
    rintro rfl
    exact isFresh path (tableAt_of_treeWalk reached)
  have written : entryAt (installFrame memory table index fresh entry) table index =
      entry := by
    rw [entryAt_installFrame tableFrame inTable freshFrame tableFrame
      different.symm, if_pos ⟨rfl, rfl⟩]
  have linked := RadixTree.walk_link
    (agreeOff_installFrame entry rootFrame tree reached inTable freshFrame isFresh)
    reached (treeWalk_of_absent reached vacant) (by rw [written, denotes])
    (fun position => by
      rw [entryAt_installFrame_fresh tableFrame inTable freshFrame different]
      exact classify_decode_zero _)
  rw [written] at linked
  exact linked

/-- Linking a table adds it to the tables of the tree. -/
theorem tableAt_installTable
    (rootFrame : IsFrame root) (tree : IsTree memory root)
    (reached : treeWalk memory root path = .table table entries)
    (inTable : index < 512)
    (vacant : (entryAt memory table index).present = false)
    (freshFrame : IsFrame fresh)
    (isFresh : ∀ above, tableAt memory root above ≠ some fresh)
    (denotes : classify path.length entry = .table fresh) (query : List Nat) :
    tableAt (installFrame memory table index fresh entry) root query =
      if query = index :: path then some fresh else tableAt memory root query := by
  obtain ⟨slotWalk, elsewhere⟩ := treeWalk_installTable rootFrame tree reached
    inTable vacant freshFrame isFresh denotes
  exact RadixTree.tableAt_link slotWalk elsewhere query

/-- A tree stays a tree when a fresh table is linked. -/
theorem isTree_installTable
    (rootFrame : IsFrame root) (tree : IsTree memory root)
    (reached : treeWalk memory root path = .table table entries)
    (inTable : index < 512)
    (vacant : (entryAt memory table index).present = false)
    (freshFrame : IsFrame fresh)
    (isFresh : ∀ above, tableAt memory root above ≠ some fresh)
    (denotes : classify path.length entry = .table fresh) :
    IsTree (installFrame memory table index fresh entry) root :=
  RadixTree.UniqueTables.link tree isFresh
    (tableAt_installTable rootFrame tree reached inTable vacant freshFrame isFresh
      denotes)

/-- Installing a leaf in a slot that is no table makes the walk to it end there
and changes no walk that avoids the slot. -/
theorem treeWalk_installLeaf
    (rootFrame : IsFrame root) (tree : IsTree memory root)
    (reached : treeWalk memory root path = .table table entries)
    (inTable : index < 512) (freshFrame : IsFrame fresh)
    (isFresh : ∀ above, tableAt memory root above ≠ some fresh)
    (denotes : classify path.length entry = .leaf) :
    treeWalk (installFrame memory table index fresh entry) root (index :: path) =
        .leaf (entry :: entries) ∧
      ∀ query, ¬(index :: path) <:+ query ->
        treeWalk (installFrame memory table index fresh entry) root query =
          treeWalk memory root query := by
  have tableFrame := isFrame_of_treeWalk rootFrame reached
  have different : table ≠ fresh := by
    rintro rfl
    exact isFresh path (tableAt_of_treeWalk reached)
  have agree :=
    agreeOff_installFrame entry rootFrame tree reached inTable
      freshFrame isFresh
  have written : entryAt (installFrame memory table index fresh entry) table index =
      entry := by
    rw [entryAt_installFrame tableFrame inTable freshFrame tableFrame different,
      if_pos ⟨rfl, rfl⟩]
  refine ⟨?_, fun query avoids => agree.walk_eq avoids⟩
  unfold treeWalk at reached ⊢
  rw [agree.walk_slot, reached]
  simp only [RadixTree.Walk.step, written, denotes]

/-- Writing a leaf entry makes the walk to its slot end there and changes no
walk that avoids the slot. -/
theorem treeWalk_writeLeaf
    (rootFrame : IsFrame root) (tree : IsTree memory root)
    (reached : treeWalk memory root path = .table table entries)
    (inTable : index < 512) (denotes : classify path.length entry = .leaf) :
    treeWalk (writeEntry memory table index entry) root (index :: path) =
        .leaf (entry :: entries) ∧
      ∀ query, ¬(index :: path) <:+ query ->
        treeWalk (writeEntry memory table index entry) root query =
          treeWalk memory root query := by
  have tableFrame := isFrame_of_treeWalk rootFrame reached
  have agree := agreeOff_writeEntry entry rootFrame tree reached inTable
  have written : entryAt (writeEntry memory table index entry) table index =
      entry := by
    rw [entryAt_writeEntry tableFrame inTable tableFrame, if_pos ⟨rfl, rfl⟩]
  refine ⟨?_, fun query avoids => agree.walk_eq avoids⟩
  unfold treeWalk at reached ⊢
  rw [agree.walk_slot, reached]
  simp only [RadixTree.Walk.step, written, denotes]

/-- Installing a leaf where there is no table keeps the tables. -/
theorem tableAt_installLeaf
    (rootFrame : IsFrame root) (tree : IsTree memory root)
    (reached : treeWalk memory root path = .table table entries)
    (inTable : index < 512) (freshFrame : IsFrame fresh)
    (isFresh : ∀ above, tableAt memory root above ≠ some fresh)
    (denotes : classify path.length entry = .leaf)
    (noTable : ∀ frame entries,
      treeWalk memory root (index :: path) ≠ .table frame entries)
    (query : List Nat) :
    tableAt (installFrame memory table index fresh entry) root query =
      tableAt memory root query :=
  RadixTree.tableAt_of_leaf
    (agreeOff_installFrame entry rootFrame tree reached inTable freshFrame isFresh)
    noTable
    (treeWalk_installLeaf rootFrame tree reached inTable freshFrame isFresh
      denotes).1 query

/-- Writing a leaf where there is no table keeps the tables. -/
theorem tableAt_writeLeaf
    (rootFrame : IsFrame root) (tree : IsTree memory root)
    (reached : treeWalk memory root path = .table table entries)
    (inTable : index < 512) (denotes : classify path.length entry = .leaf)
    (noTable : ∀ frame entries,
      treeWalk memory root (index :: path) ≠ .table frame entries)
    (query : List Nat) :
    tableAt (writeEntry memory table index entry) root query =
      tableAt memory root query :=
  RadixTree.tableAt_of_leaf
    (agreeOff_writeEntry entry rootFrame tree reached inTable) noTable
    (treeWalk_writeLeaf rootFrame tree reached inTable denotes).1 query

/-- Memories with the same tables at the same paths are trees together. -/
theorem isTree_congr
    {other : Nat -> UInt8} (tree : IsTree memory root)
    (same : ∀ path, tableAt other root path = tableAt memory root path) :
    IsTree other root := by
  intro left right frame leftReached rightReached
  exact tree left right frame ((same left).symm.trans leftReached)
    ((same right).symm.trans rightReached)

/-- Walks through memory that agrees on all tables of the tree are the same. -/
theorem treeWalk_congr
    {other : Nat -> UInt8}
    (rootFrame : IsFrame root)
    (agree : ∀ above frame, tableAt memory root above = some frame ->
      AgreeOn memory other frame)
    (query : List Nat) :
    treeWalk other root query = treeWalk memory root query := by
  apply RadixTree.walk_congr
  intro position above frame _ reached
  exact (agree above frame reached).entryAt_eq
    (isFrame_of_tableAt rootFrame reached)

end StarterKernel
