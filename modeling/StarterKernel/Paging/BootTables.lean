import StarterKernel.Paging.Edit

/-!
# The page tables of a bootloader

The smallest tree of page tables a bootloader can hand over: a level 4 table
with one level 3 table in each half, each of which maps the first GiB of
physical memory with one large page.  The rest of memory is arbitrary.
-/

namespace StarterKernel

/-- The base of the direct map that these tables provide. -/
def bootHhdmBase : Nat := 0xffff800000000000

/-- The frame of the level 4 table. -/
def bootRoot : Nat := 0x1000

/-- The frame of the level 3 table of the direct map. -/
def bootUpperTable : Nat := 0x2000

/-- The frame of the level 3 table of the identity map. -/
def bootLowerTable : Nat := 0x3000

/-- A present entry that points to a frame. -/
def bootEntry (frame : Nat) (pageSize : Bool) : PtEntry :=
  { PtEntry.decode 0 with
    present := true
    writable := true
    pageSize := pageSize
    address := BitVec.ofNat 40 (frame >>> 12) }

/-- Memory with an empty level 4 table. -/
def bootEmpty (content : Nat -> UInt8) : Nat -> UInt8 :=
  ByteMemory.fill content bootRoot 4096 0

/-- Memory with the tables of the direct map. -/
def bootDirect (content : Nat -> UInt8) : Nat -> UInt8 :=
  writeEntry
    (installFrame (bootEmpty content) bootRoot 256 bootUpperTable
      (bootEntry bootUpperTable false))
    bootUpperTable 0 (bootEntry 0 true)

/-- Memory with all page tables. -/
def bootMemory (content : Nat -> UInt8) : Nat -> UInt8 :=
  writeEntry
    (installFrame (bootDirect content) bootRoot 0 bootLowerTable
      (bootEntry bootLowerTable false))
    bootLowerTable 0 (bootEntry 0 true)

variable {memory : Nat -> UInt8} {root frame : Nat}

/-- A level 4 table without present entries is the only table. -/
theorem tableAt_of_empty
    (empty : ∀ index, (entryAt memory root index).present = false)
    (path : List Nat) :
    tableAt memory root path = if path = [] then some root else none := by
  induction path with
  | nil => rfl
  | cons index path inductionHypothesis =>
      rw [if_neg (by simp), Option.eq_none_iff_forall_ne_some]
      intro frame reached
      obtain ⟨parent, parentReached, slot⟩ := RadixTree.tableAt_cons.mp reached
      unfold tableAt at inductionHypothesis
      rw [inductionHypothesis] at parentReached
      split at parentReached
      next =>
        obtain rfl := Option.some.inj parentReached
        rw [classify_of_absent (empty index)] at slot
        cases slot
      next => cases parentReached

theorem isTree_of_tableAt
    {tables : List Nat -> Option Nat}
    (reached : ∀ path, tableAt memory root path = tables path)
    (unique : ∀ left right frame,
      tables left = some frame -> tables right = some frame -> left = right) :
    IsTree memory root := by
  intro left right frame leftReached rightReached
  exact unique left right frame ((reached left).symm.trans leftReached)
    ((reached right).symm.trans rightReached)

theorem isFrame_bootRoot : IsFrame bootRoot := ⟨by decide, by decide⟩

theorem isFrame_bootUpperTable : IsFrame bootUpperTable := ⟨by decide, by decide⟩

theorem isFrame_bootLowerTable : IsFrame bootLowerTable := ⟨by decide, by decide⟩

theorem bootEntry_frame (isFrame : IsFrame frame) (pageSize : Bool) :
    (bootEntry frame pageSize).frame = frame :=
  PtEntry.frame_of_address rfl isFrame.aligned isFrame.bound

theorem classify_bootEntry_table (isFrame : IsFrame frame) :
    classify 0 (bootEntry frame false) = .table frame := by
  rw [classify_of_table rfl (by simp), bootEntry_frame isFrame]

theorem classify_bootEntry_leaf : classify 1 (bootEntry 0 true) = .leaf :=
  classify_of_leaf rfl (Or.inr ⟨by decide, rfl⟩)

/-- Adding a level 3 table that maps the first GiB with one large page. -/
theorem tableAt_addTable
    {tables : List Nat -> Option Nat} {index fresh : Nat}
    (rootFrame : IsFrame root) (tree : IsTree memory root)
    (reached : ∀ path, tableAt memory root path = tables path)
    (inTable : index < 512)
    (vacant : (entryAt memory root index).present = false)
    (freshFrame : IsFrame fresh) (isFresh : ∀ above, tables above ≠ some fresh) :
    IsTree
        (writeEntry (installFrame memory root index fresh (bootEntry fresh false))
          fresh 0 (bootEntry 0 true)) root ∧
      ∀ path,
        tableAt
            (writeEntry
              (installFrame memory root index fresh (bootEntry fresh false))
              fresh 0 (bootEntry 0 true)) root path =
          if path = [index] then some fresh else tables path := by
  have atRoot : treeWalk memory root [] = .table root [] := rfl
  have isNew : ∀ above, tableAt memory root above ≠ some fresh := by
    intro above
    rw [reached]
    exact isFresh above
  have denotes := classify_bootEntry_table freshFrame
  have different : fresh ≠ root := by
    rintro rfl
    exact isNew [] RadixTree.tableAt_nil
  obtain ⟨linked, -⟩ := treeWalk_installTable rootFrame tree atRoot inTable
    vacant freshFrame isNew denotes
  have linkedTree := isTree_installTable rootFrame tree atRoot inTable vacant
    freshFrame isNew denotes
  have noTable : ∀ frame entries,
      treeWalk (installFrame memory root index fresh (bootEntry fresh false)) root
        [0, index] ≠ .table frame entries := by
    have empty : (entryAt (installFrame memory root index fresh
        (bootEntry fresh false)) fresh 0).present = false := by
      rw [entryAt_installFrame_fresh rootFrame inTable freshFrame different]
      exact decode_zero_present
    rw [treeWalk_of_absent linked empty]
    simp
  have sameTables := tableAt_writeLeaf rootFrame linkedTree linked (by decide)
    classify_bootEntry_leaf noTable
  refine ⟨isTree_congr linkedTree sameTables, ?_⟩
  intro path
  rw [sameTables, tableAt_installTable rootFrame tree atRoot inTable vacant
    freshFrame isNew denotes, reached]

theorem tableAt_bootEmpty (content : Nat -> UInt8) (path : List Nat) :
    tableAt (bootEmpty content) bootRoot path =
      if path = [] then some bootRoot else none := by
  apply tableAt_of_empty
  intro index
  rw [bootEmpty, entryAt_fill_self]
  exact decode_zero_present

theorem isTree_bootEmpty (content : Nat -> UInt8) :
    IsTree (bootEmpty content) bootRoot := by
  apply isTree_of_tableAt (tableAt_bootEmpty content)
  intro left right frame leftReached rightReached
  split at leftReached <;> split at rightReached
  next leftNil rightNil => rw [leftNil, rightNil]
  all_goals simp_all

theorem bootDirect_tree (content : Nat -> UInt8) :
    IsTree (bootDirect content) bootRoot ∧
      ∀ path, tableAt (bootDirect content) bootRoot path =
        if path = [256] then some bootUpperTable
        else if path = [] then some bootRoot
        else none := by
  apply tableAt_addTable isFrame_bootRoot (isTree_bootEmpty content)
    (tableAt_bootEmpty content) (by decide) ?_ isFrame_bootUpperTable
  · intro above
    split
    · decide
    · simp
  · rw [bootEmpty, entryAt_fill_self]
    exact decode_zero_present

theorem entryAt_bootDirect_root (content : Nat -> UInt8) (index : Nat) :
    entryAt (bootDirect content) bootRoot index =
      if index = 256 then bootEntry bootUpperTable false else .decode 0 := by
  rw [bootDirect, entryAt_writeEntry isFrame_bootUpperTable (by decide)
      isFrame_bootRoot, if_neg fun same => absurd same.1 (by decide),
    entryAt_installFrame isFrame_bootRoot (by decide) isFrame_bootUpperTable
      isFrame_bootRoot (by decide), bootEmpty, entryAt_fill_self]
  simp

/-- The tables of a bootloader's tree. -/
theorem bootMemory_tree (content : Nat -> UInt8) :
    IsTree (bootMemory content) bootRoot ∧
      ∀ path, tableAt (bootMemory content) bootRoot path =
        if path = [0] then some bootLowerTable
        else if path = [256] then some bootUpperTable
        else if path = [] then some bootRoot
        else none := by
  obtain ⟨tree, reached⟩ := bootDirect_tree content
  apply tableAt_addTable isFrame_bootRoot tree reached (by decide) ?_
    isFrame_bootLowerTable
  · intro above
    split
    · decide
    · split
      · decide
      · simp
  · rw [entryAt_bootDirect_root, if_neg (by decide)]
    exact decode_zero_present

theorem isTree_bootMemory (content : Nat -> UInt8) :
    IsTree (bootMemory content) bootRoot :=
  (bootMemory_tree content).1

/-- The frame of every table is one of the three. -/
theorem mem_of_tableAt_bootMemory {content : Nat -> UInt8} {path : List Nat}
    (reached : tableAt (bootMemory content) bootRoot path = some frame) :
    frame = bootLowerTable ∧ path = [0] ∨
      frame = bootUpperTable ∧ path = [256] ∨
      frame = bootRoot ∧ path = [] := by
  rw [(bootMemory_tree content).2] at reached
  split at reached
  · exact Or.inl ⟨(Option.some.inj reached).symm, ‹_›⟩
  · split at reached
    · exact Or.inr (Or.inl ⟨(Option.some.inj reached).symm, ‹_›⟩)
    · split at reached
      · exact Or.inr (Or.inr ⟨(Option.some.inj reached).symm, ‹_›⟩)
      · cases reached

/-- Outside the three tables memory is as it was. -/
theorem bootMemory_outside {content : Nat -> UInt8} {position : Nat}
    (outside : position < 0x1000 ∨ 0x4000 ≤ position) :
    bootMemory content position = content position := by
  unfold bootMemory bootDirect bootEmpty bootRoot bootUpperTable bootLowerTable
  rw [writeEntry_outside (by omega), installFrame_outside (by omega) (by omega),
    writeEntry_outside (by omega), installFrame_outside (by omega) (by omega),
    ByteMemory.fill_outside (by omega)]

theorem entryAt_bootMemory_root (content : Nat -> UInt8) :
    entryAt (bootMemory content) bootRoot 256 = bootEntry bootUpperTable false := by
  rw [bootMemory, entryAt_writeEntry isFrame_bootLowerTable (by decide)
      isFrame_bootRoot, if_neg (by decide),
    entryAt_installFrame isFrame_bootRoot (by decide) isFrame_bootLowerTable
      isFrame_bootRoot (by decide), if_neg (by decide), entryAt_bootDirect_root,
    if_pos rfl]

theorem entryAt_bootMemory_upper (content : Nat -> UInt8) :
    entryAt (bootMemory content) bootUpperTable 0 = bootEntry 0 true := by
  rw [bootMemory, entryAt_writeEntry isFrame_bootLowerTable (by decide)
      isFrame_bootUpperTable, if_neg (by decide),
    entryAt_installFrame isFrame_bootRoot (by decide) isFrame_bootLowerTable
      isFrame_bootUpperTable (by decide), if_neg (by decide), bootDirect,
    entryAt_writeEntry isFrame_bootUpperTable (by decide) isFrame_bootUpperTable,
    if_pos ⟨rfl, rfl⟩]

/-- The direct map is one large page. -/
theorem treeWalk_bootMemory_upper (content : Nat -> UInt8) :
    treeWalk (bootMemory content) bootRoot [256] =
        .table bootUpperTable [bootEntry bootUpperTable false] ∧
      treeWalk (bootMemory content) bootRoot [0, 256] =
        .leaf [bootEntry 0 true, bootEntry bootUpperTable false] := by
  have top : treeWalk (bootMemory content) bootRoot [256] =
      .table bootUpperTable [bootEntry bootUpperTable false] := by
    have atRoot : treeWalk (bootMemory content) bootRoot [] = .table bootRoot [] := rfl
    rw [treeWalk_cons, atRoot, RadixTree.Walk.step, entryAt_bootMemory_root]
    rfl
  refine ⟨top, ?_⟩
  rw [treeWalk_cons, top, RadixTree.Walk.step, entryAt_bootMemory_upper]
  rfl

/-- The machine that a bootloader hands over with these page tables, before the
kernel has set up its globals. -/
def bootMachine (content : Nat -> UInt8) : Machine where
  memory := bootMemory content
  cr3 := bootRoot
  writeProtect := true
  hhdmBase := 0
  freelist := 0
  freePageCounter := 0
  terminal := []
  ring := .initial
  callerAccesses := []

end StarterKernel
