import StarterKernel.Paging.Ownership

/-!
# Mapping a page

A round of `vm_map` descends through a present entry, or takes a frame off the
freelist and installs it in the vacant entry.  The run of the rounds maps the
page with the requested permissions or fails, and in both cases changes nothing
but the walk to the page.
-/

namespace StarterKernel

open RadixTree (Slot Walk)

/-- A vacant entry after `vm_map` has filled it. -/
def mappedEntry
    (vacant : PtEntry) (fresh : Nat) (user writable executable : Bool) : PtEntry :=
  { vacant with
    present := true
    address := BitVec.ofNat 40 (fresh >>> 12)
    noExecute := !executable
    user := user
    writable := writable }

variable {root table fresh frame level address : Nat} {pool : Set Nat}
variable {machine after : Machine} {free rest : List Nat}
variable {entry : PtEntry} {entries : List PtEntry}
variable {usable writable executable : Bool}

theorem mappedEntry_frame
    (entry : PtEntry) (usable writable executable : Bool)
    (isFrame : IsFrame fresh) :
    (mappedEntry entry fresh usable writable executable).frame = fresh :=
  PtEntry.frame_of_address rfl isFrame.aligned isFrame.bound

theorem mappedEntry_permissive : Permissive (mappedEntry entry fresh true true true) :=
  ⟨rfl, rfl, rfl⟩

namespace Machine

/-- The machine after a frame was taken off the freelist and installed in the
entry of a table. -/
def installed (machine : Machine) (table index fresh : Nat)
    (usable writable executable : Bool) : Machine :=
  { machine.popped with
    memory := installFrame machine.memory table index fresh
      (mappedEntry (entryAt machine.memory table index) fresh usable writable
        executable) }

/-- Zeroing the frame and filling the entry in two steps. -/
theorem memset_modifyEntry_eq
    (usable writable executable : Bool) {index : Nat}
    (tableFrame : IsFrame table) (inTable : index < 512)
    (freshFrame : IsFrame fresh) (different : table ≠ fresh) :
    ((machine.popped.memset (machine.popped.ptov fresh) 0 0x1000).modifyEntry
        (machine.ptov table + 8 * index) fun fields =>
          { fields with
            present := true
            address := BitVec.ofNat 40 (fresh >>> 12) }).modifyEntry
        (machine.ptov table + 8 * index) (fun fields =>
          { fields with
            noExecute := !executable
            user := usable
            writable := writable }) =
      machine.installed table index fresh usable writable executable := by
  have bound := freshFrame.bound
  have samePtov (machine : Machine) : machine.popped.ptov = machine.ptov := rfl
  let zeroed : Machine :=
    { machine.popped with memory := ByteMemory.fill machine.memory fresh 4096 0 }
  have zeroedEq : machine.popped.memset (machine.popped.ptov fresh) 0 0x1000 =
      zeroed :=
    memset_eq 0 (show fresh + 0x1000 ≤ wordSize by unfold wordSize; omega)
  have pointer : machine.ptov table = zeroed.ptov table := rfl
  have oldEntry : entryAt zeroed.memory table index =
      entryAt machine.memory table index :=
    (agreeOn_fill freshFrame different).entryAt_eq tableFrame
  rw [zeroedEq, pointer, modifyEntry_modifyEntry tableFrame inTable,
    modifyEntry_eq tableFrame inTable, oldEntry]
  rfl

/-! ## The rounds of the walk -/

section Rounds

variable (usable writable executable)

/-- At a present entry above level 1 the walk descends. -/
theorem vmMapLoop_descend
    (tableFrame : IsFrame table)
    (present :
      (entryAt machine.memory table (indices address (level + 2))).present = true) :
    machine.vmMapLoop address usable writable executable (level + 2)
        (machine.ptov table) =
      machine.vmMapLoop address usable writable executable (level + 1)
        (machine.ptov
          (entryAt machine.memory table (indices address (level + 2))).frame) := by
  have inTable := indices_lt address (level + 1)
  rw [vmMapLoop]
  dsimp only
  rw [loadEntry_eq tableFrame inTable, if_pos present, if_neg (by omega)]

/-- At a present entry of level 1 the page is mapped already. -/
theorem vmMapLoop_mapped
    (tableFrame : IsFrame table)
    (present : (entryAt machine.memory table (indices address 1)).present = true) :
    machine.vmMapLoop address usable writable executable 1 (machine.ptov table) =
      (false, machine) := by
  have inTable := indices_lt address 0
  rw [vmMapLoop]
  dsimp only
  rw [loadEntry_eq tableFrame inTable, if_pos present, if_pos rfl]

/-- At a vacant entry the walk fails when there is no frame. -/
theorem vmMapLoop_exhausted
    (tableFrame : IsFrame table) (list : machine.FreelistIs [])
    (vacant :
      (entryAt machine.memory table (indices address (level + 1))).present = false) :
    machine.vmMapLoop address usable writable executable (level + 1)
        (machine.ptov table) =
      (false, machine.kprintf "No free space, sorry :(\n") := by
  have inTable := indices_lt address level
  rw [vmMapLoop]
  dsimp only
  rw [loadEntry_eq tableFrame inTable, if_neg (by simp [vacant]),
    pmemAlloc_nil list]
  rfl

/-- Physical page 0 is taken for the lack of a frame. -/
theorem vmMapLoop_zero
    (tableFrame : IsFrame table) (list : machine.FreelistIs (0 :: rest))
    (vacant :
      (entryAt machine.memory table (indices address (level + 1))).present = false) :
    machine.vmMapLoop address usable writable executable (level + 1)
        (machine.ptov table) =
      (false, machine.popped) := by
  have inTable := indices_lt address level
  have allocated := (pmemAlloc_cons list ⟨rfl, by decide⟩).1
  rw [vmMapLoop]
  dsimp only
  rw [loadEntry_eq tableFrame inTable, if_neg (by simp [vacant]), allocated]
  rfl

/-- At a vacant entry of level 1 a page is installed. -/
theorem vmMapLoop_installPage
    (tableFrame : IsFrame table) (list : machine.FreelistIs (fresh :: rest))
    (freshFrame : IsFrame fresh) (nonzero : fresh ≠ 0) (different : table ≠ fresh)
    (vacant : (entryAt machine.memory table (indices address 1)).present = false) :
    machine.vmMapLoop address usable writable executable 1 (machine.ptov table) =
      (true, machine.installed table (indices address 1) fresh usable writable
        executable) := by
  have inTable := indices_lt address 0
  have allocated := (pmemAlloc_cons list freshFrame).1
  rw [vmMapLoop]
  dsimp only
  rw [loadEntry_eq tableFrame inTable, if_neg (by simp [vacant]), allocated]
  dsimp only
  rw [if_neg nonzero, if_pos rfl,
    memset_modifyEntry_eq usable writable executable tableFrame inTable freshFrame
      different, invalidateTlb_eq]

/-- At a vacant entry above level 1 a table is installed and the walk goes on in
it. -/
theorem vmMapLoop_installTable
    (tableFrame : IsFrame table) (list : machine.FreelistIs (fresh :: rest))
    (freshFrame : IsFrame fresh) (nonzero : fresh ≠ 0) (different : table ≠ fresh)
    (vacant :
      (entryAt machine.memory table (indices address (level + 2))).present = false) :
    machine.vmMapLoop address usable writable executable (level + 2)
        (machine.ptov table) =
      (machine.installed table (indices address (level + 2)) fresh true true
        true).vmMapLoop address usable writable executable (level + 1)
        ((machine.installed table (indices address (level + 2)) fresh true true
          true).ptov fresh) := by
  have inTable := indices_lt address (level + 1)
  have allocated := (pmemAlloc_cons list freshFrame).1
  have pointer : machine.ptov table =
      (machine.installed table (indices address (level + 2)) fresh true true
        true).ptov table := rfl
  have written : entryAt (machine.installed table (indices address (level + 2))
      fresh true true true).memory table (indices address (level + 2)) =
        mappedEntry (entryAt machine.memory table (indices address (level + 2)))
          fresh true true true := by
    unfold installed
    rw [entryAt_installFrame tableFrame inTable freshFrame tableFrame different,
      if_pos ⟨rfl, rfl⟩]
  rw [vmMapLoop]
  dsimp only
  rw [loadEntry_eq tableFrame inTable, if_neg (by simp [vacant]), allocated]
  dsimp only
  rw [if_neg nonzero, if_neg (by omega), ← Bool.not_true,
    memset_modifyEntry_eq true true true tableFrame inTable freshFrame different,
    pointer, loadEntry_eq tableFrame inTable, written,
    mappedEntry_frame _ _ _ _ freshFrame]

end Rounds

end Machine

/-! ## The run of the walk -/

/-- The page tables missing on the walk to an address among the last `level`
intermediate ones. -/
def missingTables (memory : Nat -> UInt8) (root address : Nat) : Nat -> Nat
  | 0 => 0
  | level + 1 =>
      (if tableAt memory root (walkPath address (3 - level)) = none then 1 else 0) +
        missingTables memory root address level

/-- What a run of `vm_map` may change: the walk to its page and the frames it
took, which become tables on that walk or its page.  Physical page 0 is taken but
not used. -/
structure MapFootprint
    (root address : Nat) (machine after : Machine) (taken : List Nat) : Prop where
  sameBase : after.hhdmBase = machine.hhdmBase
  sameCr3 : after.cr3 = machine.cr3
  sameWriteProtect : after.writeProtect = machine.writeProtect
  elsewhere : ∀ path, path.length = 4 -> path ≠ pagePath address ->
    treeWalk after.memory root path = treeWalk machine.memory root path
  contents : ∀ frame, frame ∉ taken ->
    (∀ depth, tableAt machine.memory root (walkPath address depth) ≠ some frame) ->
    AgreeOn machine.memory after.memory frame
  tables : ∀ path frame, tableAt machine.memory root path = some frame ->
    tableAt after.memory root path = some frame
  newTables : ∀ path frame, tableAt after.memory root path = some frame ->
    tableAt machine.memory root path = some frame ∨
      frame ∈ taken ∧ ∃ depth < 3, path = walkPath address (depth + 1)
  roles : ∀ frame ∈ taken, frame = 0 ∨ InUse after.memory root frame

/-- The page was vacant and is mapped to a zeroed frame of the freelist, with
the requested permissions. -/
structure Mapped
    (root address : Nat) (usable writable executable : Bool)
    (machine after : Machine) (taken : List Nat) (level : Nat) : Prop where
  vacant : treeWalk machine.memory root (pagePath address) = .fault
  count : taken.length = missingTables machine.memory root address level + 1
  page : ∃ entry links,
    treeWalk after.memory root (pagePath address) = .leaf (entry :: links) ∧
      (∀ link ∈ links, Permissive link) ∧
      entry.frame ∈ taken ∧
      (∀ offset < 4096, after.memory (entry.frame + offset) = 0) ∧
      entry.user = usable ∧ entry.writable = writable ∧
      entry.noExecute = !executable

/-- The page was mapped already, or the usable frames did not suffice; it is as
before. -/
structure Refused
    (root address : Nat) (machine after : Machine) (free : List Nat)
    (level : Nat) : Prop where
  same : treeWalk after.memory root (pagePath address) =
    treeWalk machine.memory root (pagePath address)
  unchanged : treeWalk machine.memory root (pagePath address) ≠ .fault ->
    after = machine
  reason : treeWalk machine.memory root (pagePath address) ≠ .fault ∨ 0 ∈ free ∨
    free.length < missingTables machine.memory root address level + 1

/-- The outcome of a run of `vm_map`: it takes frames off the front of the
freelist and keeps the ownership invariant. -/
def MapRun
    (root : Nat) (pool : Set Nat) (address : Nat)
    (usable writable executable : Bool) (machine : Machine) (free : List Nat)
    (level : Nat) (result : Bool × Machine) : Prop :=
  ∃ taken rest, free = taken ++ rest ∧ Owned root pool result.2 rest ∧
    MapFootprint root address machine result.2 taken ∧
    (result.1 = true ->
      Mapped root address usable writable executable machine result.2 taken level) ∧
    (result.1 = false -> Refused root address machine result.2 free level)

theorem missingTables_congr
    {memory other : Nat -> UInt8}
    (same : ∀ below, below < level ->
      tableAt other root (walkPath address (3 - below)) =
        tableAt memory root (walkPath address (3 - below))) :
    missingTables other root address level =
      missingTables memory root address level := by
  induction level with
  | zero => rfl
  | succ level inductionHypothesis =>
      rw [missingTables, missingTables, same level (by omega),
        inductionHypothesis fun below small => same below (by omega)]

theorem MapFootprint.refl (machine : Machine) :
    MapFootprint root address machine machine [] where
  sameBase := rfl
  sameCr3 := rfl
  sameWriteProtect := rfl
  elsewhere := fun _ _ _ => rfl
  contents := fun _ _ _ => AgreeOn.refl _ _
  tables := fun _ _ reached => reached
  newTables := fun _ _ reached => Or.inl reached
  roles := by simp

/-- Two runs one after the other, the first of which links tables. -/
theorem MapFootprint.trans
    {middle : Machine} {taken later : List Nat}
    (first : MapFootprint root address machine middle taken)
    (second : MapFootprint root address middle after later)
    (linked : ∀ frame ∈ taken, ∃ path, LowerPath path ∧
      tableAt middle.memory root path = some frame) :
    MapFootprint root address machine after (taken ++ later) where
  sameBase := second.sameBase.trans first.sameBase
  sameCr3 := second.sameCr3.trans first.sameCr3
  sameWriteProtect := second.sameWriteProtect.trans first.sameWriteProtect
  elsewhere := fun path size different =>
    (second.elsewhere path size different).trans
      (first.elsewhere path size different)
  contents := by
    intro frame absent notTable
    rw [List.mem_append, not_or] at absent
    refine (first.contents frame absent.1 notTable).trans
      (second.contents frame absent.2 ?_)
    intro depth reached
    rcases first.newTables _ frame reached with before | ⟨isTaken, _⟩
    · exact notTable depth before
    · exact absent.1 isTaken
  tables := fun path frame reached =>
    second.tables path frame (first.tables path frame reached)
  newTables := by
    intro path frame reached
    rcases second.newTables path frame reached with before | ⟨isTaken, onWalk⟩
    · exact (first.newTables path frame before).imp_right
        (And.imp_left (List.mem_append_left later))
    · exact Or.inr ⟨List.mem_append_right taken isTaken, onWalk⟩
  roles := by
    intro frame member
    rcases List.mem_append.mp member with earlier | isTaken
    · obtain ⟨path, lower, reached⟩ := linked frame earlier
      exact Or.inr (Or.inl ⟨path, lower, second.tables path frame reached⟩)
    · exact second.roles frame isTaken

/-- The slot of the walk below the table at `level`. -/
theorem walkPath_slot (address : Nat) (bound : level ≤ 3) :
    walkPath address (4 - level) =
      indices address (level + 1) :: walkPath address (3 - level) := by
  rw [show 4 - level = 3 - level + 1 by omega, walkPath_succ,
    show 4 - (3 - level) = level + 1 by omega]

/-- The page faults if an entry on its walk is not present. -/
theorem treeWalk_pagePath_of_absent
    {memory : Nat -> UInt8} (bound : level ≤ 3)
    (reached : treeWalk memory root (walkPath address (3 - level)) =
      .table table entries)
    (absent : (entryAt memory table (indices address (level + 1))).present = false) :
    treeWalk memory root (pagePath address) = .fault := by
  have fault := treeWalk_of_absent reached absent
  rw [← walkPath_slot address bound] at fault
  rw [treeWalk_pagePath (Nat.sub_le 4 level) (by simp [fault]), fault]

theorem lowerPath_slot (bound : level ≤ 3) (lower : LowerHalf address) :
    LowerPath (indices address (level + 1) :: walkPath address (3 - level)) := by
  rw [← walkPath_slot address bound, show 4 - level = 3 - level + 1 by omega,
    lowerPath_walkPath]
  exact lower

/-- The same slots, counted from the level of the next table. -/
theorem walkPath_next (address : Nat) (bound : level ≤ 2) :
    walkPath address (3 - level) =
      indices address (level + 2) :: walkPath address (2 - level) := by
  have path := walkPath_slot address (show level + 1 ≤ 3 by omega)
  rwa [show 4 - (level + 1) = 3 - level by omega,
    show 3 - (level + 1) = 2 - level by omega] at path

theorem lowerPath_next (bound : level ≤ 2) (lower : LowerHalf address) :
    LowerPath (indices address (level + 2) :: walkPath address (2 - level)) := by
  have path := lowerPath_slot (show level + 1 ≤ 3 by omega) lower
  rwa [show 3 - (level + 1) = 2 - level by omega] at path

theorem Owned.popped (owned : Owned root pool machine (fresh :: rest)) :
    Owned root pool machine.popped rest :=
  owned.shrink rfl rfl
    (Machine.pmemAlloc_cons owned.freelist (owned.isFrame (by simp))).2
    fun _ member => List.mem_cons_of_mem _ member

/-- The table at a vacant slot is not the frame taken for it. -/
theorem Owned.table_ne_fresh (owned : Owned root pool machine (fresh :: rest))
    {path : List Nat}
    (reached : treeWalk machine.memory root path = .table table entries) :
    table ≠ fresh := by
  rintro rfl
  exact owned.table_notFree (tableAt_of_treeWalk reached)
    (by simp)

/-- Installing a frame changes nothing else in memory. -/
theorem Owned.installed_contents
    (owned : Owned root pool machine (fresh :: rest)) {depth : Nat}
    (reached : treeWalk machine.memory root (walkPath address depth) =
      .table table entries) {index : Nat} (inTable : index < 512)
    (absent : frame ∉ [fresh])
    (notTable : ∀ depth,
      tableAt machine.memory root (walkPath address depth) ≠ some frame) :
    AgreeOn machine.memory
      (machine.installed table index fresh usable writable executable).memory
      frame := by
  apply agreeOn_installFrame (isFrame_of_treeWalk owned.rootFrame reached) inTable
    (owned.isFrame (by simp))
  · rintro rfl
    exact notTable depth (tableAt_of_treeWalk reached)
  · simpa using absent

/-- A round that links a table. -/
theorem Owned.installTable
    (owned : Owned root pool machine (fresh :: rest))
    (lower : LowerHalf address) (bound : level ≤ 2)
    (reached : treeWalk machine.memory root (walkPath address (2 - level)) =
      .table table entries)
    (vacant :
      (entryAt machine.memory table (indices address (level + 2))).present = false) :
    let next := machine.installed table (indices address (level + 2)) fresh true
      true true
    Owned root pool next rest ∧
      MapFootprint root address machine next [fresh] ∧
      (∃ links, treeWalk next.memory root (walkPath address (3 - level)) =
        .table fresh links) ∧
      ∀ query, query ≠ walkPath address (3 - level) ->
        treeWalk next.memory root query = treeWalk machine.memory root query := by
  intro next
  have inTable := indices_lt address (level + 1)
  have tableReached : tableAt machine.memory root (walkPath address (2 - level)) =
      some table := tableAt_of_treeWalk reached
  have tableFrame := isFrame_of_tableAt owned.rootFrame tableReached
  have freshFrame : IsFrame fresh := owned.isFrame (by simp)
  have unowned : Unowned root pool machine.popped rest fresh :=
    owned.unowned_of_free rfl
  have inner : (walkPath address (2 - level)).length < 3 := by
    rw [walkPath_length]
    omega
  have slot := walkPath_next address bound
  have lowerSlot := lowerPath_next bound lower
  have small : walkPath address (2 - level) ≠ [] ->
      (entryAt machine.memory table (indices address (level + 2))).pageSize =
        false := by
    intro nonempty
    exact owned.smallPages _ _ _ ((lowerPath_cons nonempty).mp lowerSlot)
      tableReached
  have denotes : classify (walkPath address (2 - level)).length
      (mappedEntry (entryAt machine.memory table (indices address (level + 2)))
        fresh true true true) = .table fresh := by
    rw [classify_of_table rfl, mappedEntry_frame _ _ _ _ freshFrame]
    rintro (deep | ⟨below, large⟩)
    · omega
    · have unchanged : (entryAt machine.memory table
          (indices address (level + 2))).pageSize = true := large
      rw [small (List.length_pos_iff.mp below)] at unchanged
      cases unchanged
  obtain ⟨slotWalk, elsewhere⟩ := treeWalk_installTable owned.rootFrame owned.tree
    reached inTable vacant freshFrame unowned.notTable denotes
  have tables := tableAt_installTable owned.rootFrame owned.tree reached inTable
    vacant freshFrame unowned.notTable denotes
  have absent : tableAt machine.memory root
      (indices address (level + 2) :: walkPath address (2 - level)) = none :=
    congrArg Walk.table? (treeWalk_of_absent reached vacant)
  rw [slot]
  refine ⟨owned.popped.link unowned lowerSlot reached inTable vacant inner denotes
    small mappedEntry_permissive, ?_, ⟨_, slotWalk⟩, elsewhere⟩
  refine
    { sameBase := rfl
      sameCr3 := rfl
      sameWriteProtect := rfl
      elsewhere := ?_
      contents := fun frame => owned.installed_contents reached inTable
      tables := ?_
      newTables := ?_
      roles := ?_ }
  · intro path size _
    apply elsewhere
    rintro rfl
    simp only [List.length_cons] at size
    omega
  · intro path frame before
    refine (tables path).trans ?_
    rwa [if_neg]
    rintro rfl
    rw [absent] at before
    cases before
  · intro path frame after
    rw [show tableAt next.memory root path = _ from tables path] at after
    split at after
    next atSlot =>
      cases after
      refine Or.inr ⟨by simp, 2 - level, by omega, ?_⟩
      rw [atSlot, ← slot, show 2 - level + 1 = 3 - level by omega]
    next => exact Or.inl after
  · simp only [List.mem_singleton, forall_eq]
    exact Or.inr (Or.inl ⟨_, lowerSlot, tableAt_of_treeWalk slotWalk⟩)

/-- The round that maps the page. -/
theorem Owned.installPage
    (owned : Owned root pool machine (fresh :: rest)) (nonzero : fresh ≠ 0)
    (lower : LowerHalf address)
    (reached : treeWalk machine.memory root (walkPath address 3) =
      .table table entries)
    (vacant : (entryAt machine.memory table (indices address 1)).present = false) :
    let after := machine.installed table (indices address 1) fresh usable writable
      executable
    Owned root pool after rest ∧
      MapFootprint root address machine after [fresh] ∧
      Mapped root address usable writable executable machine after [fresh] 0 := by
  intro after
  have inTable := indices_lt address 0
  have tableReached : tableAt machine.memory root (walkPath address 3) =
      some table := tableAt_of_treeWalk reached
  have tableFrame := isFrame_of_tableAt owned.rootFrame tableReached
  have freshFrame : IsFrame fresh := owned.isFrame (by simp)
  have different := owned.table_ne_fresh reached
  have unowned : Unowned root pool machine.popped rest fresh :=
    owned.unowned_of_free rfl
  have size : (walkPath address 3).length = 3 := walkPath_length address 3
  have lowerTable : LowerPath (walkPath address 3) :=
    (lowerPath_walkPath address 2).mpr lower
  have small :
      (entryAt machine.memory table (indices address 1)).pageSize = false :=
    owned.smallPages _ _ _ lowerTable tableReached
  have points := mappedEntry_frame
    (entryAt machine.memory table (indices address 1)) usable writable executable
    freshFrame
  have denotes : classify (walkPath address 3).length
      (mappedEntry (entryAt machine.memory table (indices address 1)) fresh usable
        writable executable) = .leaf :=
    classify_of_leaf rfl (Or.inl size.ge)
  obtain ⟨slotWalk, elsewhere⟩ := treeWalk_installLeaf owned.rootFrame owned.tree
    reached inTable freshFrame unowned.notTable denotes
  have sameTables := tableAt_installLeaf owned.rootFrame owned.tree reached inTable
    freshFrame unowned.notTable denotes (Owned.no_table_of_vacant reached vacant)
  refine ⟨owned.popped.map unowned nonzero size reached inTable vacant rfl points
    small, ?_, ?_⟩
  · refine
      { sameBase := rfl
        sameCr3 := rfl
        sameWriteProtect := rfl
        elsewhere := ?_
        contents := fun frame => owned.installed_contents reached inTable
        tables := fun path frame before => (sameTables path).trans before
        newTables := fun path frame reached =>
          Or.inl ((sameTables path).symm.trans reached)
        roles := ?_ }
    · intro path pathSize otherPage
      apply elsewhere
      intro isSuffix
      apply otherPage
      refine (isSuffix.eq_of_length ?_).symm
      rw [List.length_cons, size, pathSize]
    · simp only [List.mem_singleton, forall_eq]
      exact Or.inr (Or.inr ⟨pagePath address, (lowerPath_walkPath address 3).mpr lower,
        walkPath_length address 4, _, _, slotWalk, points⟩)
  · refine
      { vacant := treeWalk_of_absent reached vacant
        count := rfl
        page := ⟨_, entries, slotWalk,
          owned.permissive _ table entries lowerTable reached, ?_, ?_, rfl, rfl,
          rfl⟩ }
    · rw [points]
      simp
    · intro offset inFrame
      rw [points]
      exact installFrame_fresh tableFrame inTable freshFrame different.symm inFrame

/-- The run fails at a vacant entry if the next frame is missing or is physical
page 0. -/
theorem Owned.vmMapLoop_fails
    (usable writable executable : Bool)
    (owned : Owned root pool machine free)
    (reached : treeWalk machine.memory root (walkPath address (3 - level)) =
      .table table entries)
    (vacant :
      (entryAt machine.memory table (indices address (level + 1))).present = false)
    (fault : treeWalk machine.memory root (pagePath address) = .fault)
    (noFrame : free = [] ∨ ∃ rest, free = 0 :: rest) :
    MapRun root pool address usable writable executable machine free level
      (machine.vmMapLoop address usable writable executable (level + 1)
        (machine.ptov table)) := by
  have tableFrame := isFrame_of_treeWalk owned.rootFrame reached
  rcases noFrame with rfl | ⟨rest, rfl⟩
  · rw [Machine.vmMapLoop_exhausted _ _ _ tableFrame owned.freelist vacant]
    refine ⟨[], [], rfl, ?_,
      { MapFootprint.refl machine with
        contents := fun _ _ _ => AgreeOn.refl _ _ }, by simp,
      fun _ => ⟨rfl, fun mapped => absurd fault mapped, Or.inr (Or.inr (by simp))⟩⟩
    exact owned.congr rfl rfl (fun _ _ _ => AgreeOn.refl _ _)
      fun _ _ => AgreeOn.refl _ _
  · rw [Machine.vmMapLoop_zero _ _ _ tableFrame owned.freelist vacant]
    exact ⟨[0], rest, rfl, owned.popped,
      { MapFootprint.refl machine with
        contents := fun _ _ _ => AgreeOn.refl _ _
        newTables := fun _ _ reached => Or.inl reached
        roles := by simp }, by simp,
      fun _ => ⟨rfl, fun mapped => absurd fault mapped, Or.inr (Or.inl (by simp))⟩⟩

/-- A table that exists is not missing. -/
theorem missingTables_reached {next : Nat}
    (reached :
      tableAt machine.memory root (walkPath address (3 - level)) = some next) :
    missingTables machine.memory root address (level + 1) =
      missingTables machine.memory root address level := by
  rw [missingTables, reached, if_neg (by simp), Nat.zero_add]

/-- Descending through a table that exists costs nothing. -/
theorem MapRun.descend {result : Bool × Machine} {next : Nat}
    (reached : tableAt machine.memory root (walkPath address (3 - level)) = some next)
    (run : MapRun root pool address usable writable executable machine free level
      result) :
    MapRun root pool address usable writable executable machine free (level + 1)
      result := by
  have sameCount := missingTables_reached reached
  obtain ⟨taken, rest, split, kept, footprint, mapped, refused⟩ := run
  refine ⟨taken, rest, split, kept, footprint, ?_, ?_⟩
  · intro ok
    obtain ⟨vacant, count, page⟩ := mapped ok
    exact ⟨vacant, by rw [sameCount, count], page⟩
  · intro failed
    obtain ⟨same, unchanged, reason⟩ := refused failed
    exact ⟨same, unchanged, by rw [sameCount]; exact reason⟩

/-- Linking a table on the walk does not change the walk to the page. -/
theorem pagePath_linked {next : Machine} (bound : level ≤ 2)
    (elsewhere : ∀ query, query ≠ walkPath address (3 - level) ->
      treeWalk next.memory root query = treeWalk machine.memory root query) :
    treeWalk next.memory root (pagePath address) =
      treeWalk machine.memory root (pagePath address) := by
  apply elsewhere
  intro same
  have := congrArg List.length same
  simp only [walkPath_length] at this
  omega

/-- A linked table is missing no more. -/
theorem missingTables_linked {next : Machine} (bound : level ≤ 2)
    (absent : treeWalk machine.memory root (walkPath address (3 - level)) = .fault)
    (elsewhere : ∀ query, query ≠ walkPath address (3 - level) ->
      treeWalk next.memory root query = treeWalk machine.memory root query) :
    missingTables machine.memory root address (level + 1) =
      1 + missingTables next.memory root address level := by
  have noTable : tableAt machine.memory root (walkPath address (3 - level)) =
      none := congrArg Walk.table? absent
  rw [missingTables, noTable, if_pos rfl, missingTables_congr]
  intro below small
  symm
  apply tableAt_congr
  apply elsewhere
  intro same
  have := congrArg List.length same
  simp only [walkPath_length] at this
  omega

/-- Going on in a table that was just linked. -/
theorem MapRun.afterTable {next : Machine} {links : List PtEntry}
    {result : Bool × Machine}
    (bound : level ≤ 2) (lower : LowerPath (walkPath address (3 - level)))
    (absent : treeWalk machine.memory root (walkPath address (3 - level)) = .fault)
    (footprint : MapFootprint root address machine next [fresh])
    (linked : treeWalk next.memory root (walkPath address (3 - level)) =
      .table fresh links)
    (elsewhere : ∀ query, query ≠ walkPath address (3 - level) ->
      treeWalk next.memory root query = treeWalk machine.memory root query)
    (run : MapRun root pool address usable writable executable next rest level
      result) :
    MapRun root pool address usable writable executable machine (fresh :: rest)
      (level + 1) result := by
  have pageSame := pagePath_linked bound elsewhere
  have missing := missingTables_linked bound absent elsewhere
  have fault : treeWalk machine.memory root (pagePath address) = .fault := by
    rw [treeWalk_pagePath (show 3 - level ≤ 4 by omega) (by simp [absent]), absent]
  obtain ⟨taken, last, rfl, kept, laterFootprint, mapped, refused⟩ := run
  refine ⟨fresh :: taken, last, rfl, kept, footprint.trans laterFootprint ?_, ?_, ?_⟩
  · simp only [List.mem_singleton, forall_eq]
    exact ⟨_, lower, tableAt_of_treeWalk linked⟩
  · intro ok
    obtain ⟨vacant, count, entry, above, page, permissive, fromTaken, rest⟩ :=
      mapped ok
    exact
      { vacant := pageSame.symm.trans vacant
        count := by rw [List.length_cons, count, missing]; omega
        page := ⟨entry, above, page, permissive,
          List.mem_cons_of_mem _ fromTaken, rest⟩ }
  · intro failed
    obtain ⟨same, _, reason⟩ := refused failed
    refine ⟨same.trans pageSame, fun mapped => absurd fault mapped, ?_⟩
    rw [← pageSame, missing]
    rcases reason with isMapped | hasZero | tooFew
    · exact Or.inl isMapped
    · exact Or.inr (Or.inl (List.mem_cons_of_mem _ hasZero))
    · refine Or.inr (Or.inr ?_)
      rw [List.length_cons]
      omega

/-- The run of `vm_map` from the table at `level` on. -/
theorem Machine.vmMapLoop_spec
    (usable writable executable : Bool) (lower : LowerHalf address)
    (level : Nat) (bound : level ≤ 3)
    (owned : Owned root pool machine free)
    (reached : treeWalk machine.memory root (walkPath address (3 - level)) =
      .table table entries) :
    MapRun root pool address usable writable executable machine free level
      (machine.vmMapLoop address usable writable executable (level + 1)
        (machine.ptov table)) := by
  induction level generalizing machine free entries table with
  | zero =>
      have tableFrame := isFrame_of_treeWalk owned.rootFrame reached
      cases present : (entryAt machine.memory table (indices address 1)).present with
      | true =>
          have leaf := classify_of_leaf present
            (Or.inl (walkPath_length address 3).ge)
          have isMapped : treeWalk machine.memory root (pagePath address) ≠
              .fault := by
            rw [pagePath, walkPath_succ, treeWalk_cons, reached]
            simp only [RadixTree.Walk.step, leaf]
            simp
          rw [vmMapLoop_mapped _ _ _ tableFrame present]
          exact ⟨[], free, rfl, owned, MapFootprint.refl machine, by simp,
            fun _ => ⟨rfl, fun _ => rfl, Or.inl isMapped⟩⟩
      | false =>
          by_cases noFrame : free = [] ∨ ∃ rest, free = 0 :: rest
          · exact owned.vmMapLoop_fails usable writable executable reached present
              (treeWalk_pagePath_of_absent bound reached present) noFrame
          · obtain ⟨fresh, rest, rfl, nonzero⟩ := exists_usable_frame noFrame
            obtain ⟨kept, footprint, mapped⟩ := owned.installPage nonzero lower
              reached present
            rw [vmMapLoop_installPage _ _ _ tableFrame owned.freelist
              (owned.isFrame (by simp)) nonzero (owned.table_ne_fresh reached)
              present]
            exact ⟨[fresh], rest, rfl, kept, footprint, fun _ => mapped, by simp⟩
  | succ level inductionHypothesis =>
      have tableFrame := isFrame_of_treeWalk owned.rootFrame reached
      have depth : 3 - (level + 1) = 2 - level := by omega
      have slot := walkPath_next address (show level ≤ 2 by omega)
      have lowerSlot := lowerPath_next (show level ≤ 2 by omega) lower
      cases present :
          (entryAt machine.memory table (indices address (level + 2))).present with
      | true =>
          rw [depth] at reached
          have deeper := owned.treeWalk_descend lowerSlot
            (by rw [walkPath_length]; omega) reached present
          rw [← slot] at deeper
          rw [vmMapLoop_descend _ _ _ tableFrame present]
          exact (inductionHypothesis (by omega) owned deeper).descend
            (tableAt_of_treeWalk deeper)
      | false =>
          by_cases noFrame : free = [] ∨ ∃ rest, free = 0 :: rest
          · exact owned.vmMapLoop_fails usable writable executable reached present
              (treeWalk_pagePath_of_absent bound reached present) noFrame
          · obtain ⟨fresh, rest, rfl, nonzero⟩ := exists_usable_frame noFrame
            rw [depth] at reached
            have absent : treeWalk machine.memory root
                (walkPath address (3 - level)) = .fault := by
              rw [slot]
              exact treeWalk_of_absent reached present
            obtain ⟨kept, footprint, ⟨links, linked⟩, elsewhere⟩ :=
              owned.installTable lower (by omega) reached present
            rw [vmMapLoop_installTable _ _ _ tableFrame owned.freelist
              (owned.isFrame (by simp)) nonzero (owned.table_ne_fresh reached)
              present]
            exact (inductionHypothesis (by omega) kept linked).afterTable (by omega)
              (slot ▸ lowerSlot) absent footprint linked elsewhere

end StarterKernel
