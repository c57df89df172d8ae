import StarterKernel.Paging.VmProtect
import Mathlib.Data.List.TakeWhile

/-!
# Editing the page tables of any half

The page table editors work as soon as the page tables form a tree that is apart from
the freelist and the walk to the address meets no large page.  Nothing is assumed
about the pages, so this covers the upper half too.
-/

namespace StarterKernel

open RadixTree (Slot Walk)

/-- The page tables form a tree, and the freelist is apart from them. -/
structure WellFormed (root : Nat) (machine : Machine) (free : List Nat) : Prop where
  rootFrame : IsFrame root
  poolFrame : ∀ frame ∈ free, PoolFrame machine.hhdmBase frame
  freelist : machine.FreelistIs free
  tree : IsTree machine.memory root
  notFree : ∀ path frame, tableAt machine.memory root path = some frame -> frame ∉ free

/-- No entry on the walk to an address is marked as a large page. -/
def SmallWalk (memory : Nat -> UInt8) (root address : Nat) : Prop :=
  ∀ depth table, 0 < depth -> depth < 3 ->
    tableAt memory root (walkPath address depth) = some table ->
    (entryAt memory table (indices address (4 - depth))).pageSize = false

/-- The frames at the front of the freelist that can be used: physical page 0 is
taken for the lack of a frame. -/
def usableCount (free : List Nat) : Nat := (free.takeWhile fun frame => frame ≠ 0).length

/-- A run of `vm_map` takes frames off the front of the freelist, and a table is a table
before or one of these frames. -/
structure TookFrames
    (root : Nat) (machine after : Machine) (taken rest : List Nat) : Prop where
  wellFormed : WellFormed root after rest
  sameBase : after.hhdmBase = machine.hhdmBase
  counter : after.freePageCounter = machine.freePageCounter - .ofNat taken.length
  tables : ∀ path frame, tableAt machine.memory root path = some frame ->
    tableAt after.memory root path = some frame
  newTables : ∀ path frame, tableAt after.memory root path = some frame ->
    tableAt machine.memory root path = some frame ∨ frame ∈ taken

/-- How a run of `vm_map` from the table at `level` on ends. -/
structure MapOutcome
    (root address : Nat) (machine : Machine) (free : List Nat) (level : Nat)
    (result : Bool × Machine) : Prop where
  took : ∃ taken rest, free = taken ++ rest ∧
    TookFrames root machine result.2 taken rest
  mapped : treeWalk machine.memory root (pagePath address) ≠ .fault ->
    result = (false, machine)
  succeeds : treeWalk machine.memory root (pagePath address) = .fault ->
    (result.1 = true ↔
      missingTables machine.memory root address level + 1 ≤ usableCount free)
  /-- A failing run uses up the frames. -/
  drained : treeWalk machine.memory root (pagePath address) = .fault ->
    result.1 = false -> result.2.FreelistIs (free.drop (usableCount free + 1))
  exhausted : treeWalk machine.memory root (pagePath address) = .fault -> free = [] ->
    result.2 = machine.kprintf "No free space, sorry :(\n"

variable {root table index fresh frame level address : Nat} {pool : Set Nat}
variable {machine other after : Machine} {free rest path : List Nat}
variable {entry : PtEntry} {entries : List PtEntry}

@[simp] theorem usableCount_nil : usableCount [] = 0 := rfl

@[simp] theorem usableCount_zero : usableCount (0 :: rest) = 0 := rfl

theorem usableCount_cons (nonzero : fresh ≠ 0) :
    usableCount (fresh :: rest) = usableCount rest + 1 := by
  unfold usableCount
  rw [List.takeWhile_cons_of_pos (by simpa using nonzero), List.length_cons]

theorem usableCount_eq_length (noZero : 0 ∉ free) : usableCount free = free.length := by
  unfold usableCount
  rw [List.takeWhile_eq_self_iff.mpr]
  intro frame member
  simpa using ne_of_mem_of_not_mem member noZero

/-- The ownership invariant is stronger. -/
theorem Owned.wellFormed (owned : Owned root pool machine free) :
    WellFormed root machine free where
  rootFrame := owned.rootFrame
  poolFrame := fun frame member => owned.poolFrame frame (owned.freeInPool frame member)
  freelist := owned.freelist
  tree := owned.tree
  notFree := fun _ _ reached => owned.table_notFree reached

/-- It excludes large pages from the lower half. -/
theorem Owned.smallWalk (owned : Owned root pool machine free) (lower : LowerHalf address) :
    SmallWalk machine.memory root address := by
  intro depth table below _ reached
  obtain ⟨depth, rfl⟩ := Nat.exists_eq_succ_of_ne_zero (show depth ≠ 0 by omega)
  exact owned.smallPages _ table _ ((lowerPath_walkPath address depth).mpr lower) reached

theorem TookFrames.refl (wellFormed : WellFormed root machine free) :
    TookFrames root machine machine [] free where
  wellFormed := wellFormed
  sameBase := rfl
  counter := (Int32.sub_zero _).symm
  tables := fun _ _ reached => reached
  newTables := fun _ _ reached => Or.inl reached

theorem TookFrames.trans {middle : Machine} {taken later pending : List Nat}
    (first : TookFrames root machine middle taken pending)
    (second : TookFrames root middle after later rest) :
    TookFrames root machine after (taken ++ later) rest where
  wellFormed := second.wellFormed
  sameBase := second.sameBase.trans first.sameBase
  counter := by
    rw [second.counter, first.counter, List.length_append, Int32.ofNat_add, Int32.sub_sub]
  tables := fun path frame reached =>
    second.tables path frame (first.tables path frame reached)
  newTables := by
    intro path frame reached
    rcases second.newTables path frame reached with before | isTaken
    · exact (first.newTables path frame before).imp_right (List.mem_append_left later)
    · exact Or.inr (List.mem_append_right taken isTaken)

namespace WellFormed

theorem isFrame (wellFormed : WellFormed root machine free) (member : frame ∈ free) :
    IsFrame frame :=
  (wellFormed.poolFrame frame member).toIsFrame

/-- Memory may change outside the freelist as long as its frames are no tables. -/
theorem edit (wellFormed : WellFormed root machine free)
    (sameBase : other.hhdmBase = machine.hhdmBase)
    (sameHead : other.freelist = machine.freelist)
    (agreeFree : ∀ frame ∈ free, AgreeOn machine.memory other.memory frame)
    (tree : IsTree other.memory root)
    (notFree : ∀ path frame, tableAt other.memory root path = some frame ->
      frame ∉ free) :
    WellFormed root other free where
  rootFrame := wellFormed.rootFrame
  poolFrame := sameBase ▸ wellFormed.poolFrame
  freelist := wellFormed.freelist.congr (fun _ member => wellFormed.isFrame member)
    sameBase sameHead agreeFree
  tree := tree
  notFree := notFree

/-- What is printed does not matter. -/
theorem congr (wellFormed : WellFormed root machine free)
    (sameBase : other.hhdmBase = machine.hhdmBase)
    (sameHead : other.freelist = machine.freelist)
    (sameMemory : other.memory = machine.memory) :
    WellFormed root other free := by
  apply wellFormed.edit sameBase sameHead
  · rw [sameMemory]
    exact fun _ _ => AgreeOn.refl _ _
  · rw [sameMemory]
    exact wellFormed.tree
  · rw [sameMemory]
    exact wellFormed.notFree

/-- The freelist is determined by the machine. -/
theorem free_unique (left : WellFormed root machine free)
    (right : WellFormed root machine rest) : free = rest :=
  left.freelist.unique right.freelist left.poolFrame right.poolFrame

/-- A frame is taken off the freelist. -/
theorem popped (wellFormed : WellFormed root machine (fresh :: rest)) :
    TookFrames root machine machine.popped [fresh] rest where
  wellFormed :=
    { rootFrame := wellFormed.rootFrame
      poolFrame := fun frame member =>
        wellFormed.poolFrame frame (List.mem_cons_of_mem _ member)
      freelist := (Machine.pmemAlloc_cons wellFormed.freelist
        (wellFormed.isFrame (by simp))).2
      tree := wellFormed.tree
      notFree := fun path frame reached member =>
        wellFormed.notFree path frame reached (List.mem_cons_of_mem _ member) }
  sameBase := rfl
  counter := rfl
  tables := fun _ _ reached => reached
  newTables := fun _ _ reached => Or.inl reached

/-- The frame taken off the freelist is no page table. -/
theorem fresh_notTable (wellFormed : WellFormed root machine (fresh :: rest)) :
    ∀ path, tableAt machine.memory root path ≠ some fresh := by
  intro path reached
  exact wellFormed.notFree path fresh reached (by simp)

theorem table_ne_fresh (wellFormed : WellFormed root machine (fresh :: rest))
    (reached : treeWalk machine.memory root path = .table table entries) :
    table ≠ fresh := by
  rintro rfl
  exact wellFormed.fresh_notTable path (tableAt_of_treeWalk reached)

/-- A frame is installed in a vacant entry, as a table or as a page. -/
theorem installed (wellFormed : WellFormed root machine (fresh :: rest))
    (usable writable executable : Bool)
    (reached : treeWalk machine.memory root path = .table table entries)
    (inTable : index < 512)
    (tree : IsTree (machine.installed table index fresh usable writable
      executable).memory root)
    (tables : ∀ query frame, tableAt machine.memory root query = some frame ->
      tableAt (machine.installed table index fresh usable writable
        executable).memory root query = some frame)
    (newTables : ∀ query frame, tableAt (machine.installed table index fresh usable
        writable executable).memory root query = some frame ->
      tableAt machine.memory root query = some frame ∨ frame ∈ [fresh]) :
    TookFrames root machine
      (machine.installed table index fresh usable writable executable) [fresh] rest := by
  have freshFrame : IsFrame fresh := wellFormed.isFrame (by simp)
  have freshAbsent : fresh ∉ rest := (List.nodup_cons.mp wellFormed.freelist.nodup).1
  refine ⟨wellFormed.popped.wellFormed.edit rfl rfl ?_ tree ?_, rfl, rfl, tables,
    newTables⟩
  · intro frame member
    apply agreeOn_installFrame (isFrame_of_treeWalk wellFormed.rootFrame reached) inTable
      freshFrame
    · rintro rfl
      exact wellFormed.notFree path frame (tableAt_of_treeWalk reached)
        (List.mem_cons_of_mem _ member)
    · rintro rfl
      exact freshAbsent member
  · intro query frame after
    rcases newTables query frame after with before | isFresh
    · exact wellFormed.popped.wellFormed.notFree query frame before
    · rw [List.mem_singleton.mp isFresh]
      exact freshAbsent

end WellFormed

/-! ## The walks of `vm_map` and `vm_protect` -/

namespace SmallWalk

/-- The walk does not stop above level 1. -/
theorem inner (small : SmallWalk machine.memory root address) (bound : level ≤ 2)
    (reached : treeWalk machine.memory root (walkPath address (2 - level)) =
      .table table entries) :
    ¬(3 ≤ (walkPath address (2 - level)).length ∨
      0 < (walkPath address (2 - level)).length ∧
        (entryAt machine.memory table (indices address (level + 2))).pageSize =
          true) := by
  rw [walkPath_length]
  rintro (deep | ⟨below, large⟩)
  · omega
  · have isSmall := small (2 - level) table below (by omega) (tableAt_of_treeWalk reached)
    rw [show 4 - (2 - level) = level + 2 by omega, large] at isSmall
    cases isSmall

/-- A present entry leads to the table of the next level. -/
theorem descend (small : SmallWalk machine.memory root address) (bound : level ≤ 2)
    (reached : treeWalk machine.memory root (walkPath address (2 - level)) =
      .table table entries)
    (present :
      (entryAt machine.memory table (indices address (level + 2))).present = true) :
    ∃ links, treeWalk machine.memory root (walkPath address (3 - level)) =
      .table (entryAt machine.memory table (indices address (level + 2))).frame
        links := by
  rw [walkPath_next address bound, treeWalk_cons, reached]
  simp only [RadixTree.Walk.step, classify_of_table present (small.inner bound reached)]
  exact ⟨_, rfl⟩

/-- A linked table has no entry marked as a large page. -/
theorem installed (small : SmallWalk machine.memory root address)
    (wellFormed : WellFormed root machine (fresh :: rest))
    (reached : treeWalk machine.memory root path = .table table entries)
    (inTable : index < 512)
    (tables : ∀ query, tableAt (machine.installed table index fresh true true
        true).memory root query =
      if query = index :: path then some fresh
      else tableAt machine.memory root query) :
    SmallWalk (machine.installed table index fresh true true true).memory root
      address := by
  have tableFrame := isFrame_of_treeWalk wellFormed.rootFrame reached
  have freshFrame : IsFrame fresh := wellFormed.isFrame (by simp)
  have different := wellFormed.table_ne_fresh reached
  intro depth other below above after
  rw [tables] at after
  unfold Machine.installed
  split at after
  next =>
    cases after
    rw [entryAt_installFrame_fresh tableFrame inTable freshFrame different.symm]
    rfl
  next =>
    have isSmall := small depth other below above after
    have notFresh : other ≠ fresh := by
      rintro rfl
      exact wellFormed.fresh_notTable _ after
    rw [entryAt_installFrame tableFrame inTable freshFrame
      (isFrame_of_tableAt wellFormed.rootFrame after) notFresh]
    split
    next same =>
      rw [same.1, same.2] at isSmall
      exact isSmall
    next => exact isSmall

end SmallWalk

namespace WellFormed

/-- A round of `vm_map` that links a table. -/
theorem installTable (wellFormed : WellFormed root machine (fresh :: rest))
    (small : SmallWalk machine.memory root address) (bound : level ≤ 2)
    (reached : treeWalk machine.memory root (walkPath address (2 - level)) =
      .table table entries)
    (vacant :
      (entryAt machine.memory table (indices address (level + 2))).present = false) :
    let next := machine.installed table (indices address (level + 2)) fresh true
      true true
    TookFrames root machine next [fresh] rest ∧ SmallWalk next.memory root address ∧
      (∃ links, treeWalk next.memory root (walkPath address (3 - level)) =
        .table fresh links) ∧
      ∀ query, query ≠ walkPath address (3 - level) ->
        treeWalk next.memory root query = treeWalk machine.memory root query := by
  intro next
  have inTable := indices_lt address (level + 1)
  have freshFrame : IsFrame fresh := wellFormed.isFrame (by simp)
  have denotes : classify (walkPath address (2 - level)).length
      (mappedEntry (entryAt machine.memory table (indices address (level + 2)))
        fresh true true true) = .table fresh := by
    rw [classify_of_table rfl, mappedEntry_frame _ _ _ _ freshFrame]
    exact small.inner bound reached
  obtain ⟨slotWalk, elsewhere⟩ := treeWalk_installTable wellFormed.rootFrame
    wellFormed.tree reached inTable vacant freshFrame wellFormed.fresh_notTable denotes
  have tables : ∀ query, tableAt next.memory root query =
      if query = indices address (level + 2) :: walkPath address (2 - level) then
        some fresh
      else tableAt machine.memory root query :=
    tableAt_installTable wellFormed.rootFrame wellFormed.tree reached inTable vacant
      freshFrame wellFormed.fresh_notTable denotes
  have absent : tableAt machine.memory root
      (indices address (level + 2) :: walkPath address (2 - level)) = none :=
    congrArg Walk.table? (treeWalk_of_absent reached vacant)
  rw [walkPath_next address bound]
  refine ⟨wellFormed.installed true true true reached inTable ?_ ?_ ?_,
    small.installed wellFormed reached inTable tables, ⟨_, slotWalk⟩, elsewhere⟩
  · exact isTree_installTable wellFormed.rootFrame wellFormed.tree reached inTable vacant
      freshFrame wellFormed.fresh_notTable denotes
  · intro query frame before
    refine (tables query).trans ?_
    rwa [if_neg]
    rintro rfl
    rw [absent] at before
    cases before
  · intro query frame after
    rw [show tableAt (machine.installed table (indices address (level + 2)) fresh true
      true true).memory root query = _ from tables query] at after
    split at after
    next => exact Or.inr (List.mem_singleton.mpr (Option.some.inj after).symm)
    next => exact Or.inl after

/-- The round of `vm_map` that maps the page. -/
theorem installPage (wellFormed : WellFormed root machine (fresh :: rest))
    (usable writable executable : Bool)
    (reached : treeWalk machine.memory root (walkPath address 3) =
      .table table entries)
    (vacant : (entryAt machine.memory table (indices address 1)).present = false) :
    TookFrames root machine
      (machine.installed table (indices address 1) fresh usable writable executable)
      [fresh] rest := by
  have inTable := indices_lt address 0
  have freshFrame : IsFrame fresh := wellFormed.isFrame (by simp)
  have denotes : classify (walkPath address 3).length
      (mappedEntry (entryAt machine.memory table (indices address 1)) fresh usable
        writable executable) = .leaf :=
    classify_of_leaf rfl (Or.inl (walkPath_length address 3).ge)
  have sameTables := tableAt_installLeaf wellFormed.rootFrame wellFormed.tree reached
    inTable freshFrame wellFormed.fresh_notTable denotes
    (Owned.no_table_of_vacant reached vacant)
  exact wellFormed.installed usable writable executable reached inTable
    (isTree_congr wellFormed.tree sameTables)
    (fun query frame before => (sameTables query).trans before)
    (fun query frame after => Or.inl ((sameTables query).symm.trans after))

/-- The walk of `vm_map` from the table at `level` on.  It finds the page mapped, fails at
a vacant entry without a frame for it, maps the page, or goes on at the next level: in the
table that is there, or in one that it links. -/
theorem vmMapLoop_induction {usable writable executable : Bool}
    {motive : Nat -> Machine -> List Nat -> Bool × Machine -> Prop}
    (mapped : ∀ {machine free table entries}, WellFormed root machine free ->
      treeWalk machine.memory root (walkPath address 3) = .table table entries ->
      (entryAt machine.memory table (indices address 1)).present = true ->
      motive 0 machine free (false, machine))
    (exhausted : ∀ {level machine table entries}, level ≤ 3 ->
      WellFormed root machine [] ->
      treeWalk machine.memory root (walkPath address (3 - level)) = .table table entries ->
      (entryAt machine.memory table (indices address (level + 1))).present = false ->
      motive level machine [] (false, machine.kprintf "No free space, sorry :(\n"))
    (zero : ∀ {level machine rest table entries}, level ≤ 3 ->
      WellFormed root machine (0 :: rest) ->
      treeWalk machine.memory root (walkPath address (3 - level)) = .table table entries ->
      (entryAt machine.memory table (indices address (level + 1))).present = false ->
      motive level machine (0 :: rest) (false, machine.popped))
    (page : ∀ {machine fresh rest table entries},
      WellFormed root machine (fresh :: rest) -> fresh ≠ 0 ->
      treeWalk machine.memory root (walkPath address 3) = .table table entries ->
      (entryAt machine.memory table (indices address 1)).present = false ->
      motive 0 machine (fresh :: rest)
        (true, machine.installed table (indices address 1) fresh usable writable executable))
    (descend : ∀ {level machine free next links result}, level ≤ 2 ->
      treeWalk machine.memory root (walkPath address (3 - level)) = .table next links ->
      motive level machine free result -> motive (level + 1) machine free result)
    (link : ∀ {level machine fresh rest table entries result}, level ≤ 2 ->
      WellFormed root machine (fresh :: rest) -> SmallWalk machine.memory root address ->
      fresh ≠ 0 ->
      treeWalk machine.memory root (walkPath address (2 - level)) = .table table entries ->
      (entryAt machine.memory table (indices address (level + 2))).present = false ->
      motive level
        (machine.installed table (indices address (level + 2)) fresh true true true) rest
        result ->
      motive (level + 1) machine (fresh :: rest) result)
    (level : Nat) (bound : level ≤ 3) (wellFormed : WellFormed root machine free)
    (small : SmallWalk machine.memory root address)
    (reached : treeWalk machine.memory root (walkPath address (3 - level)) =
      .table table entries) :
    motive level machine free
      (machine.vmMapLoop address usable writable executable (level + 1)
        (machine.ptov table)) := by
  induction level generalizing machine free entries table with
  | zero =>
      have tableFrame := isFrame_of_treeWalk wellFormed.rootFrame reached
      cases present : (entryAt machine.memory table (indices address 1)).present with
      | true =>
          rw [Machine.vmMapLoop_mapped _ _ _ tableFrame present]
          exact mapped wellFormed reached present
      | false =>
          by_cases noFrame : free = [] ∨ ∃ rest, free = 0 :: rest
          · obtain rfl | ⟨rest, rfl⟩ := noFrame
            · rw [Machine.vmMapLoop_exhausted _ _ _ tableFrame wellFormed.freelist present]
              exact exhausted bound wellFormed reached present
            · rw [Machine.vmMapLoop_zero _ _ _ tableFrame wellFormed.freelist present]
              exact zero bound wellFormed reached present
          · obtain ⟨fresh, rest, rfl, nonzero⟩ := exists_usable_frame noFrame
            rw [Machine.vmMapLoop_installPage _ _ _ tableFrame wellFormed.freelist
              (wellFormed.isFrame (by simp)) nonzero (wellFormed.table_ne_fresh reached)
              present]
            exact page wellFormed nonzero reached present
  | succ level inductionHypothesis =>
      have tableFrame := isFrame_of_treeWalk wellFormed.rootFrame reached
      have depth : 3 - (level + 1) = 2 - level := by omega
      cases present :
          (entryAt machine.memory table (indices address (level + 2))).present with
      | true =>
          rw [depth] at reached
          obtain ⟨links, deeper⟩ := small.descend (by omega) reached present
          rw [Machine.vmMapLoop_descend _ _ _ tableFrame present]
          exact descend (by omega) deeper
            (inductionHypothesis (by omega) wellFormed small deeper)
      | false =>
          by_cases noFrame : free = [] ∨ ∃ rest, free = 0 :: rest
          · obtain rfl | ⟨rest, rfl⟩ := noFrame
            · rw [Machine.vmMapLoop_exhausted _ _ _ tableFrame wellFormed.freelist present]
              exact exhausted bound wellFormed reached present
            · rw [Machine.vmMapLoop_zero _ _ _ tableFrame wellFormed.freelist present]
              exact zero bound wellFormed reached present
          · obtain ⟨fresh, rest, rfl, nonzero⟩ := exists_usable_frame noFrame
            rw [depth] at reached
            obtain ⟨linking, stillSmall, ⟨links, linked⟩, _⟩ :=
              wellFormed.installTable small (by omega) reached present
            rw [Machine.vmMapLoop_installTable _ _ _ tableFrame wellFormed.freelist
              (wellFormed.isFrame (by simp)) nonzero (wellFormed.table_ne_fresh reached)
              present]
            exact link (by omega) wellFormed small nonzero reached present
              (inductionHypothesis (by omega) linking.wellFormed stillSmall linked)

/-- At a present entry of level 1 the page is mapped. -/
theorem pagePath_mapped
    (reached : treeWalk machine.memory root (walkPath address 3) = .table table entries)
    (present : (entryAt machine.memory table (indices address 1)).present = true) :
    treeWalk machine.memory root (pagePath address) ≠ .fault := by
  rw [pagePath, walkPath_succ, treeWalk_cons, reached]
  simp only [RadixTree.Walk.step,
    classify_of_leaf present (Or.inl (walkPath_length address 3).ge)]
  simp

/-- How the walk of `vm_map` from the table at `level` on ends. -/
theorem vmMapLoop (usable writable executable : Bool) (level : Nat) (bound : level ≤ 3)
    (wellFormed : WellFormed root machine free)
    (small : SmallWalk machine.memory root address)
    (reached : treeWalk machine.memory root (walkPath address (3 - level)) =
      .table table entries) :
    MapOutcome root address machine free level
      (machine.vmMapLoop address usable writable executable (level + 1)
        (machine.ptov table)) := by
  refine vmMapLoop_induction
    (motive := fun level machine free => MapOutcome root address machine free level)
    ?mapped ?exhausted ?zero ?page ?descend ?link level bound wellFormed small reached
  case mapped =>
    intro machine free table entries wellFormed reached present
    have isMapped := pagePath_mapped reached present
    exact
      { took := ⟨[], free, rfl, TookFrames.refl wellFormed⟩
        mapped := fun _ => rfl
        succeeds := fun fault => absurd fault isMapped
        drained := fun fault => absurd fault isMapped
        exhausted := fun fault => absurd fault isMapped }
  case exhausted =>
    intro level machine table entries bound wellFormed reached vacant
    have fault := treeWalk_pagePath_of_absent bound reached vacant
    have printed : WellFormed root (machine.kprintf "No free space, sorry :(\n") [] :=
      wellFormed.congr rfl rfl rfl
    refine
      { took := ⟨[], [], rfl, { TookFrames.refl printed with counter := ?_ }⟩
        mapped := fun mapped => absurd fault mapped
        succeeds := by simp
        drained := fun _ _ => ?_
        exhausted := fun _ _ => rfl }
    · exact (Int32.sub_zero _).symm
    · rw [List.drop_nil]
      exact printed.freelist
  case zero =>
    intro level machine rest table entries bound wellFormed reached vacant
    have fault := treeWalk_pagePath_of_absent bound reached vacant
    refine
      { took := ⟨[0], rest, rfl, wellFormed.popped⟩
        mapped := fun mapped => absurd fault mapped
        succeeds := by simp
        drained := fun _ _ => ?_
        exhausted := by simp }
    rw [usableCount_zero, List.drop_succ_cons, List.drop_zero]
    exact wellFormed.popped.wellFormed.freelist
  case page =>
    intro machine fresh rest table entries wellFormed nonzero reached vacant
    have fault := treeWalk_pagePath_of_absent (by omega) reached vacant
    exact
      { took := ⟨[fresh], rest, rfl,
          wellFormed.installPage usable writable executable reached vacant⟩
        mapped := fun mapped => absurd fault mapped
        succeeds := by simp [missingTables, usableCount_cons nonzero]
        drained := by simp
        exhausted := by simp }
  case descend =>
    intro level machine free next links result bound deeper run
    have sameCount := missingTables_reached (tableAt_of_treeWalk deeper)
    exact { run with succeeds := by rw [sameCount]; exact run.succeeds }
  case link =>
    intro level machine fresh rest table entries result bound wellFormed small nonzero
      reached vacant run
    obtain ⟨linking, _, _, elsewhere⟩ :=
      wellFormed.installTable small bound reached vacant
    have absent : treeWalk machine.memory root (walkPath address (3 - level)) = .fault := by
      rw [walkPath_next address bound]
      exact treeWalk_of_absent reached vacant
    have fault : treeWalk machine.memory root (pagePath address) = .fault := by
      rw [treeWalk_pagePath (show 3 - level ≤ 4 by omega) (by simp [absent]), absent]
    have sameFault := (pagePath_linked bound elsewhere).trans fault
    obtain ⟨taken, last, split, later⟩ := run.took
    exact
      { took := ⟨fresh :: taken, last, by rw [split, List.cons_append],
          linking.trans later⟩
        mapped := fun mapped => absurd fault mapped
        succeeds := fun _ => by
          rw [run.succeeds sameFault, usableCount_cons nonzero,
            missingTables_linked bound absent elsewhere]
          omega
        drained := fun _ failed => by
          rw [usableCount_cons nonzero, List.drop_succ_cons]
          exact run.drained sameFault failed
        exhausted := by simp }

/-- A run of `vm_map`. -/
theorem vmMap (usable writable executable : Bool)
    (wellFormed : WellFormed root machine free)
    (small : SmallWalk machine.memory root address) :
    MapOutcome root address machine free 3
      (machine.vmMap root address usable writable executable) := by
  have atRoot : treeWalk machine.memory root (walkPath address 0) =
      .table root [] := rfl
  exact wellFormed.vmMapLoop usable writable executable 3 (le_refl 3) small atRoot

/-! ## `vm_protect` -/

/-- The walk of `vm_protect` fails on a vacant page and otherwise rewrites the leaf. -/
theorem vmProtectLoop (user writable executable : Bool)
    (wellFormed : WellFormed root machine free)
    (small : SmallWalk machine.memory root address) (level : Nat) (bound : level ≤ 3)
    (reached : treeWalk machine.memory root (walkPath address (3 - level)) =
      .table table entries) :
    (treeWalk machine.memory root (pagePath address) = .fault ∧
        machine.vmProtectLoop address user writable executable (level + 1)
          (machine.ptov table) = (false, machine)) ∨
      ∃ l1Table links,
        treeWalk machine.memory root (walkPath address 3) = .table l1Table links ∧
        (entryAt machine.memory l1Table (indices address 1)).present = true ∧
        machine.vmProtectLoop address user writable executable (level + 1)
            (machine.ptov table) =
          (true, { machine with
            memory := writeEntry machine.memory l1Table (indices address 1)
              (protectedEntry (entryAt machine.memory l1Table (indices address 1)) user
                writable executable) }) := by
  induction level generalizing entries table with
  | zero =>
      have tableFrame := isFrame_of_treeWalk wellFormed.rootFrame reached
      cases present : (entryAt machine.memory table (indices address 1)).present with
      | false =>
          exact Or.inl ⟨treeWalk_pagePath_of_absent bound reached present,
            Machine.vmProtectLoop_fails _ _ _ tableFrame present⟩
      | true =>
          exact Or.inr ⟨table, entries, reached, present,
            Machine.vmProtectLoop_mapped _ _ _ tableFrame present⟩
  | succ level inductionHypothesis =>
      have tableFrame := isFrame_of_treeWalk wellFormed.rootFrame reached
      cases present :
          (entryAt machine.memory table (indices address (level + 2))).present with
      | false =>
          exact Or.inl ⟨treeWalk_pagePath_of_absent bound reached present,
            Machine.vmProtectLoop_fails _ _ _ tableFrame present⟩
      | true =>
          rw [show 3 - (level + 1) = 2 - level by omega] at reached
          obtain ⟨links, deeper⟩ := small.descend (by omega) reached present
          rw [Machine.vmProtectLoop_descend _ _ _ tableFrame present]
          exact inductionHypothesis (by omega) deeper

/-- A run of `vm_protect`. -/
theorem vmProtect (user writable executable : Bool)
    (wellFormed : WellFormed root machine free)
    (small : SmallWalk machine.memory root address) :
    (treeWalk machine.memory root (pagePath address) = .fault ∧
        machine.vmProtect root address user writable executable = (false, machine)) ∨
      ∃ l1Table links,
        treeWalk machine.memory root (walkPath address 3) = .table l1Table links ∧
        (entryAt machine.memory l1Table (indices address 1)).present = true ∧
        machine.vmProtect root address user writable executable =
          (true, { machine with
            memory := writeEntry machine.memory l1Table (indices address 1)
              (protectedEntry (entryAt machine.memory l1Table (indices address 1)) user
                writable executable) }) := by
  have atRoot : treeWalk machine.memory root (walkPath address 0) =
      .table root [] := rfl
  exact wellFormed.vmProtectLoop user writable executable small 3 (le_refl 3) atRoot

/-- The leaf of a page below its level 1 table. -/
theorem leaf_of_present
    (reached : treeWalk machine.memory root (walkPath address 3) = .table table entries)
    (present : (entryAt machine.memory table (indices address 1)).present = true) :
    treeWalk machine.memory root (pagePath address) =
      .leaf (entryAt machine.memory table (indices address 1) :: entries) := by
  rw [pagePath, walkPath_succ, treeWalk_cons, reached]
  simp only [RadixTree.Walk.step,
    classify_of_leaf present (Or.inl (walkPath_length address 3).ge)]

/-- An address does not translate when its walk faults. -/
theorem translation_eq_none_iff (wellFormed : WellFormed root machine free)
    (small : SmallWalk machine.memory root address) :
    translation machine.memory root address = none ↔
      treeWalk machine.memory root (pagePath address) = .fault := by
  constructor
  · intro untranslated
    rcases wellFormed.vmProtect true true true small with
      ⟨fault, _⟩ | ⟨table, links, reached, present, _⟩
    · exact fault
    · rw [translation_eq, leaf_of_present reached present] at untranslated
      cases untranslated
  · intro fault
    rw [translation_eq, fault]
    rfl

/-- Rewriting the leaf of a mapped page keeps the tables. -/
theorem writeLeaf (wellFormed : WellFormed root machine free)
    (reached : treeWalk machine.memory root (walkPath address 3) =
      .table table entries)
    (mapped : (entryAt machine.memory table (indices address 1)).present = true)
    (present : entry.present = true) :
    TookFrames root machine
      { machine with
        memory := writeEntry machine.memory table (indices address 1) entry } [] free := by
  have inTable := indices_lt address 0
  have tableFrame := isFrame_of_treeWalk wellFormed.rootFrame reached
  have noTable : ∀ frame above, treeWalk machine.memory root
      (indices address 1 :: walkPath address 3) ≠ .table frame above := by
    have leaf := leaf_of_present reached mapped
    rw [pagePath, walkPath_succ] at leaf
    rw [leaf]
    simp
  have sameTables := tableAt_writeLeaf wellFormed.rootFrame wellFormed.tree reached
    inTable (classify_of_leaf present (Or.inl (walkPath_length address 3).ge)) noTable
  refine
    { wellFormed := wellFormed.edit rfl rfl ?_ (isTree_congr wellFormed.tree sameTables) ?_
      sameBase := rfl
      counter := (Int32.sub_zero _).symm
      tables := fun path frame before => (sameTables path).trans before
      newTables := fun path frame after => Or.inl ((sameTables path).symm.trans after) }
  · intro frame member
    apply agreeOn_writeEntry tableFrame inTable
    rintro rfl
    exact wellFormed.notFree _ frame (tableAt_of_treeWalk reached) member
  · intro path frame after
    exact wellFormed.notFree path frame ((sameTables path).symm.trans after)

end WellFormed

end StarterKernel
