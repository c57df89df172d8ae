import StarterKernel.Exec.AddressSpace

/-!
# Memory outside the pool

The page table editors and the programs change the frames of the pool and the lower half
of the level 4 table only.  So what the bootloader or a device keeps elsewhere stays as
it is and where it is.
-/

namespace StarterKernel

variable {root : Nat} {pool : Set Nat} {free : List Nat} {machine after : Machine}

/-- The memory outside the frames of the pool and the level 4 table stays as it is and
where it is, and no table gets there. -/
structure OutsidePool (root : Nat) (pool : Set Nat) (machine after : Machine) : Prop where
  sameCr3 : after.cr3 = machine.cr3
  sameWriteProtect : after.writeProtect = machine.writeProtect
  upper : ∀ address, ¬LowerHalf address ->
    translation after.memory root address = translation machine.memory root address
  reserved : ∀ frame, frame ∉ pool -> frame ≠ root ->
    AgreeOn machine.memory after.memory frame
  tables : ∀ path frame, tableAt after.memory root path = some frame ->
    tableAt machine.memory root path = some frame ∨ frame ∈ pool

theorem OutsidePool.of_extends {rest : List Nat}
    (extend : Extends root pool machine after free rest)
    (tables : ∀ path frame, tableAt after.memory root path = some frame ->
      tableAt machine.memory root path = some frame ∨ frame ∈ pool) :
    OutsidePool root pool machine after :=
  ⟨extend.sameCr3, extend.sameWriteProtect, extend.upper, extend.reserved, tables⟩

/-- Walks through unchanged tables are the same. -/
theorem OutsidePool.of_treeWalk (sameCr3 : after.cr3 = machine.cr3)
    (sameWriteProtect : after.writeProtect = machine.writeProtect)
    (walks : ∀ path, treeWalk after.memory root path = treeWalk machine.memory root path)
    (reserved : ∀ frame, frame ∉ pool -> frame ≠ root ->
      AgreeOn machine.memory after.memory frame) :
    OutsidePool root pool machine after where
  sameCr3 := sameCr3
  sameWriteProtect := sameWriteProtect
  upper address _ := by rw [translation_eq, translation_eq, walks]
  reserved := reserved
  tables path frame reached := Or.inl (tableAt_congr (walks path) ▸ reached)

/-- Walks of the upper half stay, and there are none in the lower half. -/
theorem OutsidePool.of_unmapped (sameCr3 : after.cr3 = machine.cr3)
    (sameWriteProtect : after.writeProtect = machine.writeProtect)
    (lower : ∀ path, LowerPath path -> treeWalk after.memory root path = .fault)
    (upper : ∀ path, ¬LowerPath path ->
      treeWalk after.memory root path = treeWalk machine.memory root path)
    (reserved : ∀ frame, frame ∉ pool -> frame ≠ root ->
      AgreeOn machine.memory after.memory frame) :
    OutsidePool root pool machine after where
  sameCr3 := sameCr3
  sameWriteProtect := sameWriteProtect
  upper address isUpper := by
    rw [translation_eq, translation_eq, upper _ (mt (lowerPath_walkPath address 3).mp isUpper)]
  reserved := reserved
  tables path frame reached := by
    by_cases isLower : LowerPath path
    · have none : tableAt after.memory root path = none :=
        congrArg RadixTree.Walk.table? (lower path isLower)
      rw [none] at reached
      cases reached
    · exact Or.inl (tableAt_congr (upper path isLower) ▸ reached)

/-- Every step stays in the pool. -/
theorem Owned.step_outsidePool (owned : Owned root pool machine free)
    (step : Step root machine after) : OutsidePool root pool machine after := by
  cases step with
  | vmMap address usable writable executable lower =>
      obtain ⟨taken, _, split, _, footprint, _⟩ :=
        Machine.vmMap_spec usable writable executable owned lower
      obtain ⟨_, extend, _⟩ := owned.vmMap_extends usable writable executable lower
      refine .of_extends extend fun path frame reached => ?_
      exact (footprint.newTables path frame reached).imp_right fun new =>
        owned.freeInPool frame (split ▸ List.mem_append_left _ new.1)
  | vmProtect address user writable executable lower =>
      obtain ⟨extend, _⟩ := owned.vmProtect_extends user writable executable lower
      refine .of_extends extend fun path frame reached => Or.inl ?_
      rcases Machine.vmProtect_spec user writable executable owned lower with
        ⟨_, fails⟩ | ⟨changed, succeeds, _, isProtected⟩
      · rwa [fails] at reached
      · rw [succeeds] at reached
        exact (isProtected.footprint.newTables path frame reached).resolve_right fun new =>
          List.not_mem_nil new.1
  | unmapLowerHalf =>
      refine .of_unmapped (Machine.unmapLowerHalf_cr3 owned.rootFrame owned.tree)
        (Machine.unmapLowerHalf_writeProtect owned.rootFrame owned.tree)
        (fun _ lower => Machine.treeWalk_unmapLowerHalf_of_lower owned.rootFrame owned.tree lower)
        (fun _ upper => Machine.treeWalk_unmapLowerHalf_of_upper owned.rootFrame owned.tree upper)
        fun frame notPool notRoot => ?_
      refine Machine.agreeOn_unmapLowerHalf owned.rootFrame owned.tree notRoot fun member => ?_
      obtain ⟨path, lower, reached⟩ := mem_lowerTables.mp member
      exact notPool (owned.lowerTable path frame lower reached).1
  | userStore address value lower mapped translates user =>
      obtain ⟨entry, links, _, rfl, isPage⟩ := owned.leaf_of_translation lower translates
      have inPage := Owned.frameOf_physical entry address
      have pagePool := (owned.page _ _ ((lowerPath_walkPath address 3).mpr lower) isPage).1
      refine .of_treeWalk rfl rfl (owned.treeWalk_store fun position changed => ?_)
        fun frame notPool _ position inFrame => Function.update_of_ne ?_ _ _
      · have atStore : position = (pageTranslation entry address).physical := by
          by_contra different
          exact changed (Function.update_of_ne different _ _)
        refine ⟨pagePath address, (lowerPath_walkPath address 3).mpr lower, ?_⟩
        rw [atStore, inPage]
        exact isPage
      · rintro rfl
        exact notPool (inFrame ▸ inPage ▸ pagePool)

theorem OutsidePool.refl : OutsidePool root pool machine machine :=
  .of_treeWalk rfl rfl (fun _ => rfl) fun _ _ _ => AgreeOn.refl _ _

theorem OutsidePool.trans {later : Machine} (first : OutsidePool root pool machine after)
    (second : OutsidePool root pool after later) : OutsidePool root pool machine later where
  sameCr3 := second.sameCr3.trans first.sameCr3
  sameWriteProtect := second.sameWriteProtect.trans first.sameWriteProtect
  upper address isUpper := (second.upper address isUpper).trans (first.upper address isUpper)
  reserved frame notPool notRoot :=
    (first.reserved frame notPool notRoot).trans (second.reserved frame notPool notRoot)
  tables path frame reached :=
    (second.tables path frame reached).elim (first.tables path frame) Or.inr

/-- Every run stays in the pool. -/
theorem Owned.run_outsidePool {later : Machine} (owned : Owned root pool machine free)
    (run : Run root machine later) : OutsidePool root pool machine later := by
  induction run with
  | refl => exact .refl
  | tail run step inductionHypothesis =>
      obtain ⟨_, kept⟩ := owned.run run
      exact inductionHypothesis.trans (kept.step_outsidePool step)

/-- So does `mem_init`. -/
theorem Initialized.outsidePool {hdr : Stivale2Struct} {tag : Nat} {start : Machine}
    (initialized : Initialized hdr tag machine start free) :
    OutsidePool machine.cr3 (bootPool tag machine) machine start :=
  .of_unmapped initialized.sameCr3 initialized.sameWriteProtect initialized.lower
    initialized.upper initialized.contents

end StarterKernel
