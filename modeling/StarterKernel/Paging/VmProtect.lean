import StarterKernel.Paging.VmMap

/-!
# Walking to a mapped page

`vm_protect` and `vm_unmap` share one walk: it fails at the first entry that is
not present and otherwise reaches the level 1 entry of the page.  On a page of
the lower half `vm_protect` changes the permissions of that entry alone.
-/

namespace StarterKernel

open RadixTree (Slot Walk)

variable {root table frame level address : Nat} {pool : Set Nat}
variable {machine after : Machine} {free : List Nat}
variable {entry : PtEntry} {entries links : List PtEntry}
variable {user writable executable : Bool}

/-- A walk that descends through present entries and fails at others either
fails or ends at the level 1 entry of the page. -/
theorem Owned.walk_loop
    (owned : Owned root pool machine free) (lower : LowerHalf address)
    (loop : Nat -> Nat -> Bool × Machine)
    (descends : ∀ level table, IsFrame table ->
      (entryAt machine.memory table (indices address (level + 2))).present = true ->
      loop (level + 2) (machine.ptov table) =
        loop (level + 1) (machine.ptov
          (entryAt machine.memory table (indices address (level + 2))).frame))
    (fails : ∀ level table, IsFrame table ->
      (entryAt machine.memory table (indices address (level + 1))).present = false ->
      loop (level + 1) (machine.ptov table) = (false, machine))
    (level : Nat) (bound : level ≤ 3)
    (reached : treeWalk machine.memory root (walkPath address (3 - level)) =
      .table table entries) :
    (treeWalk machine.memory root (pagePath address) = .fault ∧
        loop (level + 1) (machine.ptov table) = (false, machine)) ∨
      ∃ l1Table above,
        treeWalk machine.memory root (walkPath address 3) =
          .table l1Table above ∧
        (entryAt machine.memory l1Table (indices address 1)).present = true ∧
        treeWalk machine.memory root (pagePath address) =
          .leaf (entryAt machine.memory l1Table (indices address 1) :: above) ∧
        loop (level + 1) (machine.ptov table) = loop 1 (machine.ptov l1Table) := by
  induction level generalizing table entries with
  | zero =>
      have tableFrame := isFrame_of_treeWalk owned.rootFrame reached
      cases present : (entryAt machine.memory table (indices address 1)).present with
      | false =>
          exact Or.inl ⟨treeWalk_pagePath_of_absent bound reached present,
            fails 0 table tableFrame present⟩
      | true =>
          refine Or.inr ⟨table, entries, reached, present, ?_, rfl⟩
          rw [pagePath, walkPath_succ, treeWalk_cons, reached]
          simp only [RadixTree.Walk.step,
            classify_of_leaf present (Or.inl (walkPath_length address 3).ge)]
  | succ level inductionHypothesis =>
      have tableFrame := isFrame_of_treeWalk owned.rootFrame reached
      cases present :
          (entryAt machine.memory table (indices address (level + 2))).present with
      | false =>
          exact Or.inl ⟨treeWalk_pagePath_of_absent bound reached present,
            fails (level + 1) table tableFrame present⟩
      | true =>
          have deeper := owned.treeWalk_descend (lowerPath_slot bound lower)
            (by rw [walkPath_length]; omega) reached present
          rw [← walkPath_slot address bound,
            show 4 - (level + 1) = 3 - level by omega] at deeper
          rw [descends level table tableFrame present]
          exact inductionHypothesis (by omega) deeper

/-! ## `vm_protect` -/

/-- A leaf entry after `vm_protect`. -/
def protectedEntry (entry : PtEntry) (user writable executable : Bool) : PtEntry :=
  { entry with
    noExecute := !executable
    user := user
    writable := writable }

/-- `vm_protect` found the page mapped and changed its permissions. -/
structure Protected
    (root address : Nat) (user writable executable : Bool)
    (machine after : Machine) : Prop where
  footprint : MapFootprint root address machine after []
  sameFreelist : after.freelist = machine.freelist
  page : ∃ entry links,
    treeWalk machine.memory root (pagePath address) = .leaf (entry :: links) ∧
      (∀ link ∈ links, Permissive link) ∧
      treeWalk after.memory root (pagePath address) =
        .leaf (protectedEntry entry user writable executable :: links)

namespace Machine

section Rounds

variable (user writable executable)

theorem vmProtectLoop_descend
    (tableFrame : IsFrame table)
    (present :
      (entryAt machine.memory table (indices address (level + 2))).present = true) :
    machine.vmProtectLoop address user writable executable (level + 2)
        (machine.ptov table) =
      machine.vmProtectLoop address user writable executable (level + 1)
        (machine.ptov
          (entryAt machine.memory table (indices address (level + 2))).frame) := by
  have inTable := indices_lt address (level + 1)
  rw [vmProtectLoop]
  dsimp only
  rw [loadEntry_eq tableFrame inTable, if_pos present, if_neg (by omega)]

theorem vmProtectLoop_fails
    (tableFrame : IsFrame table)
    (absent :
      (entryAt machine.memory table (indices address (level + 1))).present = false) :
    machine.vmProtectLoop address user writable executable (level + 1)
        (machine.ptov table) = (false, machine) := by
  have inTable := indices_lt address level
  rw [vmProtectLoop]
  dsimp only
  rw [loadEntry_eq tableFrame inTable, if_neg (by simp [absent])]

theorem vmProtectLoop_mapped
    (tableFrame : IsFrame table)
    (present : (entryAt machine.memory table (indices address 1)).present = true) :
    machine.vmProtectLoop address user writable executable 1 (machine.ptov table) =
      (true, { machine with
        memory := writeEntry machine.memory table (indices address 1)
          (protectedEntry (entryAt machine.memory table (indices address 1)) user
            writable executable) }) := by
  have inTable := indices_lt address 0
  rw [vmProtectLoop]
  dsimp only
  rw [loadEntry_eq tableFrame inTable, if_pos present, if_pos rfl,
    modifyEntry_eq tableFrame inTable, invalidateTlb_eq]
  rfl

end Rounds

/-- `vm_protect` on the lower half: it changes the permissions of a mapped page
and nothing else, and fails on a page that is not mapped. -/
theorem vmProtect_spec
    (user writable executable : Bool)
    (owned : Owned root pool machine free) (lower : LowerHalf address) :
    (treeWalk machine.memory root (pagePath address) = .fault ∧
        machine.vmProtect root address user writable executable =
          (false, machine)) ∨
      ∃ after,
        machine.vmProtect root address user writable executable = (true, after) ∧
        Owned root pool after free ∧
        Protected root address user writable executable machine after := by
  have atRoot : treeWalk machine.memory root (walkPath address 0) =
      .table root [] := rfl
  have walk := owned.walk_loop lower
    (fun level table =>
      machine.vmProtectLoop address user writable executable level table)
    (fun _ _ => vmProtectLoop_descend user writable executable)
    (fun _ _ => vmProtectLoop_fails user writable executable)
    3 (le_refl 3) atRoot
  rcases walk with ⟨fault, fails⟩ | ⟨table, links, reached, present, leaf, run⟩
  · exact Or.inl ⟨fault, fails⟩
  have inTable := indices_lt address 0
  have lowerTable : LowerPath (walkPath address 3) :=
    (lowerPath_walkPath address 2).mpr lower
  have lowerPage : LowerPath (pagePath address) :=
    (lowerPath_walkPath address 3).mpr lower
  have tableReached := tableAt_of_treeWalk reached
  have tableFrame := isFrame_of_tableAt owned.rootFrame tableReached
  have size : (walkPath address 3).length = 3 := walkPath_length address 3
  have small : (entryAt machine.memory table (indices address 1)).pageSize = false :=
    owned.smallPages _ _ _ lowerTable tableReached
  have denotes : classify (walkPath address 3).length
      (protectedEntry (entryAt machine.memory table (indices address 1)) user
        writable executable) = .leaf :=
    classify_of_leaf present (Or.inl size.ge)
  obtain ⟨slotWalk, elsewhere⟩ := treeWalk_writeLeaf owned.rootFrame owned.tree
    reached inTable denotes
  have sameTables := tableAt_writeLeaf owned.rootFrame owned.tree reached inTable
    denotes (by rw [← walkPath_succ address 3, leaf]; simp)
  refine Or.inr ⟨_, run.trans (vmProtectLoop_mapped _ _ _ tableFrame present),
    owned.protect lowerPage size reached inTable present present rfl small, ?_⟩
  refine
    { footprint :=
        { sameBase := rfl
          sameCr3 := rfl
          sameWriteProtect := rfl
          elsewhere := ?_
          contents := ?_
          tables := fun path frame before => (sameTables path).trans before
          newTables := fun path frame reached =>
            Or.inl ((sameTables path).symm.trans reached)
          roles := by simp }
      sameFreelist := rfl
      page := ⟨_, links, leaf, owned.permissive _ table links lowerTable reached,
        slotWalk⟩ }
  · intro path pathSize otherPage
    apply elsewhere
    intro isSuffix
    apply otherPage
    refine (isSuffix.eq_of_length ?_).symm
    rw [List.length_cons, size, pathSize]
  · intro frame _ notTable
    have different : frame ≠ table := by
      rintro rfl
      exact notTable 3 tableReached
    exact agreeOn_writeEntry tableFrame inTable different

end Machine
end StarterKernel
