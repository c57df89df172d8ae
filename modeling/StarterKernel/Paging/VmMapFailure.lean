import StarterKernel.Paging.VmMapExact
import StarterKernel.Paging.WellFormed

/-!
# What a failed `vm_map` leaves

When the frames run out in the middle of a walk, the tables linked so far stay and
the freelist is used up.  `vm_map` undoes nothing, so it fails without a trace only
where it did not take a frame.
-/

namespace StarterKernel

open RadixTree (Slot Walk)

variable {root address : Nat} {pool : Set Nat} {machine : Machine} {free : List Nat}

/-- A run that fails although there was a frame used it up. -/
theorem WellFormed.vmMap_changes
    (usable writable executable : Bool)
    (wellFormed : WellFormed root machine free)
    (small : SmallWalk machine.memory root address)
    (vacant : treeWalk machine.memory root (pagePath address) = .fault)
    (nonempty : free ≠ [])
    (tooFew : usableCount free < framesNeeded machine.memory root address) :
    let result := machine.vmMap root address usable writable executable
    result.1 = false ∧
      ¬(result.2.memory = machine.memory ∧ result.2.freelist = machine.freelist) := by
  intro result
  have run := wellFormed.vmMap usable writable executable small
  have failed : result.1 = false := by
    rw [← Bool.not_eq_true, run.succeeds vacant, not_le]
    exact tooFew
  refine ⟨failed, ?_⟩
  rintro ⟨sameMemory, sameHead⟩
  obtain ⟨taken, rest, split, took⟩ := run.took
  have unchanged : WellFormed root machine rest :=
    took.wellFormed.congr took.sameBase.symm sameHead.symm sameMemory.symm
  have drained : rest = free.drop (usableCount free + 1) := by
    refine took.wellFormed.freelist.unique (run.drained vacant failed)
      took.wellFormed.poolFrame ?_
    intro frame member
    rw [took.sameBase]
    exact wellFormed.poolFrame frame (List.mem_of_mem_drop member)
  have length := congrArg List.length (wellFormed.free_unique unchanged)
  have positive := List.length_pos_iff.mpr nonempty
  rw [drained, List.length_drop] at length
  omega

/-- A failed `vm_map` leaves memory, the freelist and the counter as they were if and
only if the page was mapped already, no frame was free, or there were enough. -/
theorem failed_vm_map_changes_nothing_iff
    {root address : Nat} {machine : Machine} {free : List Nat}
    (usable writable executable : Bool)
    (wellFormed : WellFormed root machine free)
    (small : SmallWalk machine.memory root address) :
    let result := machine.vmMap root address usable writable executable
    (result.1 = false ->
      result.2.memory = machine.memory ∧ result.2.freelist = machine.freelist ∧
        result.2.freePageCounter = machine.freePageCounter) ↔
      translation machine.memory root address ≠ none ∨ free = [] ∨
        framesNeeded machine.memory root address ≤ usableCount free := by
  intro result
  have run := wellFormed.vmMap usable writable executable small
  rw [ne_eq, wellFormed.translation_eq_none_iff small]
  constructor
  · intro unchanged
    by_contra otherwise
    simp only [not_or, not_not, not_le] at otherwise
    obtain ⟨vacant, nonempty, tooFew⟩ := otherwise
    obtain ⟨failed, changed⟩ := wellFormed.vmMap_changes usable writable executable small
      vacant nonempty tooFew
    obtain ⟨sameMemory, sameHead, _⟩ := unchanged failed
    exact changed ⟨sameMemory, sameHead⟩
  · intro condition failed
    by_cases vacant : treeWalk machine.memory root (pagePath address) = .fault
    · rcases condition with isMapped | empty | enough
      · exact absurd vacant isMapped
      · have printed : result.2 = machine.kprintf "No free space, sorry :(\n" :=
          run.exhausted vacant empty
        rw [printed]
        exact ⟨rfl, rfl, rfl⟩
      · have succeeds : result.1 = true := (run.succeeds vacant).mpr enough
        rw [failed] at succeeds
        cases succeeds
    · have same : result = (false, machine) := run.mapped vacant
      rw [same]
      exact ⟨rfl, rfl, rfl⟩

/-- Mapping a page of a user program after boot. -/
theorem failed_vm_map_changes_nothing_iff_bootMachine :
    ∃ start free, (bootMachine (bootContent [])).memInit (bootHdr []) = some start ∧
      start.FreelistIs free ∧
      (((start.vmMap bootRoot 0x400000 true true false).1 = false ->
        (start.vmMap bootRoot 0x400000 true true false).2.memory = start.memory ∧
        (start.vmMap bootRoot 0x400000 true true false).2.freelist = start.freelist ∧
        (start.vmMap bootRoot 0x400000 true true false).2.freePageCounter =
          start.freePageCounter) ↔
        translation start.memory bootRoot 0x400000 ≠ none ∨ free = [] ∨
          framesNeeded start.memory bootRoot 0x400000 ≤ usableCount free) := by
  obtain ⟨start, free, init, initialized, _⟩ := boot_initialized [] []
  have owned : Owned bootRoot (bootPool bootTag (bootMachine (bootContent []))) start
      free := initialized.owned
  exact ⟨start, free, init, owned.freelist,
    failed_vm_map_changes_nothing_iff true true false owned.wellFormed
      (owned.smallWalk (by decide))⟩

/-- Calls of `pmem_alloc` take frames off the freelist and keep memory. -/
theorem Owned.iterate_pmemAlloc {count : Nat}
    (owned : Owned root pool machine free) (enough : count ≤ free.length) :
    Owned root pool ((fun machine : Machine => machine.pmemAlloc.2)^[count] machine)
        (free.drop count) ∧
      ((fun machine : Machine => machine.pmemAlloc.2)^[count] machine).memory =
        machine.memory := by
  induction count generalizing machine free with
  | zero => exact ⟨owned, rfl⟩
  | succ count inductionHypothesis =>
      obtain ⟨fresh, rest, rfl⟩ := List.exists_cons_of_length_pos
        (show 0 < free.length by omega)
      rw [List.length_cons] at enough
      have allocated := (Machine.pmemAlloc_cons owned.freelist (owned.isFrame (by simp))).1
      rw [Function.iterate_succ_apply, allocated, List.drop_succ_cons]
      exact inductionHypothesis owned.popped (by omega)

/-- With one free frame left, `vm_map` fails on the first page of a user program and
the frame is gone. -/
theorem failed_vm_map_takes_last_frame :
    ∃ start count frame,
      (bootMachine (bootContent [])).memInit (bootHdr []) = some start ∧
      let before := (fun machine : Machine => machine.pmemAlloc.2)^[count] start
      before.FreelistIs [frame] ∧
      (before.vmMap bootRoot 0x400000 true true false).1 = false ∧
      (before.vmMap bootRoot 0x400000 true true false).2.FreelistIs [] := by
  obtain ⟨start, free, init, initialized, noZero, many⟩ := boot_initialized [] []
  have owned : Owned bootRoot (bootPool bootTag (bootMachine (bootContent []))) start
      free := initialized.owned
  have lower : LowerHalf 0x400000 := by decide
  obtain ⟨kept, sameMemory⟩ :=
    owned.iterate_pmemAlloc (show free.length - 1 ≤ free.length by omega)
  obtain ⟨frame, last⟩ : ∃ frame, free.drop (free.length - 1) = [frame] := by
    apply List.length_eq_one_iff.mp
    rw [List.length_drop]
    omega
  have nonzero : frame ≠ 0 := by
    rintro rfl
    exact noZero (List.mem_of_mem_drop (last ▸ List.mem_singleton_self 0))
  have fault : ∀ depth, treeWalk start.memory bootRoot (walkPath 0x400000 (depth + 1)) =
      .fault := fun depth => initialized.lower _ ((lowerPath_walkPath _ depth).mpr lower)
  have noTable : ∀ depth, tableAt start.memory bootRoot (walkPath 0x400000 (depth + 1)) =
      none := fun depth => congrArg Walk.table? (fault depth)
  have needed : missingTables start.memory bootRoot 0x400000 3 = 3 := by
    simp [missingTables, noTable]
  have single : usableCount [frame] = 1 := by
    rw [usableCount_cons nonzero, usableCount_nil]
  rw [last] at kept
  have run := kept.wellFormed.vmMap true true false (kept.smallWalk lower)
  have failed : (((fun machine : Machine => machine.pmemAlloc.2)^[free.length - 1]
      start).vmMap bootRoot 0x400000 true true false).1 = false := by
    rw [← Bool.not_eq_true, run.succeeds (by rw [sameMemory]; exact fault 3), sameMemory,
      needed, single]
    omega
  refine ⟨start, free.length - 1, frame, init, kept.freelist, failed, ?_⟩
  have drained := run.drained (by rw [sameMemory]; exact fault 3) failed
  rw [single] at drained
  exact drained

end StarterKernel
