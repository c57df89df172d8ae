import StarterKernel.Paging.UnmapLowerHalf
import StarterKernel.Paging.BootTables

/-!
# What `unmap_lower_half` leaves behind

No address of the lower half translates afterwards, the upper half is as before,
the page tables of the lower half are on the freelist, and nothing else in
memory changes.
-/

namespace StarterKernel
namespace Machine

variable {machine : Machine} {root table index frame : Nat} {visited : List Nat}

/-! ## The cleared level 4 entries -/

/-- A fold keeps what its body keeps. -/
theorem foldl_keeps {α σ ι : Type} {body : σ -> ι -> σ} (project : σ -> α)
    (keeps : ∀ state index, project (body state index) = project state)
    (visited : List ι) (state : σ) :
    project (visited.foldl body state) = project state := by
  induction visited generalizing state with
  | nil => rfl
  | cons index visited inductionHypothesis =>
      rw [List.foldl_cons, inductionHypothesis, keeps]

@[simp] theorem foldl_clearL4Entry_hhdmBase :
    (visited.foldl (clearL4Entry root) machine).hhdmBase = machine.hhdmBase :=
  foldl_keeps Machine.hhdmBase (fun _ _ => clearL4Entry_hhdmBase) visited machine

@[simp] theorem foldl_clearL4Entry_freelist :
    (visited.foldl (clearL4Entry root) machine).freelist = machine.freelist :=
  foldl_keeps Machine.freelist (fun _ _ => clearL4Entry_freelist) visited machine

theorem entryAt_foldl_clearL4Entry
    (rootFrame : IsFrame root) (inTable : ∀ index ∈ visited, index < 512)
    (tableFrame : IsFrame table) :
    entryAt (visited.foldl (clearL4Entry root) machine).memory table index =
      if table = root ∧ index ∈ visited then
        { entryAt machine.memory root index with present := false }
      else entryAt machine.memory table index := by
  induction visited generalizing machine with
  | nil => simp
  | cons first visited inductionHypothesis =>
      simp only [List.mem_cons, forall_eq_or_imp] at inTable
      rw [List.foldl_cons, inductionHypothesis inTable.2,
        entryAt_clearL4Entry rootFrame inTable.1 rootFrame,
        entryAt_clearL4Entry rootFrame inTable.1 tableFrame]
      by_cases isRoot : table = root
      · subst isRoot
        by_cases isFirst : index = first
        · subst isFirst
          simp
        · simp [isFirst]
      · simp [isRoot]

/-- Clearing level 4 entries writes inside these entries only. -/
theorem foldl_clearL4Entry_memory_of_outside
    (rootFrame : IsFrame root) (inTable : ∀ index ∈ visited, index < 512)
    {position : Nat}
    (outside : ∀ index ∈ visited,
      position < root + 8 * index ∨ root + 8 * index + 8 ≤ position) :
    (visited.foldl (clearL4Entry root) machine).memory position =
      machine.memory position := by
  induction visited generalizing machine with
  | nil => rfl
  | cons first visited inductionHypothesis =>
      simp only [List.mem_cons, forall_eq_or_imp] at inTable outside
      rw [List.foldl_cons, inductionHypothesis inTable.2 outside.2,
        clearL4Entry_memory_of_outside rootFrame inTable.1 outside.1]

theorem agreeOn_foldl_clearL4Entry
    (rootFrame : IsFrame root) (inTable : ∀ index ∈ visited, index < 512)
    (different : frame ≠ root) :
    AgreeOn machine.memory (visited.foldl (clearL4Entry root) machine).memory
      frame := by
  intro position inFrame
  apply foldl_clearL4Entry_memory_of_outside rootFrame inTable
  intro index member
  have := inTable index member
  by_contra inside
  apply different
  rw [← inFrame, frameOf_eq_iff rootFrame]
  omega

theorem lower_lt_tableSize : ∀ index ∈ List.range 256, index < 512 := by
  intro index member
  have := List.mem_range.mp member
  omega

/-! ## The page tables afterwards -/

/-- What the two elementary operations keep, `unmap_lower_half` keeps. -/
theorem unmapLowerHalf_keeps {α : Type} (project : Machine -> α)
    (clears : ∀ machine index,
      project (clearL4Entry root machine index) = project machine)
    (frees : ∀ (machine : Machine) frame,
      project (machine.pmemFree frame) = project machine)
    (rootFrame : IsFrame root) (tree : IsTree machine.memory root) :
    project (machine.unmapLowerHalf root) = project machine := by
  rw [unmapLowerHalf_eq rootFrame tree, foldl_keeps project frees,
    foldl_keeps project clears]

theorem unmapLowerHalf_hhdmBase
    (rootFrame : IsFrame root) (tree : IsTree machine.memory root) :
    (machine.unmapLowerHalf root).hhdmBase = machine.hhdmBase :=
  unmapLowerHalf_keeps Machine.hhdmBase (fun _ _ => clearL4Entry_hhdmBase)
    (fun _ _ => rfl) rootFrame tree

theorem unmapLowerHalf_cr3
    (rootFrame : IsFrame root) (tree : IsTree machine.memory root) :
    (machine.unmapLowerHalf root).cr3 = machine.cr3 :=
  unmapLowerHalf_keeps Machine.cr3 (fun _ _ => clearL4Entry_cr3)
    (fun _ _ => rfl) rootFrame tree

theorem unmapLowerHalf_writeProtect
    (rootFrame : IsFrame root) (tree : IsTree machine.memory root) :
    (machine.unmapLowerHalf root).writeProtect = machine.writeProtect :=
  unmapLowerHalf_keeps Machine.writeProtect (fun _ _ => clearL4Entry_writeProtect)
    (fun _ _ => rfl) rootFrame tree

theorem not_mem_lowerTables_root (tree : IsTree machine.memory root) :
    root ∉ lowerTables machine.memory root := by
  intro member
  exact (List.nodup_append.mp (nodup_lowerTables tree)).2.2 root member root
    (by simp) rfl

/-- The entries of the tables that stay. -/
theorem entryAt_unmapLowerHalf
    (rootFrame : IsFrame root) (tree : IsTree machine.memory root)
    (tableFrame : IsFrame table) (kept : table ∉ lowerTables machine.memory root) :
    entryAt (machine.unmapLowerHalf root).memory table index =
      if table = root ∧ index < 256 then
        { entryAt machine.memory root index with present := false }
      else entryAt machine.memory table index := by
  have freed : ∀ frame ∈ lowerTables machine.memory root, IsFrame frame :=
    fun _ member => isFrame_of_mem_lowerTables member
  rw [unmapLowerHalf_eq rootFrame tree,
    (agreeOn_foldl_pmemFree freed kept).entryAt_eq tableFrame,
    entryAt_foldl_clearL4Entry rootFrame lower_lt_tableSize tableFrame]
  simp only [List.mem_range]

/-- Frames other than the root and the freed tables keep their contents. -/
theorem agreeOn_unmapLowerHalf
    (rootFrame : IsFrame root) (tree : IsTree machine.memory root)
    (notRoot : frame ≠ root) (kept : frame ∉ lowerTables machine.memory root) :
    AgreeOn machine.memory (machine.unmapLowerHalf root).memory frame := by
  rw [unmapLowerHalf_eq rootFrame tree]
  exact (agreeOn_foldl_clearL4Entry rootFrame lower_lt_tableSize notRoot).trans
    (agreeOn_foldl_pmemFree (fun _ member => isFrame_of_mem_lowerTables member) kept)

/-- Nothing is mapped in the lower half any more. -/
theorem treeWalk_unmapLowerHalf_of_lower
    (rootFrame : IsFrame root) (tree : IsTree machine.memory root)
    {path : List Nat} (lower : LowerPath path) :
    treeWalk (machine.unmapLowerHalf root).memory root path = .fault := by
  obtain ⟨above, top, rfl, small⟩ := lowerPath_iff_append.mp lower
  apply RadixTree.walk_append_of_fault
  have cleared :
      (entryAt (machine.unmapLowerHalf root).memory root top).present = false := by
    rw [entryAt_unmapLowerHalf rootFrame tree rootFrame
      (not_mem_lowerTables_root tree), if_pos ⟨rfl, small⟩]
  rw [RadixTree.walk_cons, RadixTree.walk_nil]
  simp only [RadixTree.Walk.step, classify_of_absent cleared]

/-- The upper half is resolved as before. -/
theorem treeWalk_unmapLowerHalf_of_upper
    (rootFrame : IsFrame root) (tree : IsTree machine.memory root)
    {path : List Nat} (upper : ¬LowerPath path) :
    treeWalk (machine.unmapLowerHalf root).memory root path =
      treeWalk machine.memory root path := by
  apply RadixTree.walk_congr
  intro index above frame isSuffix reached
  have staysUpper : ∀ tail, tail <:+ path -> ¬LowerPath tail := by
    rintro tail ⟨deeper, rfl⟩ lower
    have nonempty : tail ≠ [] := by
      rintro rfl
      exact not_lowerPath_nil lower
    exact upper ((lowerPath_append deeper nonempty).mpr lower)
  have kept : frame ∉ lowerTables machine.memory root := by
    intro member
    obtain ⟨lowerAbove, lower, again⟩ := mem_lowerTables.mp member
    obtain rfl : above = lowerAbove := tree _ _ _ reached again
    exact staysUpper above ((List.suffix_cons index above).trans isSuffix) lower
  rw [entryAt_unmapLowerHalf rootFrame tree (isFrame_of_tableAt rootFrame reached)
    kept, if_neg]
  rintro ⟨rfl, small⟩
  obtain rfl : above = [] := tree _ _ _ reached RadixTree.tableAt_nil
  exact staysUpper [index] isSuffix (lowerPath_singleton.mpr small)

theorem tableAt_unmapLowerHalf
    (rootFrame : IsFrame root) (tree : IsTree machine.memory root)
    (path : List Nat) :
    tableAt (machine.unmapLowerHalf root).memory root path = some frame ↔
      ¬LowerPath path ∧ tableAt machine.memory root path = some frame := by
  unfold tableAt RadixTree.tableAt
  by_cases lower : LowerPath path
  · have fault := treeWalk_unmapLowerHalf_of_lower rootFrame tree lower
    unfold treeWalk at fault
    simp [fault, lower, RadixTree.Walk.table?]
  · have same := treeWalk_unmapLowerHalf_of_upper rootFrame tree lower
    unfold treeWalk at same
    simp [same, lower]

theorem isTree_unmapLowerHalf
    (rootFrame : IsFrame root) (tree : IsTree machine.memory root) :
    IsTree (machine.unmapLowerHalf root).memory root := by
  intro left right frame leftReached rightReached
  exact tree left right frame
    ((tableAt_unmapLowerHalf rootFrame tree left).mp leftReached).2
    ((tableAt_unmapLowerHalf rootFrame tree right).mp rightReached).2

/-! ## The freelist and memory afterwards -/

/-- The tables of the lower half are pushed on the freelist. -/
theorem freelistIs_unmapLowerHalf
    {free : List Nat}
    (rootFrame : IsFrame root) (tree : IsTree machine.memory root)
    (freelist : machine.FreelistIs free)
    (freeFrames : ∀ frame ∈ free, IsFrame frame)
    (rootNotFree : root ∉ free)
    (direct : ∀ frame ∈ lowerTables machine.memory root,
      DirectMapped machine.hhdmBase frame)
    (notFree : ∀ frame ∈ lowerTables machine.memory root, frame ∉ free) :
    (machine.unmapLowerHalf root).FreelistIs
      ((lowerTables machine.memory root).reverse ++ free) := by
  have cleared : ((List.range 256).foldl (clearL4Entry root) machine).FreelistIs
      free := by
    apply freelist.congr freeFrames foldl_clearL4Entry_hhdmBase
      foldl_clearL4Entry_freelist
    intro frame member
    apply agreeOn_foldl_clearL4Entry rootFrame lower_lt_tableSize
    rintro rfl
    exact rootNotFree member
  rw [unmapLowerHalf_eq rootFrame tree]
  apply cleared.foldl_pmemFree freeFrames
  · intro frame member
    rw [foldl_clearL4Entry_hhdmBase]
    exact ⟨isFrame_of_mem_lowerTables member, direct frame member⟩
  · exact (List.nodup_append.mp (nodup_lowerTables tree)).1
  · exact notFree

theorem foldl_pmemFree_memory_of_outside
    {freed : List Nat} (allFrames : ∀ frame ∈ freed, IsFrame frame)
    {position : Nat}
    (outside : ∀ frame ∈ freed, position < frame ∨ frame + 8 ≤ position) :
    (freed.foldl pmemFree machine).memory position = machine.memory position := by
  induction freed generalizing machine with
  | nil => rfl
  | cons frame freed inductionHypothesis =>
      simp only [List.mem_cons, forall_eq_or_imp] at allFrames outside
      rw [List.foldl_cons, inductionHypothesis allFrames.2 outside.2,
        pmemFree_eq allFrames.1]
      exact ByteMemory.store_outside outside.1

/-- Memory changes in the lower half of the level 4 table and in the first words
of the freed tables only. -/
theorem unmapLowerHalf_memory_of_outside
    (rootFrame : IsFrame root) (tree : IsTree machine.memory root)
    {position : Nat} (outsideRoot : position < root ∨ root + 8 * 256 ≤ position)
    (outsideFreed : ∀ frame ∈ lowerTables machine.memory root,
      position < frame ∨ frame + 8 ≤ position) :
    (machine.unmapLowerHalf root).memory position = machine.memory position := by
  rw [unmapLowerHalf_eq rootFrame tree, foldl_pmemFree_memory_of_outside
    (fun _ member => isFrame_of_mem_lowerTables member) outsideFreed]
  apply foldl_clearL4Entry_memory_of_outside rootFrame lower_lt_tableSize
  intro index member
  have := List.mem_range.mp member
  omega

/-- `unmap_lower_half` reclaims exactly the page tables of the lower half. -/
theorem unmapLowerHalf_reclaims
    {machine : Machine} {root : Nat} {free : List Nat}
    (rootFrame : IsFrame root)
    (tree : IsTree machine.memory root)
    (freelist : machine.FreelistIs free)
    (freeFrames : ∀ frame ∈ free, IsFrame frame)
    (notFree : ∀ path frame,
      tableAt machine.memory root path = some frame -> frame ∉ free)
    (direct : ∀ path frame, LowerPath path ->
      tableAt machine.memory root path = some frame ->
      DirectMapped machine.hhdmBase frame) :
    (∀ address, LowerHalf address ->
      translation (machine.unmapLowerHalf root).memory root address = none) ∧
    (∀ address, ¬LowerHalf address ->
      translation (machine.unmapLowerHalf root).memory root address =
        translation machine.memory root address) ∧
    ∃ pushed : List Nat,
      (machine.unmapLowerHalf root).FreelistIs (pushed ++ free) ∧
      pushed.Nodup ∧
      (∀ frame, frame ∈ pushed ↔
        ∃ path, LowerPath path ∧ tableAt machine.memory root path = some frame) ∧
      root ∉ pushed ∧
      (∀ path frame, ¬LowerPath path ->
        tableAt machine.memory root path = some frame -> frame ∉ pushed) ∧
      (∀ path entry above, treeWalk machine.memory root path =
          .leaf (entry :: above) ->
        (∀ tablePath, tableAt machine.memory root tablePath ≠ some entry.frame) ->
        entry.frame ∉ pushed) ∧
      (∀ index < 256,
        entryAt (machine.unmapLowerHalf root).memory root index =
          { entryAt machine.memory root index with present := false }) ∧
      ∀ position,
        (position < root ∨ root + 8 * 256 ≤ position) ->
        (∀ frame ∈ pushed, position < frame ∨ frame + 8 ≤ position) ->
        (machine.unmapLowerHalf root).memory position =
          machine.memory position := by
  have pushedIff : ∀ frame, frame ∈ (lowerTables machine.memory root).reverse ↔
      ∃ path, LowerPath path ∧ tableAt machine.memory root path = some frame := by
    intro frame
    rw [List.mem_reverse, mem_lowerTables]
  have lowerDirect : ∀ frame ∈ lowerTables machine.memory root,
      DirectMapped machine.hhdmBase frame := by
    intro frame member
    obtain ⟨path, lower, reached⟩ := mem_lowerTables.mp member
    exact direct path frame lower reached
  have lowerNotFree : ∀ frame ∈ lowerTables machine.memory root, frame ∉ free := by
    intro frame member
    obtain ⟨path, _, reached⟩ := mem_lowerTables.mp member
    exact notFree path frame reached
  refine ⟨?_, ?_, (lowerTables machine.memory root).reverse,
    freelistIs_unmapLowerHalf rootFrame tree freelist freeFrames
      (notFree [] root RadixTree.tableAt_nil) lowerDirect lowerNotFree,
    List.nodup_reverse.mpr (List.nodup_append.mp (nodup_lowerTables tree)).1,
    pushedIff, ?_, ?_, ?_, ?_, ?_⟩
  · intro address lower
    rw [translation_eq, treeWalk_unmapLowerHalf_of_lower rootFrame tree
      ((lowerPath_walkPath address 3).mpr lower)]
    rfl
  · intro address upper
    rw [translation_eq, translation_eq,
      treeWalk_unmapLowerHalf_of_upper rootFrame tree
        (mt (lowerPath_walkPath address 3).mp upper)]
  · rw [List.mem_reverse]
    exact not_mem_lowerTables_root tree
  · intro path frame upper reached member
    obtain ⟨lowerPath, lower, again⟩ := (pushedIff frame).mp member
    obtain rfl : path = lowerPath := tree _ _ _ reached again
    exact upper lower
  · intro path entry above _ notTable member
    obtain ⟨tablePath, _, reached⟩ := (pushedIff entry.frame).mp member
    exact notTable tablePath reached
  · intro index small
    rw [entryAt_unmapLowerHalf rootFrame tree rootFrame
      (not_mem_lowerTables_root tree), if_pos ⟨rfl, small⟩]
  · intro position outsideRoot outsideFreed
    apply unmapLowerHalf_memory_of_outside rootFrame tree outsideRoot
    intro frame member
    exact outsideFreed frame (List.mem_reverse.mpr member)

/-- The identity map of a bootloader is reclaimed. -/
theorem unmapLowerHalf_reclaims_bootMachine :
    let machine := { bootMachine (fun _ => 0) with hhdmBase := bootHhdmBase }
    ∃ pushed : List Nat,
      (machine.unmapLowerHalf bootRoot).FreelistIs (pushed ++ []) ∧
        bootLowerTable ∈ pushed := by
  intro machine
  have tree : IsTree machine.memory bootRoot := isTree_bootMemory fun _ => 0
  have empty : machine.FreelistIs [] := rfl
  have direct : ∀ path frame, LowerPath path ->
      tableAt machine.memory bootRoot path = some frame ->
      DirectMapped machine.hhdmBase frame := by
    intro path frame _ reached
    rcases mem_of_tableAt_bootMemory reached with ⟨rfl, _⟩ | ⟨rfl, _⟩ | ⟨rfl, _⟩ <;>
      exact ⟨by decide, by decide⟩
  obtain ⟨-, -, pushed, freelist, -, pushedIff, -⟩ :=
    unmapLowerHalf_reclaims isFrame_bootRoot tree empty (by simp) (by simp) direct
  refine ⟨pushed, freelist, (pushedIff bootLowerTable).mpr ⟨[0], ?_, ?_⟩⟩
  · exact lowerPath_singleton.mpr (by decide)
  · exact (bootMemory_tree _).2 [0]

end Machine
end StarterKernel
