import StarterKernel.Paging.Allocator

/-!
# Reclaiming the lower half

`unmap_lower_half` frees the page tables below the level 4 entries 0 to 255
while it walks them.  Its inner loops are the generic post-order reclamation of
a radix tree, so the whole function clears the present bits of those entries and
frees the tables below them in post-order, each once.
-/

namespace StarterKernel

open RadixTree (Slot Walk)

/-- The page tables below the lower half of the level 4 table, in the order in
which `unmap_lower_half` frees them. -/
def lowerTables (memory : Nat -> UInt8) (root : Nat) : List Nat :=
  (List.range 256).flatMap
    (RadixTree.slotTables classify (entryAt memory) (List.range 512) 2 0 root)

variable {memory other : Nat -> UInt8} {root frame : Nat}

theorem classify_complete (memory : Nat -> UInt8) :
    ∀ depth frame index next,
      classify depth (entryAt memory frame index) = .table next ->
      index ∈ List.range 512 := by
  intro depth frame index next slot
  rw [List.mem_range]
  exact index_lt_of_classify slot

theorem classify_isFrame :
    ∀ (depth : Nat) (entry : PtEntry) (next : Nat),
      classify depth entry = .table next -> IsFrame next := by
  intro depth entry next slot
  rw [← (table_of_classify slot).2]
  exact ⟨entry.frame_mod, entry.frame_lt⟩

/-- Tables sit at most three levels below the level 4 table. -/
theorem length_le_of_tableAt {path : List Nat}
    (reached : tableAt memory root path = some frame) : path.length ≤ 3 := by
  cases path with
  | nil => simp
  | cons index path =>
      obtain ⟨parent, _, slot⟩ := RadixTree.tableAt_cons.mp reached
      by_contra deep
      simp only [List.length_cons] at deep
      unfold classify at slot
      split at slot
      · cases slot
      · split at slot
        · cases slot
        · next notLast => simp at notLast; omega

theorem lowerPath_iff_append {path : List Nat} :
    LowerPath path ↔ ∃ above top, path = above ++ [top] ∧ top < 256 := by
  constructor
  · rintro ⟨top, last, small⟩
    exact ⟨path.dropLast, top, (List.dropLast_append_getLast? top last).symm, small⟩
  · rintro ⟨above, top, rfl, small⟩
    exact ⟨top, by simp, small⟩

/-- The tables below the lower half are the tables at lower paths. -/
theorem mem_lowerTables :
    frame ∈ lowerTables memory root ↔
      ∃ path, LowerPath path ∧ tableAt memory root path = some frame := by
  have inSlot (top : Nat) :
      frame ∈ RadixTree.slotTables classify (entryAt memory) (List.range 512) 2
          ([] : List Nat).length root top ↔
        ∃ above, above.length ≤ 2 ∧
          tableAt memory root (above ++ [top]) = some frame :=
    RadixTree.mem_slotTables_iff (classify_complete memory) RadixTree.tableAt_nil
  unfold lowerTables
  rw [List.mem_flatMap]
  constructor
  · rintro ⟨top, small, member⟩
    rw [List.mem_range] at small
    obtain ⟨above, _, reached⟩ := (inSlot top).mp member
    exact ⟨above ++ [top], lowerPath_iff_append.mpr ⟨above, top, rfl, small⟩,
      reached⟩
  · rintro ⟨path, lower, reached⟩
    obtain ⟨above, top, rfl, small⟩ := lowerPath_iff_append.mp lower
    have short := length_le_of_tableAt reached
    simp only [List.length_append, List.length_singleton] at short
    exact ⟨top, List.mem_range.mpr small,
      (inSlot top).mpr ⟨above, by omega, reached⟩⟩

/-- In a tree the lower tables are distinct from each other and from the root. -/
theorem nodup_lowerTables (tree : IsTree memory root) :
    (lowerTables memory root ++ [root]).Nodup := by
  have whole := RadixTree.nodup_postorder List.nodup_range
    (classify_complete memory) tree (2 + 1) RadixTree.tableAt_nil
  rw [RadixTree.postorder_succ] at whole
  have lower : (List.range 256).Sublist (List.range 512) :=
    List.range_sublist.mpr (by omega)
  exact whole.sublist ((lower.flatMap _).append_right [root])

theorem isFrame_of_mem_lowerTables
    (member : frame ∈ lowerTables memory root) : IsFrame frame := by
  obtain ⟨top, _, inSlot⟩ := List.mem_flatMap.mp member
  exact RadixTree.valid_of_mem_slotTables classify_isFrame inSlot

/-- Two loops agree if their bodies agree in every state that satisfies an
invariant of the second one. -/
theorem foldl_congr_of_invariant
    {σ : Type} (invariant : σ -> Prop) {body other : σ -> Nat -> σ}
    {visited : List Nat}
    (step : ∀ state, ∀ index ∈ visited, invariant state ->
      body state index = other state index ∧ invariant (other state index))
    {state : σ} (start : invariant state) :
    visited.foldl body state = visited.foldl other state ∧
      invariant (visited.foldl other state) := by
  induction visited generalizing state with
  | nil => exact ⟨rfl, start⟩
  | cons index visited inductionHypothesis =>
      obtain ⟨same, kept⟩ := step state index (by simp) start
      rw [List.foldl_cons, List.foldl_cons, same]
      exact inductionHypothesis
        (fun state index member =>
          step state index (List.mem_cons_of_mem _ member)) kept

/-- At levels 2 and 3 an entry denotes a table when it is present and not a
large page, which is what `unmap_lower_half` tests. -/
theorem classify_inner {depth : Nat} (inner : 0 < depth) (notLast : depth < 3)
    (entry : PtEntry) :
    ((entry.present && !entry.pageSize) = true ∧
        classify depth entry = .table entry.frame) ∨
      ((entry.present && !entry.pageSize) = false ∧
        ∀ frame, classify depth entry ≠ .table frame) := by
  cases present : entry.present with
  | false => exact Or.inr ⟨rfl, by simp [classify_of_absent present]⟩
  | true =>
      cases large : entry.pageSize with
      | false =>
          have notLeaf : ¬(3 ≤ depth ∨ 0 < depth ∧ entry.pageSize = true) := by
            rintro (deep | ⟨_, isLarge⟩)
            · omega
            · exact absurd (large.symm.trans isLarge) (by decide)
          exact Or.inl ⟨rfl, classify_of_table present notLeaf⟩
      | true =>
          exact Or.inr ⟨rfl, by simp [classify_of_leaf present (Or.inr ⟨inner, large⟩)]⟩

namespace Machine

variable {machine : Machine} {l3Table l2Table : Nat}

/-- The reclamation of the page tables below one slot. -/
abbrev reclaimSlot (levels depth table : Nat) (machine : Machine) (index : Nat) :
    Machine :=
  RadixTree.reclaimSlot classify PtEntry.frame (fun machine => entryAt machine.memory)
    pmemFree (List.range 512) levels depth table machine index

/-- The reclamation of the page tables below a table. -/
abbrev reclaimTables (levels depth table : Nat) (machine : Machine) : Machine :=
  RadixTree.reclaim classify PtEntry.frame (fun machine => entryAt machine.memory)
    pmemFree (List.range 512) levels depth table machine

theorem reclaimTables_zero (depth table : Nat) (machine : Machine) :
    reclaimTables 0 depth table machine = machine := rfl

theorem reclaimSlot_of_table {levels depth table next index : Nat}
    (slot : classify depth (entryAt machine.memory table index) = .table next) :
    reclaimSlot levels depth table machine index =
      (reclaimTables levels (depth + 1) next machine).pmemFree
        (entryAt (reclaimTables levels (depth + 1) next machine).memory table
          index).frame := by
  unfold reclaimSlot RadixTree.reclaimSlot
  rw [slot]

theorem reclaimSlot_of_not_table {levels depth table index : Nat}
    (slot : ∀ next, classify depth (entryAt machine.memory table index) ≠ .table next) :
    reclaimSlot levels depth table machine index = machine := by
  unfold reclaimSlot RadixTree.reclaimSlot
  cases denoted : classify depth (entryAt machine.memory table index) with
  | absent => rfl
  | leaf => rfl
  | table next => exact absurd denoted (slot next)

theorem reclaimSlot_hhdmBase {levels depth table index : Nat}
    (below : ∀ next, (reclaimTables levels (depth + 1) next machine).hhdmBase =
      machine.hhdmBase) :
    (reclaimSlot levels depth table machine index).hhdmBase = machine.hhdmBase := by
  cases slot : classify depth (entryAt machine.memory table index) with
  | absent => rw [reclaimSlot_of_not_table (by simp [slot])]
  | leaf => rw [reclaimSlot_of_not_table (by simp [slot])]
  | table next => rw [reclaimSlot_of_table slot, pmemFree_hhdmBase, below]

@[simp] theorem reclaimTables_hhdmBase (levels depth table : Nat)
    (machine : Machine) :
    (reclaimTables levels depth table machine).hhdmBase = machine.hhdmBase := by
  induction levels generalizing depth table machine with
  | zero => rfl
  | succ levels inductionHypothesis =>
      rw [reclaimTables, RadixTree.reclaim_succ]
      refine (foldl_congr_of_invariant
        (fun state : Machine => state.hhdmBase = machine.hhdmBase)
        (fun state index _ sameBase => ⟨rfl, ?_⟩) rfl).2
      exact (reclaimSlot_hhdmBase fun next =>
        inductionHypothesis (depth + 1) next state).trans sameBase

theorem ptov_congr {other : Machine} (same : other.hhdmBase = machine.hhdmBase)
    (paddr : Nat) : other.ptov paddr = machine.ptov paddr := by
  rw [ptov, ptov, same]

/-- The loop over a level 2 table reclaims the tables below it. -/
theorem foldl_unmapL2Entry (isFrame : IsFrame l2Table) :
    (List.range 512).foldl (unmapL2Entry (machine.ptov l2Table)) machine =
      reclaimTables 1 2 l2Table machine := by
  rw [reclaimTables, RadixTree.reclaim_succ]
  refine (foldl_congr_of_invariant
    (fun state : Machine => state.hhdmBase = machine.hhdmBase) ?_ rfl).1
  intro state index member sameBase
  rw [List.mem_range] at member
  refine ⟨?_, (reclaimSlot_hhdmBase fun next =>
    reclaimTables_hhdmBase 0 3 next state).trans sameBase⟩
  rw [unmapL2Entry, ← ptov_congr sameBase, loadEntry_eq isFrame member]
  have cases := classify_inner (show 0 < 2 by omega) (show 2 < 3 by omega)
    (entryAt state.memory l2Table index)
  rcases cases with ⟨test, slot⟩ | ⟨test, slot⟩
  · rw [if_pos test, ← reclaimSlot, reclaimSlot_of_table slot, reclaimTables_zero]
  · rw [if_neg (by simp [test]), ← reclaimSlot, reclaimSlot_of_not_table slot]

/-- The loop over a level 3 table reclaims the tables below it. -/
theorem foldl_unmapL3Entry (isFrame : IsFrame l3Table) :
    (List.range 512).foldl (unmapL3Entry (machine.ptov l3Table)) machine =
      reclaimTables 2 1 l3Table machine := by
  rw [reclaimTables, RadixTree.reclaim_succ]
  refine (foldl_congr_of_invariant
    (fun state : Machine => state.hhdmBase = machine.hhdmBase) ?_ rfl).1
  intro state index member sameBase
  rw [List.mem_range] at member
  refine ⟨?_, (reclaimSlot_hhdmBase fun next =>
    reclaimTables_hhdmBase 1 2 next state).trans sameBase⟩
  rw [unmapL3Entry, ← ptov_congr sameBase, loadEntry_eq isFrame member]
  have cases := classify_inner (show 0 < 1 by omega) (show 1 < 3 by omega)
    (entryAt state.memory l3Table index)
  rcases cases with ⟨test, slot⟩ | ⟨test, slot⟩
  · have sameAfter := reclaimTables_hhdmBase 1 2
      (entryAt state.memory l3Table index).frame state
    have l2Loop : (List.range 512).foldl (unmapL2Entry
        (state.ptov (entryAt state.memory l3Table index).frame)) state =
          reclaimTables 1 2 (entryAt state.memory l3Table index).frame state :=
      foldl_unmapL2Entry (classify_isFrame _ _ _ slot)
    rw [if_pos test]
    dsimp only
    rw [l2Loop, ← ptov_congr sameAfter, loadEntry_eq isFrame member,
      ← reclaimSlot, reclaimSlot_of_table slot]
  · rw [if_neg (by simp [test]), ← reclaimSlot, reclaimSlot_of_not_table slot]

/-! ### The loop over the level 4 table -/

/-- Clear the present bit of one entry of the level 4 table. -/
def clearL4Entry (root : Nat) (machine : Machine) (l4Index : Nat) : Machine :=
  if (entryAt machine.memory root l4Index).present then
    machine.modifyEntry (machine.ptov root + 8 * l4Index)
      fun entry => { entry with present := false }
  else machine

section ClearL4Entry

variable {root l4Index : Nat}

@[simp] theorem clearL4Entry_hhdmBase :
    (clearL4Entry root machine l4Index).hhdmBase = machine.hhdmBase := by
  unfold clearL4Entry
  split <;> rfl

@[simp] theorem clearL4Entry_freelist :
    (clearL4Entry root machine l4Index).freelist = machine.freelist := by
  unfold clearL4Entry
  split <;> rfl

@[simp] theorem clearL4Entry_cr3 :
    (clearL4Entry root machine l4Index).cr3 = machine.cr3 := by
  unfold clearL4Entry
  split <;> rfl

@[simp] theorem clearL4Entry_writeProtect :
    (clearL4Entry root machine l4Index).writeProtect = machine.writeProtect := by
  unfold clearL4Entry
  split <;> rfl

theorem entryAt_clearL4Entry
    (rootFrame : IsFrame root) (inTable : l4Index < 512)
    {table : Nat} (tableFrame : IsFrame table) (index : Nat) :
    entryAt (clearL4Entry root machine l4Index).memory table index =
      if table = root ∧ index = l4Index then
        { entryAt machine.memory root l4Index with present := false }
      else entryAt machine.memory table index := by
  unfold clearL4Entry
  split
  next =>
    rw [modifyEntry_eq rootFrame inTable,
      entryAt_store rootFrame inTable tableFrame]
  next absent =>
    split
    next same =>
      obtain ⟨rfl, rfl⟩ := same
      have cleared : (entryAt machine.memory table index).present = false := by
        simpa using absent
      rw [← cleared]
    next => rfl

/-- Clearing a present bit writes inside its entry only. -/
theorem clearL4Entry_memory_of_outside
    (rootFrame : IsFrame root) (inTable : l4Index < 512) {position : Nat}
    (outside : position < root + 8 * l4Index ∨ root + 8 * l4Index + 8 ≤ position) :
    (clearL4Entry root machine l4Index).memory position =
      machine.memory position := by
  unfold clearL4Entry
  split
  next =>
    rw [modifyEntry_eq rootFrame inTable]
    exact ByteMemory.store_outside outside
  next => rfl

/-- Clearing present bits of the level 4 table commutes with freeing other
frames. -/
theorem clearL4Entry_pmemFree
    (rootFrame : IsFrame root) (inTable : l4Index < 512)
    {frame : Nat} (isFrame : IsFrame frame) (different : root ≠ frame) :
    clearL4Entry root (machine.pmemFree frame) l4Index =
      (clearL4Entry root machine l4Index).pmemFree frame := by
  have sameEntry : entryAt (machine.pmemFree frame).memory root l4Index =
      entryAt machine.memory root l4Index :=
    (agreeOn_pmemFree isFrame different).entryAt_eq rootFrame
  have disjoint : root + 8 * l4Index + 8 ≤ frame ∨ frame + 8 ≤ root + 8 * l4Index := by
    have := rootFrame.aligned
    have := isFrame.aligned
    omega
  unfold clearL4Entry
  rw [sameEntry]
  split
  next =>
    have samePtov : (machine.pmemFree frame).ptov root = machine.ptov root := rfl
    rw [modifyEntry_eq rootFrame inTable, sameEntry, pmemFree_eq isFrame,
      ByteMemory.store_comm disjoint, modifyEntry_eq rootFrame inTable,
      pmemFree_eq isFrame]
    rfl
  next => rfl

end ClearL4Entry

section UnmapL4Entry

variable {root l4Index : Nat}

theorem entryAt_pmemFree :
    ∀ (machine : Machine) (frame table index : Nat),
      IsFrame frame -> IsFrame table -> table ≠ frame ->
      entryAt (machine.pmemFree frame).memory table index =
        entryAt machine.memory table index := by
  intro machine frame table index isFrame tableFrame different
  exact (agreeOn_pmemFree isFrame different).entryAt_eq tableFrame

/-- The tables below another slot of the level 4 table do not depend on the
present bit of this one. -/
theorem slotTables_clearL4Entry
    (rootFrame : IsFrame root) (inTable : l4Index < 512) {position : Nat}
    (otherSlot : position ≠ l4Index)
    (rootAbsent : root ∉ RadixTree.slotTables classify (entryAt machine.memory)
      (List.range 512) 2 0 root position) :
    RadixTree.slotTables classify
        (entryAt (clearL4Entry root machine l4Index).memory)
        (List.range 512) 2 0 root position =
      RadixTree.slotTables classify (entryAt machine.memory)
        (List.range 512) 2 0 root position := by
  apply RadixTree.slotTables_congr
  · rw [entryAt_clearL4Entry rootFrame inTable rootFrame,
      if_neg fun same => otherSlot same.2]
  · intro next slot
    apply RadixTree.postorder_congr
    intro table member index
    have inSlot := RadixTree.mem_slotTables.mpr
      ⟨next, slot, (List.mem_cons.mp member).symm⟩
    have tableFrame := RadixTree.valid_of_mem_slotTables classify_isFrame inSlot
    rw [entryAt_clearL4Entry rootFrame inTable tableFrame, if_neg]
    rintro ⟨rfl, _⟩
    exact rootAbsent inSlot

/-- Reclaiming the tables below a table frees its postorder. -/
theorem reclaimTables_eq {levels depth table : Nat} (isFrame : IsFrame table)
    (nodup : (RadixTree.postorder classify (entryAt machine.memory)
      (List.range 512) levels depth table ++ [table]).Nodup) :
    reclaimTables levels depth table machine =
      (RadixTree.postorder classify (entryAt machine.memory) (List.range 512)
        levels depth table).foldl pmemFree machine :=
  RadixTree.reclaim_eq (fun _ _ _ slot => And.right (table_of_classify slot))
    classify_isFrame entryAt_pmemFree isFrame nodup

/-- Freeing tables of other slots keeps the tables below a slot. -/
theorem slotTables_foldl_pmemFree
    {indices : List Nat} {levels depth table index : Nat} {freed : List Nat}
    (isFrame : IsFrame table) (allFrames : ∀ frame ∈ freed, IsFrame frame)
    (tableAbsent : table ∉ freed)
    (disjoint : ∀ member ∈ RadixTree.slotTables classify (entryAt machine.memory)
      indices levels depth table index, member ∉ freed) :
    RadixTree.slotTables classify (entryAt (freed.foldl pmemFree machine).memory)
        indices levels depth table index =
      RadixTree.slotTables classify (entryAt machine.memory) indices
        levels depth table index := by
  let entryOf : Machine -> Nat -> Nat -> PtEntry :=
    fun machine => entryAt machine.memory
  have preserves : ∀ (machine : Machine) (frame table index : Nat),
      IsFrame frame -> IsFrame table -> table ≠ frame ->
      entryOf (machine.pmemFree frame) table index = entryOf machine table index :=
    entryAt_pmemFree
  have kept := RadixTree.slotTables_foldl_push classify_isFrame preserves isFrame
    allFrames tableAbsent disjoint
  exact kept

theorem unmapL4Entry_of_present
    (rootFrame : IsFrame root) (inTable : l4Index < 512)
    (present : (entryAt machine.memory root l4Index).present = true) :
    unmapL4Entry (machine.ptov root) machine l4Index =
      let below := reclaimTables 2 1 (entryAt machine.memory root l4Index).frame
        (clearL4Entry root machine l4Index)
      below.pmemFree (entryAt below.memory root l4Index).frame := by
  have clear : machine.modifyEntry (machine.ptov root + 8 * l4Index)
      (fun entry => { entry with present := false }) =
        clearL4Entry root machine l4Index := by
    rw [clearL4Entry, if_pos present]
  have samePtov : (clearL4Entry root machine l4Index).ptov root =
      machine.ptov root := ptov_congr clearL4Entry_hhdmBase root
  have sameFrame :
      (entryAt (clearL4Entry root machine l4Index).memory root l4Index).frame =
        (entryAt machine.memory root l4Index).frame := by
    rw [entryAt_clearL4Entry rootFrame inTable rootFrame, if_pos ⟨rfl, rfl⟩]
    rfl
  have l3Frame : IsFrame (entryAt machine.memory root l4Index).frame :=
    ⟨PtEntry.frame_mod _, PtEntry.frame_lt _⟩
  rw [unmapL4Entry, loadEntry_eq rootFrame inTable, if_pos present, clear,
    ← samePtov]
  dsimp only
  rw [loadEntry_eq rootFrame inTable, sameFrame, foldl_unmapL3Entry l3Frame,
    ← ptov_congr (reclaimTables_hhdmBase 2 1 _ _), loadEntry_eq rootFrame inTable]

/-- One round of the outer loop clears the present bit of its entry and frees
the tables below it in post-order. -/
theorem unmapL4Entry_eq
    (rootFrame : IsFrame root) (inTable : l4Index < 512)
    (nodup : (RadixTree.slotTables classify (entryAt machine.memory)
      (List.range 512) 2 0 root l4Index ++ [root]).Nodup) :
    unmapL4Entry (machine.ptov root) machine l4Index =
      (RadixTree.slotTables classify (entryAt machine.memory)
        (List.range 512) 2 0 root l4Index).foldl pmemFree
        (clearL4Entry root machine l4Index) := by
  cases present : (entryAt machine.memory root l4Index).present with
  | false =>
      have noTables : RadixTree.slotTables classify (entryAt machine.memory)
          (List.range 512) 2 0 root l4Index = [] := by
        unfold RadixTree.slotTables
        rw [classify_of_absent present]
      rw [noTables, unmapL4Entry, loadEntry_eq rootFrame inTable, clearL4Entry,
        if_neg (by simp [present]), if_neg (by simp [present]), List.foldl_nil]
  | true =>
      have slot : classify 0 (entryAt machine.memory root l4Index) =
          .table (entryAt machine.memory root l4Index).frame :=
        classify_of_table present (by omega)
      have tables : RadixTree.slotTables classify (entryAt machine.memory)
          (List.range 512) 2 0 root l4Index =
            RadixTree.postorder classify (entryAt machine.memory) (List.range 512)
              2 1 (entryAt machine.memory root l4Index).frame ++
            [(entryAt machine.memory root l4Index).frame] := by
        unfold RadixTree.slotTables
        rw [slot]
      rw [unmapL4Entry_of_present rootFrame inTable present]
      generalize entryFrame : (entryAt machine.memory root l4Index).frame = l3Table
        at slot tables ⊢
      rw [tables] at nodup ⊢
      obtain ⟨belowNodup, -, rootAbsent⟩ := List.nodup_append.mp nodup
      have isFrame : ∀ table ∈ RadixTree.postorder classify (entryAt machine.memory)
          (List.range 512) 2 1 l3Table ++ [l3Table], IsFrame table := by
        intro table member
        rw [← tables] at member
        exact RadixTree.valid_of_mem_slotTables classify_isFrame member
      have samePostorder :
          RadixTree.postorder classify
              (entryAt (clearL4Entry root machine l4Index).memory)
              (List.range 512) 2 1 l3Table =
            RadixTree.postorder classify (entryAt machine.memory) (List.range 512)
              2 1 l3Table := by
        apply RadixTree.postorder_congr
        intro table member index
        have listed : table ∈ RadixTree.postorder classify (entryAt machine.memory)
            (List.range 512) 2 1 l3Table ++ [l3Table] := by
          rw [List.mem_append, List.mem_singleton]
          exact (List.mem_cons.mp member).symm
        rw [entryAt_clearL4Entry rootFrame inTable (isFrame table listed),
          if_neg fun same => rootAbsent table listed root (by simp) same.1]
      have notBelow : root ∉ RadixTree.postorder classify (entryAt machine.memory)
          (List.range 512) 2 1 l3Table := by
        intro member
        exact rootAbsent root (List.mem_append_left _ member) root (by simp) rfl
      have sameEntry : (entryAt ((RadixTree.postorder classify
          (entryAt machine.memory) (List.range 512) 2 1 l3Table).foldl pmemFree
            (clearL4Entry root machine l4Index)).memory root l4Index).frame =
              l3Table := by
        rw [(agreeOn_foldl_pmemFree
            (fun table member => isFrame table (List.mem_append_left _ member))
            notBelow).entryAt_eq rootFrame,
          entryAt_clearL4Entry rootFrame inTable rootFrame, if_pos ⟨rfl, rfl⟩,
          ← entryFrame]
        rfl
      rw [reclaimTables_eq (isFrame l3Table (by simp))
          (by rw [samePostorder]; exact belowNodup),
        samePostorder, List.foldl_append]
      dsimp only
      rw [sameEntry]
      rfl

end UnmapL4Entry

/-- Clearing present bits commutes with freeing frames other than the root. -/
theorem foldl_clearL4Entry_foldl_pmemFree
    {root : Nat} {visited freed : List Nat}
    (rootFrame : IsFrame root) (inTable : ∀ index ∈ visited, index < 512)
    (allFrames : ∀ frame ∈ freed, IsFrame frame) (rootAbsent : root ∉ freed) :
    visited.foldl (clearL4Entry root) (freed.foldl pmemFree machine) =
      freed.foldl pmemFree (visited.foldl (clearL4Entry root) machine) := by
  have oneEntry : ∀ index < 512, ∀ machine : Machine,
      clearL4Entry root (freed.foldl pmemFree machine) index =
        freed.foldl pmemFree (clearL4Entry root machine index) := by
    intro index small
    induction freed with
    | nil => exact fun _ => rfl
    | cons frame freed inductionHypothesis =>
        intro machine
        simp only [List.mem_cons, not_or] at rootAbsent
        simp only [List.mem_cons, forall_eq_or_imp] at allFrames
        rw [List.foldl_cons, List.foldl_cons,
          inductionHypothesis allFrames.2 rootAbsent.2,
          clearL4Entry_pmemFree rootFrame small allFrames.1 rootAbsent.1]
  induction visited generalizing machine with
  | nil => rfl
  | cons index visited inductionHypothesis =>
      simp only [List.mem_cons, forall_eq_or_imp] at inTable
      rw [List.foldl_cons, List.foldl_cons, oneEntry index inTable.1,
        inductionHypothesis inTable.2]

/-- The outer loop clears the present bits of the visited entries and frees the
tables below them. -/
theorem foldl_unmapL4Entry
    {root : Nat} {visited : List Nat}
    (rootFrame : IsFrame root) (inTable : ∀ index ∈ visited, index < 512)
    (visitedNodup : visited.Nodup)
    (nodup : (visited.flatMap (RadixTree.slotTables classify
      (entryAt machine.memory) (List.range 512) 2 0 root) ++ [root]).Nodup) :
    visited.foldl (unmapL4Entry (machine.ptov root)) machine =
      (visited.flatMap (RadixTree.slotTables classify (entryAt machine.memory)
        (List.range 512) 2 0 root)).foldl pmemFree
        (visited.foldl (clearL4Entry root) machine) := by
  induction visited generalizing machine with
  | nil => rfl
  | cons index visited inductionHypothesis =>
      simp only [List.mem_cons, forall_eq_or_imp] at inTable
      obtain ⟨notVisited, restVisitedNodup⟩ := List.nodup_cons.mp visitedNodup
      rw [List.flatMap_cons, List.append_assoc] at nodup
      obtain ⟨slotNodup, restNodup, disjoint⟩ := List.nodup_append.mp nodup
      have slotFrames : ∀ table ∈ RadixTree.slotTables classify
          (entryAt machine.memory) (List.range 512) 2 0 root index,
          IsFrame table :=
        fun table => RadixTree.valid_of_mem_slotTables classify_isFrame
      have rootNotInSlot : root ∉ RadixTree.slotTables classify
          (entryAt machine.memory) (List.range 512) 2 0 root index :=
        fun member => disjoint root member root (by simp) rfl
      have rootNotInRest : root ∉ visited.flatMap (RadixTree.slotTables classify
          (entryAt machine.memory) (List.range 512) 2 0 root) :=
        fun member => (List.nodup_append.mp restNodup).2.2 root member root
          (by simp) rfl
      have oneRound := unmapL4Entry_eq rootFrame inTable.1
        (List.nodup_append.mpr ⟨slotNodup, by simp, by
          intro table member last isRoot
          rw [List.mem_singleton] at isRoot
          exact isRoot ▸ disjoint table member root (by simp)⟩)
      rw [List.foldl_cons, oneRound, List.flatMap_cons, List.foldl_append,
        List.foldl_cons]
      generalize freedBySlot : RadixTree.slotTables classify
        (entryAt machine.memory) (List.range 512) 2 0 root index = freed
        at slotFrames rootNotInSlot disjoint oneRound ⊢
      -- The later slots keep their tables through this round.
      have restSame : visited.flatMap (RadixTree.slotTables classify
          (entryAt (freed.foldl pmemFree
            (clearL4Entry root machine index)).memory) (List.range 512) 2 0 root) =
          visited.flatMap (RadixTree.slotTables classify (entryAt machine.memory)
            (List.range 512) 2 0 root) := by
        apply List.flatMap_congr
        intro position member
        have inRest : ∀ table ∈ RadixTree.slotTables classify
            (entryAt machine.memory) (List.range 512) 2 0 root position,
            table ∈ visited.flatMap (RadixTree.slotTables classify
              (entryAt machine.memory) (List.range 512) 2 0 root) :=
          fun table inSlot => List.mem_flatMap.mpr ⟨position, member, inSlot⟩
        have cleared := slotTables_clearL4Entry rootFrame inTable.1
          (fun same => notVisited (same ▸ member))
          (fun inSlot => rootNotInRest (inRest root inSlot))
        rw [slotTables_foldl_pmemFree rootFrame slotFrames rootNotInSlot, cleared]
        rw [cleared]
        intro table inSlot inFreed
        exact disjoint table inFreed table
          (List.mem_append_left _ (inRest table inSlot)) rfl
      have samePtov : (freed.foldl pmemFree
          (clearL4Entry root machine index)).ptov root = machine.ptov root := by
        rw [ptov_congr foldl_pmemFree_hhdmBase, ptov_congr clearL4Entry_hhdmBase]
      rw [← samePtov, inductionHypothesis inTable.2 restVisitedNodup
          (by rw [restSame]; exact restNodup), restSame,
        foldl_clearL4Entry_foldl_pmemFree rootFrame inTable.2 slotFrames
          rootNotInSlot]

/-- `unmap_lower_half` clears the present bits of the level 4 entries 0 to 255
and frees the tables below them, each after the tables below it. -/
theorem unmapLowerHalf_eq {root : Nat}
    (rootFrame : IsFrame root) (tree : IsTree machine.memory root) :
    machine.unmapLowerHalf root =
      (lowerTables machine.memory root).foldl pmemFree
        ((List.range 256).foldl (clearL4Entry root) machine) := by
  have inTable : ∀ index ∈ List.range 256, index < 512 := by
    intro index member
    have := List.mem_range.mp member
    omega
  have nodup := nodup_lowerTables tree
  unfold lowerTables at nodup
  rw [unmapLowerHalf, foldl_unmapL4Entry rootFrame inTable List.nodup_range nodup]
  exact writeCr3_readCr3 _

end Machine
end StarterKernel
