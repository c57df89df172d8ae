import StarterKernel.Paging.MemInit
import StarterKernel.Paging.WellFormed

/-!
# The counter of free pages

`pmem_alloc` and `pmem_free` keep the difference between the counter and the length
of the freelist, and the page table editors go through these two.  So the difference
is the one the loops of `mem_init` leave.  The counter is an `int` and wraps.
-/

namespace StarterKernel

/-- The counter is off by this much. -/
structure Counted
    (root surplus : Nat) (machine : Machine) (free : List Nat) : Prop
    extends WellFormed root machine free where
  counter : machine.freePageCounter = .ofNat (free.length + surplus)
  /-- The tables of the lower half can be freed. -/
  direct : ∀ path frame, tableAt machine.memory root path = some frame ->
    DirectMapped machine.hhdmBase frame

/-- A page that may be freed: it is neither free nor a page table. -/
structure Freeable (root : Nat) (machine : Machine) (page : Nat) : Prop
    extends PoolFrame machine.hhdmBase page where
  notFree : ∀ free, machine.FreelistIs free -> page ∉ free
  notTable : ∀ path, tableAt machine.memory root path ≠ some page

variable {root table index fresh frame address surplus : Nat}
variable {machine other after : Machine} {free taken rest : List Nat}

namespace Counted

/-- Taking frames off the freelist keeps the surplus. -/
theorem took (counted : Counted root surplus machine (taken ++ rest))
    (took : TookFrames root machine after taken rest) :
    Counted root surplus after rest where
  toWellFormed := took.wellFormed
  counter := by
    rw [took.counter, counted.counter, List.length_append, Nat.add_assoc, Nat.add_comm,
      Int32.ofNat_add, Int32.add_sub_cancel]
  direct := by
    intro path frame reached
    rw [took.sameBase]
    rcases took.newTables path frame reached with before | isTaken
    · exact counted.direct path frame before
    · exact (counted.poolFrame frame (List.mem_append_left rest isTaken)).toDirectMapped

theorem pmemAlloc (counted : Counted root surplus machine free) :
    ∃ rest, Counted root surplus machine.pmemAlloc.2 rest := by
  cases free with
  | nil =>
      rw [Machine.pmemAlloc_nil counted.freelist]
      exact ⟨[], counted.toWellFormed.congr rfl rfl rfl, counted.counter, counted.direct⟩
  | cons fresh rest =>
      rw [(Machine.pmemAlloc_cons counted.freelist (counted.isFrame (by simp))).1]
      have whole : Counted root surplus machine ([fresh] ++ rest) := counted
      exact ⟨rest, whole.took counted.popped⟩

theorem pmemFree (counted : Counted root surplus machine free)
    (freeable : Freeable root machine frame) :
    Counted root surplus (machine.pmemFree frame) (frame :: free) := by
  have absent := freeable.notFree free counted.freelist
  have sameWalk : ∀ path, treeWalk (machine.pmemFree frame).memory root path =
      treeWalk machine.memory root path :=
    treeWalk_congr counted.rootFrame fun path table reached =>
      Machine.agreeOn_pmemFree freeable.toIsFrame
        fun same => freeable.notTable path (same ▸ reached)
  have sameTables : ∀ path, tableAt (machine.pmemFree frame).memory root path =
      tableAt machine.memory root path := fun path => tableAt_congr (sameWalk path)
  refine
    { rootFrame := counted.rootFrame
      poolFrame := ?_
      freelist := counted.freelist.pmemFree (fun _ member => counted.isFrame member)
        freeable.toPoolFrame absent
      tree := isTree_congr counted.tree sameTables
      notFree := ?_
      counter := ?_
      direct := ?_ }
  · simp only [List.mem_cons, forall_eq_or_imp, Machine.pmemFree_hhdmBase]
    exact ⟨freeable.toPoolFrame, counted.poolFrame⟩
  · intro path table reached
    rw [sameTables] at reached
    rw [List.mem_cons, not_or]
    exact ⟨fun same => freeable.notTable path (same ▸ reached),
      counted.notFree path table reached⟩
  · rw [List.length_cons, Nat.add_right_comm, Int32.ofNat_add, ← counted.counter]
    rfl
  · intro path table reached
    rw [sameTables] at reached
    exact counted.direct path table reached

end Counted

/-! ## `unmap_lower_half` -/

theorem Machine.foldl_pmemFree_freePageCounter (freed : List Nat) :
    (freed.foldl Machine.pmemFree machine).freePageCounter =
      machine.freePageCounter + .ofNat freed.length := by
  induction freed generalizing machine with
  | nil => exact (Int32.add_zero _).symm
  | cons frame freed inductionHypothesis =>
      have one : (machine.pmemFree frame).freePageCounter =
          machine.freePageCounter + 1 := rfl
      rw [List.foldl_cons, inductionHypothesis, one, List.length_cons, Nat.add_comm,
        Int32.ofNat_add, Int32.add_assoc]
      rfl

theorem Machine.clearL4Entry_freePageCounter :
    (clearL4Entry root machine index).freePageCounter = machine.freePageCounter := by
  unfold clearL4Entry
  split <;> rfl

/-- `unmap_lower_half` counts the tables it frees. -/
theorem Machine.unmapLowerHalf_freePageCounter
    (rootFrame : IsFrame root) (tree : IsTree machine.memory root) :
    (machine.unmapLowerHalf root).freePageCounter =
      machine.freePageCounter + .ofNat (lowerTables machine.memory root).length := by
  rw [unmapLowerHalf_eq rootFrame tree, foldl_pmemFree_freePageCounter,
    foldl_keeps Machine.freePageCounter fun _ _ => clearL4Entry_freePageCounter]

theorem Counted.unmapLowerHalf (counted : Counted root surplus machine free) :
    Counted root surplus (machine.unmapLowerHalf root)
      ((lowerTables machine.memory root).reverse ++ free) := by
  have rootFrame := counted.rootFrame
  have sameBase := Machine.unmapLowerHalf_hhdmBase rootFrame counted.tree
  have lowerTable : ∀ frame ∈ lowerTables machine.memory root,
      PoolFrame machine.hhdmBase frame ∧ frame ∉ free := by
    intro frame member
    obtain ⟨path, _, reached⟩ := mem_lowerTables.mp member
    exact ⟨⟨isFrame_of_tableAt rootFrame reached, counted.direct path frame reached⟩,
      counted.notFree path frame reached⟩
  refine
    { rootFrame := rootFrame
      poolFrame := ?_
      freelist := Machine.freelistIs_unmapLowerHalf rootFrame counted.tree
        counted.freelist (fun _ member => counted.isFrame member)
        (counted.notFree [] root RadixTree.tableAt_nil)
        (fun frame member => (lowerTable frame member).1.toDirectMapped)
        (fun frame member => (lowerTable frame member).2)
      tree := Machine.isTree_unmapLowerHalf rootFrame counted.tree
      notFree := ?_
      counter := ?_
      direct := ?_ }
  · rw [sameBase]
    intro frame member
    rcases List.mem_append.mp member with freed | stillFree
    · exact (lowerTable frame (List.mem_reverse.mp freed)).1
    · exact counted.poolFrame frame stillFree
  · intro path frame reached
    obtain ⟨upper, before⟩ :=
      (Machine.tableAt_unmapLowerHalf rootFrame counted.tree path).mp reached
    rw [List.mem_append, List.mem_reverse, not_or]
    refine ⟨fun member => ?_, counted.notFree path frame before⟩
    obtain ⟨lowerPath, lower, again⟩ := mem_lowerTables.mp member
    obtain rfl : path = lowerPath := counted.tree _ _ _ before again
    exact upper lower
  · rw [Machine.unmapLowerHalf_freePageCounter rootFrame counted.tree, counted.counter,
      List.length_append, List.length_reverse, ← Int32.ofNat_add]
    exact congrArg Int32.ofNat (by omega)
  · rw [sameBase]
    intro path frame reached
    exact counted.direct path frame
      ((Machine.tableAt_unmapLowerHalf rootFrame counted.tree path).mp reached).2

/-! ## Runs -/

/-- One call of the allocator or of a page table editor. -/
inductive PagingStep (root : Nat) : Machine -> Machine -> Prop
  | pmemAlloc (machine : Machine) : PagingStep root machine machine.pmemAlloc.2
  | pmemFree (machine : Machine) (page : Nat) (freeable : Freeable root machine page) :
      PagingStep root machine (machine.pmemFree page)
  | vmMap (machine : Machine) (address : Nat) (usable writable executable : Bool)
      (small : SmallWalk machine.memory root address) :
      PagingStep root machine (machine.vmMap root address usable writable executable).2
  | vmProtect (machine : Machine) (address : Nat) (user writable executable : Bool)
      (small : SmallWalk machine.memory root address) :
      PagingStep root machine
        (machine.vmProtect root address user writable executable).2
  | unmapLowerHalf (machine : Machine) :
      PagingStep root machine (machine.unmapLowerHalf root)

/-- Any number of calls. -/
abbrev PagingRun (root : Nat) : Machine -> Machine -> Prop :=
  Relation.ReflTransGen (PagingStep root)

/-- Every call keeps the surplus. -/
theorem Counted.step (counted : Counted root surplus machine free)
    (step : PagingStep root machine other) :
    ∃ rest, Counted root surplus other rest := by
  cases step with
  | pmemAlloc => exact counted.pmemAlloc
  | pmemFree page freeable => exact ⟨page :: free, counted.pmemFree freeable⟩
  | vmMap address usable writable executable small =>
      obtain ⟨taken, rest, rfl, took⟩ :=
        (counted.toWellFormed.vmMap usable writable executable small).took
      exact ⟨rest, counted.took took⟩
  | vmProtect address user writable executable small =>
      rcases counted.toWellFormed.vmProtect user writable executable small with
        ⟨_, fails⟩ | ⟨table, links, reached, present, succeeds⟩
      · rw [fails]
        exact ⟨free, counted⟩
      · rw [succeeds]
        have whole : Counted root surplus machine ([] ++ free) := counted
        exact ⟨free, whole.took (counted.writeLeaf reached present present)⟩
  | unmapLowerHalf => exact ⟨_, counted.unmapLowerHalf⟩

/-- Every sequence of calls keeps the surplus. -/
theorem Counted.run (counted : Counted root surplus machine free)
    (run : PagingRun root machine other) :
    ∃ rest, Counted root surplus other rest := by
  induction run with
  | refl => exact ⟨free, counted⟩
  | tail _ step inductionHypothesis =>
      obtain ⟨middle, kept⟩ := inductionHypothesis
      exact kept.step step

/-- An `int` holds a number and its sum with a surplus alike if the surplus wraps to
nothing and the number fits. -/
theorem toInt_ofNat_eq_iff (number surplus : Nat) :
    (Int32.ofNat (number + surplus)).toInt = number ↔
      2 ^ 32 ∣ surplus ∧ number < 2 ^ 31 := by
  have size : Int32.size = 2 ^ 32 := rfl
  rw [Int32.toInt_ofNat', size, Int.bmod_def]
  omega

/-- The counter is right if the surplus wraps to nothing and the number of free pages
fits in an `int`. -/
theorem Counted.counter_eq_iff (counted : Counted root surplus machine free) :
    machine.freePageCounter.toInt = free.length ↔ 2 ^ 32 ∣ surplus ∧ free.length < 2 ^ 31 := by
  rw [counted.counter]
  exact toInt_ofNat_eq_iff _ _

/-- What is printed of the counter is the lower half of a 64-bit word. -/
theorem Counted.printed_eq_iff (counted : Counted root surplus machine free) :
    machine.freePageCounter.toUInt32.toNat = free.length ↔
      2 ^ 32 ∣ surplus ∧ free.length < 2 ^ 32 := by
  rw [counted.counter, Int32.toUInt32_ofNat', UInt32.toNat_ofNat']
  omega

/-! ## The surplus of `mem_init` -/

variable {hdr : Stivale2Struct} {tag : Nat}

/-- `mem_init` counts every usable page twice, and prints the counter. -/
theorem Handover.counted (handover : Handover hdr tag machine)
    (zero : machine.freePageCounter = 0) :
    ∃ before free,
      Counted machine.cr3
        (usableFrames machine.memory tag (mmapEntries machine.memory tag)).length
        before free ∧
      machine.memInit hdr =
        some (((before.kprintf "number of free pages are: ").kprintD
          before.freePageCounter.toUInt32.toNat).kprintf "\n") := by
  obtain ⟨looped, run, released, list⟩ := handover.memInitLoop_start
  have sameCr3 : looped.cr3 = machine.cr3 := released.sameCr3
  have sameBase : looped.hhdmBase = hdr.hhdm := released.sameBase
  have sameWalk := handover.sameWalk released
  have sameTables : ∀ path, tableAt looped.memory machine.cr3 path =
      tableAt machine.memory machine.cr3 path :=
    fun path => tableAt_congr (sameWalk path)
  have counted : Counted machine.cr3
      (usableFrames machine.memory tag (mmapEntries machine.memory tag)).length looped
      (usableFrames machine.memory tag (mmapEntries machine.memory tag)).reverse := by
    refine
      { rootFrame := handover.rootFrame
        poolFrame := ?_
        freelist := list
        tree := isTree_congr handover.tree sameTables
        notFree := ?_
        counter := ?_
        direct := ?_ }
    · intro frame member
      rw [sameBase]
      exact handover.poolFrame (List.mem_reverse.mp member)
    · intro path frame reached
      rw [sameTables] at reached
      rw [List.mem_reverse]
      exact handover.tablesReserved path frame reached
    · have counter : looped.freePageCounter = machine.freePageCounter + _ :=
        released.counter
      rw [counter, zero, List.length_reverse, Int32.zero_add, Nat.two_mul]
    · intro path frame reached
      rw [sameTables] at reached
      have higherHalf := handover.higherHalf
      rw [sameBase]
      exact ⟨by omega, handover.tablesDirect path frame reached⟩
  refine ⟨looped.unmapLowerHalf machine.cr3, _, counted.unmapLowerHalf, ?_⟩
  have samePrinted (machine : Machine) (text : String) :
      (machine.kprintf text).freePageCounter = machine.freePageCounter := rfl
  rw [Machine.memInit]
  dsimp only
  rw [run]
  dsimp only
  rw [Machine.readCr3, sameCr3, samePrinted]

/-- In every state reached from `mem_init` the counter is the number of free pages if
and only if the memory map has no usable page, or so many that they wrap to none, and the
number of free pages fits in the counter.  So is the number printed, which is unsigned. -/
theorem free_page_counter_right_iff
    {hdr : Stivale2Struct} {tag : Nat} {machine : Machine}
    (handover : Handover hdr tag machine) (zero : machine.freePageCounter = 0) :
    ∃ (before start : Machine) (free : List Nat),
      machine.memInit hdr = some start ∧ start.FreelistIs free ∧
      start = ((before.kprintf "number of free pages are: ").kprintD
        before.freePageCounter.toUInt32.toNat).kprintf "\n" ∧
      (before.freePageCounter.toUInt32.toNat = free.length ↔
        2 ^ 32 ∣ (usableFrames machine.memory tag (mmapEntries machine.memory tag)).length ∧
          free.length < 2 ^ 32) ∧
      ∀ later, PagingRun machine.cr3 start later ->
        ∃ free, later.FreelistIs free ∧ free.Nodup ∧
          (later.freePageCounter.toInt = free.length ↔
            2 ^ 32 ∣ (usableFrames machine.memory tag
                (mmapEntries machine.memory tag)).length ∧
              free.length < 2 ^ 31) := by
  obtain ⟨before, free, counted, init⟩ := handover.counted zero
  have started : Counted machine.cr3
      (usableFrames machine.memory tag (mmapEntries machine.memory tag)).length
      (((before.kprintf "number of free pages are: ").kprintD
        before.freePageCounter.toUInt32.toNat).kprintf "\n") free :=
    ⟨counted.toWellFormed.congr rfl rfl rfl, counted.counter, counted.direct⟩
  refine ⟨before, _, free, init, started.freelist, rfl, counted.printed_eq_iff, ?_⟩
  intro later run
  obtain ⟨rest, kept⟩ := started.run run
  exact ⟨rest, kept.freelist, kept.freelist.nodup, kept.counter_eq_iff⟩

/-- A bootloader with usable memory. -/
theorem free_page_counter_right_iff_bootMachine :
    ∃ start, (bootMachine (bootContent [])).memInit (bootHdr []) = some start ∧
      ∃ free, start.pmemAlloc.2.FreelistIs free ∧
        (start.pmemAlloc.2.freePageCounter.toInt = free.length ↔
          2 ^ 32 ∣ (usableFrames (bootMachine (bootContent [])).memory bootTag
              (mmapEntries (bootMachine (bootContent [])).memory bootTag)).length ∧
            free.length < 2 ^ 31) := by
  obtain ⟨_, start, _, init, _, _, _, later⟩ :=
    free_page_counter_right_iff (handover_bootMachine [] []) rfl
  obtain ⟨free, freelist, _, right⟩ := later _
    (Relation.ReflTransGen.single (PagingStep.pmemAlloc start))
  exact ⟨start, init, free, freelist, right⟩

/-- With 256 usable pages the counter is 256 too high after `mem_init`, and so is the
number it prints. -/
theorem free_page_counter_wrong :
    ∃ (before start : Machine) (free : List Nat),
      (bootMachine (bootContent [])).memInit (bootHdr []) = some start ∧
      start.FreelistIs free ∧ start.freePageCounter = .ofNat (free.length + 256) ∧
      start.freePageCounter.toInt ≠ free.length ∧
      start = ((before.kprintf "number of free pages are: ").kprintD
        before.freePageCounter.toUInt32.toNat).kprintf "\n" ∧
      before.freePageCounter.toUInt32.toNat ≠ free.length := by
  obtain ⟨before, free, counted, init⟩ := (handover_bootMachine [] []).counted rfl
  have entries : mmapEntries (bootMachine (bootContent [])).memory bootTag = 1 :=
    mmapEntries_boot []
  have pages : usableFrames (bootMachine (bootContent [])).memory bootTag 1 =
      rangeFrames 0x100000 256 := usableFrames_boot []
  rw [entries, pages, rangeFrames, List.length_map, List.length_range] at counted
  refine ⟨before, _, free, init, counted.freelist, counted.counter, fun right => ?_, rfl,
    fun right => ?_⟩
  · exact absurd (counted.counter_eq_iff.mp right).1 (by decide)
  · exact absurd (counted.printed_eq_iff.mp right).1 (by decide)

end StarterKernel
