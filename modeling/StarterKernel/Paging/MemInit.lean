import StarterKernel.Kernel.BootInfo
import StarterKernel.Paging.MemoryMap
import StarterKernel.Paging.Runs
import Mathlib.Data.List.Perm.Subperm

/-!
# The state `mem_init` leaves

The guarantees of the bootloader are collected in `Handover`.  From them
`mem_init` puts the usable frames on the freelist, reclaims the page tables of
the lower half, and so establishes the ownership invariant.
-/

namespace StarterKernel

open RadixTree (Slot Walk)

/-- The entry of the memory map at an index, where `tag` is the physical address
of the memory-map tag. -/
def mmapEntry (memory : Nat -> UInt8) (tag index : Nat) : MmapEntry where
  base := ByteMemory.load memory (tag + 24 + 24 * index) 8
  length := ByteMemory.load memory (tag + 24 + 24 * index + 8) 8
  type := ByteMemory.load memory (tag + 24 + 24 * index + 16) 4

/-- The number of entries of the memory map. -/
def mmapEntries (memory : Nat -> UInt8) (tag : Nat) : Nat :=
  ByteMemory.load memory (tag + 16) 8

/-- The pages of the first `count` entries of the memory map. -/
def usableFrames (memory : Nat -> UInt8) (tag count : Nat) : List Nat :=
  (List.range count).flatMap fun index => (mmapEntry memory tag index).frames

/-- What the bootloader guarantees.  `tag` is the physical address of the
memory-map tag.  It lists no memory of devices as usable either: `Machine.kprintf` keeps
what is printed in a log and does not write the frame 0xB8000 of the screen. -/
structure Handover (hdr : Stivale2Struct) (tag : Nat) (machine : Machine) :
    Prop where
  /-- The freelist of the kernel image is empty. -/
  empty : machine.freelist = 0
  rootFrame : IsFrame machine.cr3
  tree : IsTree machine.memory machine.cr3
  higherHalf : 0xffff800000000000 ≤ hdr.hhdm
  hhdmWord : hdr.hhdm < wordSize
  memmap : hdr.memmap = hdr.hhdm + tag
  memmapDirect : hdr.hhdm + tag + 24 + 24 * mmapEntries machine.memory tag < wordSize
  usableAligned : ∀ index < mmapEntries machine.memory tag,
    (mmapEntry machine.memory tag index).type = 1 ->
    (mmapEntry machine.memory tag index).base % 4096 = 0 ∧
      (mmapEntry machine.memory tag index).length % 4096 = 0
  usableDirect : ∀ index < mmapEntries machine.memory tag,
    (mmapEntry machine.memory tag index).type = 1 ->
    hdr.hhdm + (mmapEntry machine.memory tag index).base +
      (mmapEntry machine.memory tag index).length ≤ wordSize
  usableDisjoint : ∀ left < mmapEntries machine.memory tag,
    ∀ right < mmapEntries machine.memory tag, left ≠ right ->
    ∀ frame ∈ (mmapEntry machine.memory tag left).frames,
      frame ∉ (mmapEntry machine.memory tag right).frames
  usableNonzero :
    0 ∉ usableFrames machine.memory tag (mmapEntries machine.memory tag)
  memmapReserved : ∀ frame ∈ usableFrames machine.memory tag
      (mmapEntries machine.memory tag),
    tag + 24 + 24 * mmapEntries machine.memory tag ≤ frame ∨ frame + 4096 ≤ tag
  tablesReserved : ∀ path frame, tableAt machine.memory machine.cr3 path = some frame ->
    frame ∉ usableFrames machine.memory tag (mmapEntries machine.memory tag)
  tablesDirect : ∀ path frame, tableAt machine.memory machine.cr3 path = some frame ->
    hdr.hhdm + frame < wordSize

/-- The frames the allocator manages: the usable ones and the bootloader's page
tables of the lower half. -/
def bootPool (tag : Nat) (machine : Machine) : Set Nat :=
  { frame | frame ∈ usableFrames machine.memory tag (mmapEntries machine.memory tag) ∨
    frame ∈ lowerTables machine.memory machine.cr3 }

variable {hdr : Stivale2Struct} {tag frame : Nat} {machine after : Machine}
variable {free : List Nat}

/-! ## Reading the memory map -/

theorem mem_usableFrames {memory : Nat -> UInt8} {count : Nat} :
    frame ∈ usableFrames memory tag count ↔
      ∃ index < count, (mmapEntry memory tag index).type = 1 ∧
        frame ∈ rangeFrames (mmapEntry memory tag index).base
          ((mmapEntry memory tag index).length / 4096) :=
  mem_flatMap_frames

namespace Handover

/-- The machine `mem_init` starts its loops in. -/
abbrev start (hdr : Stivale2Struct) (machine : Machine) : Machine :=
  { machine with hhdmBase := hdr.hhdm }

/-- The bytes of the memory map through its direct-map pointer. -/
theorem physicalOf_memmap (handover : Handover hdr tag machine) {offset : Nat}
    (inside : offset < 24 + 24 * mmapEntries machine.memory tag) :
    (start hdr machine).physicalOf (hdr.memmap + offset) = tag + offset := by
  have direct := handover.memmapDirect
  have word := handover.hhdmWord
  rw [Machine.physicalOf, handover.memmap]
  dsimp only
  unfold wordSize at *
  omega

/-- Usable frames can be put on the freelist. -/
theorem poolFrame (handover : Handover hdr tag machine)
    (member : frame ∈ usableFrames machine.memory tag
      (mmapEntries machine.memory tag)) :
    PoolFrame hdr.hhdm frame := by
  obtain ⟨index, small, usable, inRange⟩ := mem_usableFrames.mp member
  obtain ⟨page, inRegion, rfl⟩ := mem_rangeFrames.mp inRange
  have aligned := handover.usableAligned index small usable
  have direct := handover.usableDirect index small usable
  have higherHalf := handover.higherHalf
  unfold wordSize at direct
  refine ⟨⟨by omega, by omega⟩, ⟨by omega, ?_⟩⟩
  unfold wordSize
  omega

/-- The memory map through its direct-map pointer. -/
theorem loadDirect_memmap (handover : Handover hdr tag machine) {offset count : Nat}
    (inside : offset < 24 + 24 * mmapEntries machine.memory tag) :
    (start hdr machine).loadDirect (hdr.memmap + offset) count =
      ByteMemory.load machine.memory (tag + offset) count := by
  rw [Machine.loadDirect, handover.physicalOf_memmap inside]

theorem mmapCount_eq (handover : Handover hdr tag machine) :
    (start hdr machine).mmapCount hdr.memmap = mmapEntries machine.memory tag :=
  handover.loadDirect_memmap (by omega)

theorem mmapAt_eq (handover : Handover hdr tag machine) {index : Nat}
    (small : index < mmapEntries machine.memory tag) :
    (start hdr machine).mmapAt hdr.memmap index = mmapEntry machine.memory tag index := by
  rw [Machine.mmapAt, handover.loadDirect_memmap (by omega),
    handover.loadDirect_memmap (by omega), handover.loadDirect_memmap (by omega)]
  simp only [← Nat.add_assoc, mmapEntry]

theorem usablePages_eq (handover : Handover hdr tag machine) {count : Nat}
    (small : count ≤ mmapEntries machine.memory tag) :
    (start hdr machine).usablePages hdr.memmap count =
      usableFrames machine.memory tag count := by
  unfold Machine.usablePages usableFrames
  rw [List.flatMap_def, List.flatMap_def]
  congr 1
  apply List.map_congr_left
  intro index member
  rw [handover.mmapAt_eq (Nat.lt_of_lt_of_le (List.mem_range.mp member) small)]

/-- The loops of `mem_init` can rely on the memory map. -/
theorem usableMap (handover : Handover hdr tag machine) :
    UsableMap (start hdr machine) hdr.memmap := by
  have count := handover.mmapCount_eq
  have pages := handover.usablePages_eq (Nat.le_refl _)
  refine
    { aligned := fun index small => ?_
      word := fun index small usable => ?_
      noWrap := fun page member => ?_
      disjoint := fun left leftSmall right rightSmall different => ?_
      nonzero := ?_
      reserved := fun offset inside member => ?_ }
  · rw [count] at small
    rw [handover.mmapAt_eq small]
    exact handover.usableAligned index small
  · rw [count] at small
    rw [handover.mmapAt_eq small] at usable ⊢
    have direct := handover.usableDirect index small usable
    have higherHalf := handover.higherHalf
    omega
  · rw [count, pages] at member
    exact (handover.poolFrame member).noWrap
  · rw [count] at leftSmall rightSmall
    rw [handover.mmapAt_eq leftSmall, handover.mmapAt_eq rightSmall]
    exact handover.usableDisjoint left leftSmall right rightSmall different
  · rw [count, pages]
    exact handover.usableNonzero
  · rw [count] at inside
    rw [count, pages, handover.physicalOf_memmap inside] at member
    have reserved := handover.memmapReserved _ member
    have inFrame := (frameOf_eq_iff (handover.poolFrame member).toIsFrame).mp
      (show frameOf (tag + offset) = _ from rfl)
    omega

/-- The boot sequence up to the end of the loops. -/
theorem memInitLoop_start (handover : Handover hdr tag machine) :
    ∃ after, (start hdr machine).memInitLoop hdr.memmap wordSize 0 = some after ∧
      Released (start hdr machine) after
        (usableFrames machine.memory tag (mmapEntries machine.memory tag)) ∧
      after.FreelistIs
        (usableFrames machine.memory tag (mmapEntries machine.memory tag)).reverse := by
  rw [← handover.usablePages_eq (Nat.le_refl _), ← handover.mmapCount_eq]
  exact handover.usableMap.memInitLoop_start handover.empty

/-- The loops of `mem_init` keep the page tables. -/
theorem sameWalk {looped : Machine} (handover : Handover hdr tag machine)
    (released : Released (start hdr machine) looped
      (usableFrames machine.memory tag (mmapEntries machine.memory tag))) (path : List Nat) :
    treeWalk looped.memory machine.cr3 path = treeWalk machine.memory machine.cr3 path :=
  treeWalk_congr handover.rootFrame (fun path frame reached =>
    released.contents frame (handover.tablesReserved path frame reached)) path

section Looped

variable {looped : Machine} (handover : Handover hdr tag machine)
variable (released : Released (start hdr machine) looped
  (usableFrames machine.memory tag (mmapEntries machine.memory tag)))

include handover released

theorem sameTables (path : List Nat) :
    tableAt looped.memory machine.cr3 path = tableAt machine.memory machine.cr3 path :=
  tableAt_congr (handover.sameWalk released path)

theorem sameLower (frame : Nat) :
    frame ∈ lowerTables looped.memory machine.cr3 ↔
      frame ∈ lowerTables machine.memory machine.cr3 := by
  rw [mem_lowerTables, mem_lowerTables]
  simp only [handover.sameTables released]

theorem poolFrame_looped (frame : Nat) (member : frame ∈ bootPool tag machine) :
    PoolFrame looped.hhdmBase frame := by
  have sameBase : looped.hhdmBase = hdr.hhdm := released.sameBase
  rw [sameBase]
  rcases member with usable | lower
  · exact handover.poolFrame usable
  · obtain ⟨path, _, reached⟩ := mem_lowerTables.mp lower
    have higherHalf := handover.higherHalf
    exact ⟨isFrame_of_tableAt handover.rootFrame reached, by omega,
      handover.tablesDirect path frame reached⟩

/-- Unmapping the lower half behind the loops establishes the ownership. -/
theorem owned_unmapped
    (list : looped.FreelistIs
      (usableFrames machine.memory tag (mmapEntries machine.memory tag)).reverse) :
    Owned machine.cr3 (bootPool tag machine) (looped.unmapLowerHalf machine.cr3)
      ((lowerTables looped.memory machine.cr3).reverse ++
        (usableFrames machine.memory tag (mmapEntries machine.memory tag)).reverse) := by
  have sameTables := handover.sameTables released
  apply owned_unmapLowerHalf handover.rootFrame (handover.poolFrame_looped released) list
    (fun frame member => Or.inl (List.mem_reverse.mp member))
    (isTree_congr handover.tree sameTables)
  · intro path frame lower reached
    rw [sameTables] at reached
    refine ⟨Or.inr (mem_lowerTables.mpr ⟨path, lower, reached⟩), ?_⟩
    rw [List.mem_reverse]
    exact handover.tablesReserved path frame reached
  · rintro path frame upper reached (usable | lowerMember)
    · rw [sameTables] at reached
      exact handover.tablesReserved path frame reached usable
    · rw [sameTables] at reached
      obtain ⟨lowerPath, lower, again⟩ := mem_lowerTables.mp lowerMember
      obtain rfl : path = lowerPath := handover.tree _ _ _ reached again
      exact upper lower

end Looped

end Handover

/-- The state `mem_init` leaves: every frame of the pool is free, the lower half
is unmapped, the upper half and the rest of memory are as before. -/
structure Initialized
    (hdr : Stivale2Struct) (tag : Nat) (machine start : Machine) (free : List Nat) :
    Prop where
  sameCr3 : start.cr3 = machine.cr3
  sameWriteProtect : start.writeProtect = machine.writeProtect
  base : start.hhdmBase = hdr.hhdm
  owned : Owned machine.cr3 (bootPool tag machine) start free
  allFree : ∀ frame ∈ bootPool tag machine, frame ∈ free
  lower : ∀ path, LowerPath path ->
    treeWalk start.memory machine.cr3 path = .fault
  upper : ∀ path, ¬LowerPath path ->
    treeWalk start.memory machine.cr3 path = treeWalk machine.memory machine.cr3 path
  contents : ∀ frame, frame ∉ bootPool tag machine -> frame ≠ machine.cr3 ->
    AgreeOn machine.memory start.memory frame

/-- Behind its loops `mem_init` unmaps the lower half and prints. -/
theorem Machine.memInit_of_loop {looped : Machine}
    (run : (Handover.start hdr machine).memInitLoop hdr.memmap wordSize 0 = some looped) :
    ∃ printed, machine.memInit hdr = some printed ∧
      printed.memory = (looped.unmapLowerHalf looped.cr3).memory ∧
      printed.hhdmBase = (looped.unmapLowerHalf looped.cr3).hhdmBase ∧
      printed.cr3 = (looped.unmapLowerHalf looped.cr3).cr3 ∧
      printed.writeProtect = (looped.unmapLowerHalf looped.cr3).writeProtect ∧
      printed.freelist = (looped.unmapLowerHalf looped.cr3).freelist := by
  rw [memInit]
  dsimp only
  rw [run]
  refine ⟨_, rfl, ?_⟩
  rw [readCr3]
  refine ⟨?_, ?_, ?_, ?_, ?_⟩ <;> simp

/-- `mem_init` establishes the ownership invariant. -/
theorem Handover.memInit_initialized (handover : Handover hdr tag machine) :
    ∃ start free, machine.memInit hdr = some start ∧
      Initialized hdr tag machine start free := by
  obtain ⟨looped, run, released, list⟩ := handover.memInitLoop_start
  have sameCr3 : looped.cr3 = machine.cr3 := released.sameCr3
  have sameBase : looped.hhdmBase = hdr.hhdm := released.sameBase
  have sameWalk := handover.sameWalk released
  have tree : IsTree looped.memory machine.cr3 :=
    isTree_congr handover.tree (handover.sameTables released)
  have sameLower := handover.sameLower released
  have owned := handover.owned_unmapped released list
  obtain ⟨printed, init, sameMemory, samePrintedBase, samePrintedCr3,
    samePrintedWriteProtect, sameFreelist⟩ := Machine.memInit_of_loop run
  rw [sameCr3] at sameMemory samePrintedBase samePrintedCr3 samePrintedWriteProtect sameFreelist
  refine ⟨printed, _, init,
    { sameCr3 := ?_
      sameWriteProtect := ?_
      base := ?_
      owned := owned.congr samePrintedBase sameFreelist ?_ ?_
      allFree := ?_
      lower := ?_
      upper := ?_
      contents := ?_ }⟩
  · rw [samePrintedCr3, Machine.unmapLowerHalf_cr3 handover.rootFrame tree, sameCr3]
  · rw [samePrintedWriteProtect,
      Machine.unmapLowerHalf_writeProtect handover.rootFrame tree]
    exact released.sameWriteProtect
  · rw [samePrintedBase, Machine.unmapLowerHalf_hhdmBase handover.rootFrame tree,
      sameBase]
  · rw [sameMemory]
    exact fun _ _ _ => AgreeOn.refl _ _
  · rw [sameMemory]
    exact fun _ _ => AgreeOn.refl _ _
  · intro frame member
    rw [List.mem_append, List.mem_reverse, List.mem_reverse, sameLower]
    exact Or.comm.mp member
  · intro path lower
    rw [sameMemory]
    exact Machine.treeWalk_unmapLowerHalf_of_lower handover.rootFrame tree lower
  · intro path upper
    rw [sameMemory, Machine.treeWalk_unmapLowerHalf_of_upper handover.rootFrame tree
      upper, sameWalk]
  · intro frame notPool notRoot
    rw [sameMemory]
    refine (released.contents frame fun usable => notPool (Or.inl usable)).trans
      (Machine.agreeOn_unmapLowerHalf handover.rootFrame tree notRoot ?_)
    rw [sameLower]
    exact fun lower => notPool (Or.inr lower)

/-- The invariant holds in every state reachable from the one `mem_init`
leaves. -/
theorem Handover.reachable_owned {start later : Machine}
    (handover : Handover hdr tag machine) (init : machine.memInit hdr = some start)
    (run : Run machine.cr3 start later) :
    ∃ free, Owned machine.cr3 (bootPool tag machine) later free := by
  obtain ⟨_, _, same, initialized⟩ := handover.memInit_initialized
  obtain rfl := Option.some.inj (same.symm.trans init)
  exact initialized.owned.run run

/-! ## Other machines -/

section Congr

variable (sameMap : ∀ position, tag ≤ position ->
  position < tag + 24 + 24 * mmapEntries machine.memory tag ->
    after.memory position = machine.memory position)

include sameMap

theorem mmapEntries_congr :
    mmapEntries after.memory tag = mmapEntries machine.memory tag :=
  ByteMemory.load_congr fun offset inside => sameMap _ (by omega) (by omega)

theorem mmapEntry_congr {index : Nat} (small : index < mmapEntries machine.memory tag) :
    mmapEntry after.memory tag index = mmapEntry machine.memory tag index := by
  have field (position count : Nat) (above : 24 + 24 * index ≤ position)
      (below : position + count ≤ 24 + 24 * (index + 1)) :
      ByteMemory.load after.memory (tag + position) count =
        ByteMemory.load machine.memory (tag + position) count :=
    ByteMemory.load_congr fun offset inside => sameMap _ (by omega) (by omega)
  simp only [mmapEntry, Nat.add_assoc]
  rw [field _ 8 (by omega) (by omega), field _ 8 (by omega) (by omega),
    field _ 4 (by omega) (by omega)]

theorem usableFrames_congr :
    usableFrames after.memory tag (mmapEntries after.memory tag) =
      usableFrames machine.memory tag (mmapEntries machine.memory tag) := by
  rw [mmapEntries_congr sameMap, usableFrames, usableFrames, List.flatMap_def,
    List.flatMap_def]
  refine congrArg _ (List.map_congr_left fun index member => ?_)
  rw [mmapEntry_congr sameMap (List.mem_range.mp member)]

/-- The guarantees of the bootloader concern the page tables and the memory map. -/
theorem Handover.congr (handover : Handover hdr tag machine)
    (sameFreelist : after.freelist = machine.freelist)
    (sameCr3 : after.cr3 = machine.cr3)
    (walks : ∀ path, treeWalk after.memory machine.cr3 path =
      treeWalk machine.memory machine.cr3 path) : Handover hdr tag after := by
  have count := mmapEntries_congr sameMap
  have usable := usableFrames_congr sameMap
  have entry (index : Nat) (small : index < mmapEntries machine.memory tag) :=
    @mmapEntry_congr _ _ _ sameMap index small
  have tables (path : List Nat) : tableAt after.memory after.cr3 path =
      tableAt machine.memory machine.cr3 path := by
    rw [sameCr3]
    exact tableAt_congr (walks path)
  refine
    { empty := sameFreelist.trans handover.empty
      rootFrame := sameCr3 ▸ handover.rootFrame
      tree := ?_
      higherHalf := handover.higherHalf
      hhdmWord := handover.hhdmWord
      memmap := handover.memmap
      memmapDirect := count ▸ handover.memmapDirect
      usableAligned := fun index small => ?_
      usableDirect := fun index small => ?_
      usableDisjoint := fun left leftSmall right rightSmall => ?_
      usableNonzero := usable ▸ handover.usableNonzero
      memmapReserved := ?_
      tablesReserved := fun path frame reached => ?_
      tablesDirect := fun path frame reached => ?_ }
  · rw [sameCr3]
    exact isTree_congr handover.tree fun path => tableAt_congr (walks path)
  · rw [count] at small
    rw [entry index small]
    exact handover.usableAligned index small
  · rw [count] at small
    rw [entry index small]
    exact handover.usableDirect index small
  · rw [count] at leftSmall rightSmall
    rw [entry left leftSmall, entry right rightSmall]
    exact handover.usableDisjoint left leftSmall right rightSmall
  · rw [usable, count]
    exact handover.memmapReserved
  · rw [tables] at reached
    rw [usable]
    exact handover.tablesReserved path frame reached
  · rw [tables] at reached
    exact handover.tablesDirect path frame reached

end Congr

/-! ## A bootloader that keeps its guarantees -/

/-- Memory outside the page tables: the tag of a memory map with one usable region of 256
pages at `0x100000`, the last tag of its list, and a module image at `0x10000`. -/
def bootContent (image : List UInt8) : Nat -> UInt8 :=
  let images : Nat -> UInt8 := fun position =>
    if 0x10000 ≤ position then image.getD (position - 0x10000) 0 else 0
  let tagged := ByteMemory.store images 0x8000 8 memmapId
  let counted := ByteMemory.store tagged 0x8010 8 1
  let based := ByteMemory.store counted 0x8018 8 0x100000
  let sized := ByteMemory.store based 0x8020 8 0x100000
  ByteMemory.store sized 0x8028 4 1

/-- The physical address of its memory-map tag. -/
def bootTag : Nat := 0x8000

/-- The structure it passes to the kernel. -/
def bootHdr (modules : List Stivale2Module) : Stivale2Struct where
  hhdm := bootHhdmBase
  memmap := bootHhdmBase + bootTag
  modules := modules

theorem bootContent_congr {image : List UInt8} {position : Nat}
    (low : position < 0x10000) :
    bootContent image position = bootContent [] position := by
  unfold bootContent ByteMemory.store
  simp only [show ¬0x10000 ≤ position by omega, if_false]

/-- Words below the module image do not depend on it. -/
theorem load_bootMemory {image : List UInt8} {address count : Nat}
    (above : 0x4000 ≤ address) (below : address + count ≤ 0x10000) :
    ByteMemory.load (bootMemory (bootContent image)) address count =
      ByteMemory.load (bootContent []) address count := by
  apply ByteMemory.load_congr
  intro offset small
  rw [bootMemory_outside (by omega), bootContent_congr (by omega)]

theorem mmapEntries_boot (image : List UInt8) :
    mmapEntries (bootMemory (bootContent image)) bootTag = 1 := by
  unfold mmapEntries bootTag
  rw [load_bootMemory (by omega) (by omega)]
  decide +kernel

theorem mmapEntry_boot (image : List UInt8) :
    mmapEntry (bootMemory (bootContent image)) bootTag 0 =
      { base := 0x100000, length := 0x100000, type := 1 } := by
  unfold mmapEntry bootTag
  rw [load_bootMemory (by omega) (by omega), load_bootMemory (by omega) (by omega),
    load_bootMemory (by omega) (by omega)]
  simp only [MmapEntry.mk.injEq]
  decide +kernel

theorem usableFrames_boot (image : List UInt8) :
    usableFrames (bootMemory (bootContent image)) bootTag 1 =
      rangeFrames 0x100000 256 := by
  rw [usableFrames, List.range_one, List.flatMap_singleton, mmapEntry_boot]
  rfl

/-- The guarantees hold for every module image and every list of modules. -/
theorem handover_bootMachine (image : List UInt8) (modules : List Stivale2Module) :
    Handover (bootHdr modules) bootTag (bootMachine (bootContent image)) := by
  have entries := mmapEntries_boot image
  have hhdm : 0xffff800000000000 ≤ bootHhdmBase ∧ bootHhdmBase < wordSize := by
    decide
  have only : ∀ index, index < 1 -> mmapEntry (bootMemory (bootContent image))
      bootTag index = { base := 0x100000, length := 0x100000, type := 1 } := by
    intro index small
    obtain rfl : index = 0 := by omega
    exact mmapEntry_boot image
  have usable : ∀ frame ∈ usableFrames (bootMemory (bootContent image)) bootTag 1,
      0x100000 ≤ frame := by
    intro frame member
    rw [usableFrames_boot] at member
    obtain ⟨page, _, rfl⟩ := mem_rangeFrames.mp member
    omega
  have tables : ∀ path frame,
      tableAt (bootMemory (bootContent image)) bootRoot path = some frame ->
      frame < 0x4000 := by
    intro path frame reached
    rcases mem_of_tableAt_bootMemory reached with ⟨rfl, _⟩ | ⟨rfl, _⟩ | ⟨rfl, _⟩ <;>
      decide
  refine
    { empty := rfl
      rootFrame := isFrame_bootRoot
      tree := isTree_bootMemory _
      higherHalf := hhdm.1
      hhdmWord := hhdm.2
      memmap := rfl
      memmapDirect := ?_
      usableAligned := ?_
      usableDirect := ?_
      usableDisjoint := ?_
      usableNonzero := ?_
      memmapReserved := ?_
      tablesReserved := ?_
      tablesDirect := ?_ }
  all_goals simp only [bootMachine, bootHdr, entries]
  · decide
  · intro index small _
    rw [only index small]
    decide
  · intro index small _
    rw [only index small]
    decide
  · intro left leftSmall right rightSmall different
    omega
  · intro member
    have := usable 0 member
    omega
  · intro frame member
    have := usable frame member
    unfold bootTag
    omega
  · intro path frame reached member
    have := usable frame member
    have := tables path frame reached
    omega
  · intro path frame reached
    have := tables path frame reached
    unfold bootHhdmBase wordSize
    omega

/-- Physical page 0 is not among the frames the allocator manages. -/
theorem zero_not_mem_bootPool (image : List UInt8) :
    0 ∉ bootPool bootTag (bootMachine (bootContent image)) := by
  have entries := mmapEntries_boot image
  rintro (usable | lower)
  · simp only [bootMachine, entries, usableFrames_boot] at usable
    obtain ⟨page, _, isZero⟩ := mem_rangeFrames.mp usable
    omega
  · obtain ⟨path, _, reached⟩ := mem_lowerTables.mp lower
    rcases mem_of_tableAt_bootMemory reached with ⟨isZero, _⟩ | ⟨isZero, _⟩ |
      ⟨isZero, _⟩ <;> exact absurd isZero (by decide)

/-- There are enough frames for several mappings. -/
theorem boot_initialized (image : List UInt8) (modules : List Stivale2Module) :
    ∃ start free,
      (bootMachine (bootContent image)).memInit (bootHdr modules) = some start ∧
      Initialized (bootHdr modules) bootTag (bootMachine (bootContent image)) start
        free ∧
      0 ∉ free ∧ 256 ≤ free.length := by
  obtain ⟨start, free, init, initialized⟩ :=
    (handover_bootMachine image modules).memInit_initialized
  refine ⟨start, free, init, initialized, ?_, ?_⟩
  · intro member
    exact zero_not_mem_bootPool image (initialized.owned.freeInPool 0 member)
  · have entries := mmapEntries_boot image
    have subset : rangeFrames 0x100000 256 ⊆ free := by
      intro frame member
      apply initialized.allFree
      refine Or.inl ?_
      simp only [bootMachine, entries, usableFrames_boot]
      exact member
    have length := ((nodup_rangeFrames 0x100000 256).subperm subset).length_le
    rwa [rangeFrames, List.length_map, List.length_range] at length

/-! ## Frame ownership over whole runs -/

/-- From the state `mem_init` leaves, in every state of every run: the freelist
is a finite chain of distinct page-aligned frames; free frames, page tables and
the pages of the lower half are pairwise disjoint; no frame is two tables or two
pages; and all of them but the tables above the lower half come from the pool. -/
theorem frames_have_one_role
    {hdr : Stivale2Struct} {tag : Nat} {machine : Machine}
    (handover : Handover hdr tag machine) :
    ∃ start, machine.memInit hdr = some start ∧
      ∀ later, Run machine.cr3 start later ->
        ∃ free : List Nat,
          later.FreelistIs free ∧ free.Nodup ∧
          (∀ frame ∈ free, frame % 4096 = 0 ∧ frame ∈ bootPool tag machine) ∧
          (∀ path frame, tableAt later.memory machine.cr3 path = some frame ->
            frame ∉ free ∧ (frame ∈ bootPool tag machine ↔ LowerPath path)) ∧
          (∀ path frame, LowerPath path ->
            PageAt later.memory machine.cr3 path frame ->
            frame ∈ bootPool tag machine ∧ frame ∉ free ∧
              ∀ above, tableAt later.memory machine.cr3 above ≠ some frame) ∧
          (∀ left right frame, tableAt later.memory machine.cr3 left = some frame ->
            tableAt later.memory machine.cr3 right = some frame -> left = right) ∧
          (∀ left right frame, LowerPath left -> LowerPath right ->
            PageAt later.memory machine.cr3 left frame ->
            PageAt later.memory machine.cr3 right frame -> left = right) ∧
          ∀ path entries, LowerPath path ->
            treeWalk later.memory machine.cr3 path = .leaf entries ->
            4 ≤ path.length := by
  obtain ⟨start, free, run, initialized⟩ := handover.memInit_initialized
  refine ⟨start, run, fun later steps => ?_⟩
  obtain ⟨after, kept⟩ := initialized.owned.run steps
  refine ⟨after, kept.freelist, kept.nodup, ?_, ?_, ?_, kept.tree, kept.pageUnique,
    fun path entries lower leaf => kept.leaf_length lower leaf⟩
  · intro frame member
    exact ⟨(kept.isFrame member).aligned, kept.freeInPool frame member⟩
  · intro path frame reached
    refine ⟨kept.table_notFree reached, ?_, ?_⟩
    · intro inPool
      by_contra upper
      exact kept.upperTable path frame upper reached inPool
    · intro lower
      exact (kept.lowerTable path frame lower reached).1
  · intro path frame lower isPage
    obtain ⟨inPool, _, notFree, notTable⟩ := kept.page path frame lower isPage
    exact ⟨inPool, notFree, notTable⟩

/-- A run that maps a page of a user program. -/
theorem frames_have_one_role_bootMachine :
    ∃ start, (bootMachine (bootContent [])).memInit (bootHdr []) = some start ∧
      ∃ free : List Nat,
        (start.vmMap bootRoot 0x400000 true true false).2.FreelistIs free ∧
          free.Nodup := by
  obtain ⟨start, run, roles⟩ :=
    frames_have_one_role (handover_bootMachine [] [])
  have lower : LowerHalf 0x400000 := by decide
  have step : Step bootRoot start
      (start.vmMap bootRoot 0x400000 true true false).2 :=
    .vmMap start 0x400000 true true false lower
  obtain ⟨free, freelist, nodup, -⟩ := roles _ (Relation.ReflTransGen.single step)
  exact ⟨start, run, free, freelist, nodup⟩

end StarterKernel
