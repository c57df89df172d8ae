import StarterKernel.Exec.Contents
import StarterKernel.Exec.FailedExec
import StarterKernel.Paging.ProtectExact
import StarterKernel.Paging.VmMapTouches

/-!
# The kernel half of the address space

Loading a program whose segments start in the lower half leaves the upper half alone,
however it ends: every address of it keeps its translation, and outside the frames that
leave the freelist memory stays as it is.  Nothing checks where a segment starts.
-/

namespace StarterKernel

open RadixTree (Slot Walk)
open StateError

variable {root address header size name frame : Nat} {pool : Set Nat}
variable {machine middle after : Machine} {free rest last : List Nat}
variable {image : Nat -> UInt8} {phdr : ElfPhdr} {hdr : Stivale2Struct}

/-! ## Spending frames -/

/-- The loader extends the use of the frames and does not touch those that stay free. -/
structure Spends
    (root : Nat) (pool : Set Nat) (machine after : Machine) (free rest : List Nat) :
    Prop extends Extends root pool machine after free rest where
  untouched : ∀ frame ∈ rest, AgreeOn machine.memory after.memory frame

/-- However a computation ends, it has spent some of the free frames. -/
def SpendsFree (root : Nat) (pool : Set Nat) (machine : Machine) (free : List Nat)
    {α : Type} (result : EStateM.Result Trap Machine α) : Prop :=
  ∃ rest, Spends root pool machine (finalState result) free rest

theorem Spends.refl (owned : Owned root pool machine free) :
    Spends root pool machine machine free free where
  toExtends := Extends.refl owned
  untouched := fun _ _ => AgreeOn.refl _ _

theorem Spends.trans (first : Spends root pool machine middle free rest)
    (second : Spends root pool middle after rest last) :
    Spends root pool machine after free last where
  toExtends := first.toExtends.trans second.toExtends
  untouched := fun frame member =>
    (first.untouched frame (second.subset frame member)).trans
      (second.untouched frame member)

/-- The rule for sequences. -/
theorem SpendsFree.bind {α β : Type} {first : Kernel α} {next : α -> Kernel β}
    (spends : SpendsFree root pool machine free (first machine))
    (later : ∀ value middle rest, first machine = .ok value middle ->
      Spends root pool machine middle free rest ->
      SpendsFree root pool middle rest (next value middle)) :
    SpendsFree root pool machine free ((first >>= next) machine) := by
  obtain ⟨rest, spends⟩ := spends
  refine @finalState_bind _ _ _ _ first next machine
    (fun after => ∃ rest, Spends root pool machine after free rest) ?_ ?_
  · intro trap middle fails
    rw [fails] at spends
    exact ⟨rest, spends⟩
  · intro value middle succeeds
    rw [succeeds] at spends
    obtain ⟨last, others⟩ := later value middle rest succeeds spends
    exact ⟨last, spends.trans others⟩

/-- A computation that leaves the machine alone spends nothing. -/
theorem spendsFree_of_keeps {α : Type} {first : Kernel α} (keeps : Keeps first)
    (owned : Owned root pool machine free) :
    SpendsFree root pool machine free (first machine) := by
  refine ⟨free, ?_⟩
  rw [keeps machine]
  exact Spends.refl owned

/-- The frames that stay free are not on the walk. -/
theorem MapFootprint.untouched {taken : List Nat}
    (footprint : MapFootprint root address machine after taken)
    (owned : Owned root pool machine free) (split : free = taken ++ rest) :
    ∀ frame ∈ rest, AgreeOn machine.memory after.memory frame := by
  intro frame member
  have distinct := owned.nodup
  rw [split] at distinct
  refine footprint.contents frame ?_ fun depth reached => ?_
  · intro isTaken
    exact List.disjoint_of_nodup_append distinct isTaken member
  · exact owned.table_notFree reached (split ▸ List.mem_append_right taken member)

theorem Owned.vmMap_spends (usable writable executable : Bool)
    (owned : Owned root pool machine free) (lower : LowerHalf address) :
    ∃ rest, Spends root pool machine
      (machine.vmMap root address usable writable executable).2 free rest := by
  obtain ⟨taken, rest, split, kept, footprint, _⟩ :=
    Machine.vmMap_spec usable writable executable owned lower
  obtain ⟨other, extend, _⟩ := owned.vmMap_extends usable writable executable lower
  obtain rfl : other = rest := extend.kept.free_unique kept
  exact ⟨other, extend, footprint.untouched owned split⟩

theorem Owned.vmProtect_spends (user writable executable : Bool)
    (owned : Owned root pool machine free) (lower : LowerHalf address) :
    Spends root pool machine
      (machine.vmProtect root address user writable executable).2 free free := by
  refine ⟨(owned.vmProtect_extends user writable executable lower).1, ?_⟩
  rcases Machine.vmProtect_spec user writable executable owned lower with
    ⟨_, fails⟩ | ⟨changed, succeeds, _, isProtected⟩
  · rw [fails]
    exact fun _ _ => AgreeOn.refl _ _
  · rw [succeeds]
    exact isProtected.footprint.untouched owned rfl

theorem Owned.store_spends {mapped : Translation} (value : UInt8)
    (owned : Owned root pool machine free) (lower : address < 2 ^ 47)
    (translates : translation machine.memory root address = some mapped) :
    Spends root pool machine
      { machine with
        memory := Function.update machine.memory mapped.physical value } free free := by
  obtain ⟨entry, links, _, rfl, isPage⟩ :=
    owned.leaf_of_translation (lowerHalf_of_lt lower) translates
  refine ⟨(owned.store_extends value lower translates).1, ?_⟩
  intro frame member position inFrame
  apply Function.update_of_ne
  rintro rfl
  rw [Owned.frameOf_physical] at inFrame
  exact (owned.page _ _ (lowerPath_pagePath lower) isPage).2.2.1 (inFrame ▸ member)

theorem Owned.kprintf_spends (owned : Owned root pool machine free) (text : String) :
    Spends root pool machine (machine.kprintf text) free free := by
  have kept : Owned root pool (machine.kprintf text) free :=
    owned.congr rfl rfl (fun _ _ _ => AgreeOn.refl _ _) fun _ _ => AgreeOn.refl _ _
  exact ⟨.of_treeWalk kept rfl rfl (fun _ => rfl) fun _ _ _ => AgreeOn.refl _ _,
    fun _ _ => AgreeOn.refl _ _⟩

/-! ## Loading -/

/-- `memcpy` to the lower half. -/
theorem Kernel.memcpyLoop_spends {fuel i cdest csrc : Nat}
    (owned : Owned root pool machine free) (isRoot : machine.root = root)
    (lower : Canonical cdest -> cdest < 2 ^ 47) :
    Spends root pool machine
      (finalState (memcpyLoop size fuel i cdest csrc machine)) free free := by
  induction fuel generalizing i cdest csrc machine with
  | zero => exact Spends.refl owned
  | succ fuel inductionHypothesis =>
      rw [memcpyLoop]
      by_cases more : i < size
      · rw [if_pos more]
        refine @finalState_bind _ _ _ _ _ _ machine
          (fun after => Spends root pool machine after free free) ?_ ?_
        · intro trap middle fails
          rw [(keeps_loadByte csrc).of_error fails]
          exact Spends.refl owned
        intro byte middle loads
        rw [(keeps_loadByte csrc).of_ok loads]
        refine @finalState_bind _ _ _ _ _ _ machine
          (fun after => Spends root pool machine after free free) ?_ ?_
        · intro trap stored fails
          rw [storeByte_error fails]
          exact Spends.refl owned
        intro _ stored stores
        obtain ⟨canonical, mapped, translates, rfl⟩ := storeByte_ok stores
        have small := lower canonical
        rw [isRoot] at translates
        have spends := owned.store_spends byte small translates
        refine spends.trans (inductionHypothesis spends.kept (spends.root_eq isRoot) ?_)
        unfold Canonical wordSize
        omega
      · rw [if_neg more]
        exact Spends.refl owned

/-- One program header whose segment starts in the lower half. -/
theorem loadPhdr_spends
    (owned : Owned root pool machine free) (isCr3 : machine.cr3 = root)
    (lower : phdr.Loaded -> LowerHalf phdr.vaddr) :
    SpendsFree root pool machine free (loadPhdr header root phdr machine) := by
  by_cases loaded : phdr.Loaded
  · rw [loadPhdr, if_pos loaded]
    obtain ⟨rest, maps⟩ := owned.vmMap_spends true true false (lower loaded)
    apply SpendsFree.bind ⟨rest, maps⟩
    intro _ mapped rest _ spends
    have mappedRoot := spends.root_eq (owned.root_eq isCr3)
    apply SpendsFree.bind ⟨rest, Kernel.memcpyLoop_spends spends.kept mappedRoot
      (lower loaded).lt_of_canonical⟩
    intro _ copied last _ copies
    have copiedCr3 := copies.sameCr3.trans (spends.sameCr3.trans isCr3)
    refine ⟨last, ?_⟩
    have protects := copies.kept.vmProtect_spends phdr.access.user
      phdr.access.writable phdr.access.executable (lower loaded)
    rw [← copiedCr3] at protects ⊢
    exact protects
  · rw [loadPhdr, if_neg loaded]
    exact ⟨free, Spends.refl owned⟩

/-- A loop whose rounds spend frames. -/
theorem SpendsFree.forM {β : Type} {body : β -> Kernel PUnit} {items : List β}
    (owned : Owned root pool machine free) (isCr3 : machine.cr3 = root)
    (step : ∀ item ∈ items, ∀ middle rest, Owned root pool middle rest ->
      middle.cr3 = root -> SpendsFree root pool middle rest (body item middle)) :
    SpendsFree root pool machine free (items.forM body machine) := by
  refine @finalState_forM _ _ _ machine
    (fun after => ∃ rest, Spends root pool machine after free rest) body items
    ⟨free, Spends.refl owned⟩ ?_
  rintro item member middle ⟨rest, spends⟩
  obtain ⟨last, later⟩ := step item member middle rest spends.kept
    (spends.sameCr3.trans isCr3)
  exact ⟨last, spends.trans later⟩

/-- The user stack. -/
theorem mapUserStack_spends
    (owned : Owned root pool machine free) (isCr3 : machine.cr3 = root) :
    SpendsFree root pool machine free (mapUserStack machine) := by
  apply SpendsFree.forM owned isCr3
  intro page member middle rest kept middleCr3
  have small : page < 8 := List.mem_range.mp member
  have masked : middle.readCr3 &&& cr3Mask = root := by
    rw [Machine.readCr3, middleCr3, kept.rootFrame.and_cr3Mask]
  have lower : LowerHalf (userStack + 0x1000 * page) :=
    lowerHalf_of_lt (by unfold userStack; omega)
  obtain ⟨last, maps⟩ := kept.vmMap_spends true true false lower
  rw [← masked] at maps
  exact ⟨last, masked ▸ maps⟩

/-- The program headers of the image whose segments are loaded start them in the lower
half. -/
def StartsLower (image : Nat -> UInt8) : Prop :=
  ∀ phdr ∈ programHeaders image, phdr.Loaded -> LowerHalf phdr.vaddr

/-- Loading a module, however it ends. -/
theorem loadModule_spends
    (owned : Owned root pool machine free) (isCr3 : machine.cr3 = root)
    (imageAt : ImageAt root pool machine header size image)
    (elf : ElfImage image size) (lower : StartsLower image) :
    SpendsFree root pool machine free (loadModule header machine) := by
  have header64 := elf.header
  have masked : machine.readCr3 &&& cr3Mask = root := by
    rw [Machine.readCr3, isCr3, owned.rootFrame.and_cr3Mask]
  rw [loadModule, bind_of_ok (imageAt.loadHeaderField (owned.root_eq isCr3)
    (show 32 + 8 ≤ size by omega)), bind_of_ok (get_apply machine), masked]
  refine SpendsFree.bind ?_ ?_
  · change SpendsFree root pool machine free (programHeaderLoop header root (2 ^ 16) 0
      ((header + elfPhoff image) % wordSize) machine)
    rw [programHeaderLoop_start owned isCr3 imageAt elf lower]
    apply SpendsFree.forM owned isCr3
    intro phdr member middle rest kept middleCr3
    exact loadPhdr_spends kept middleCr3 (lower phdr member)
  intro _ middle rest _ spends
  have middleCr3 := spends.sameCr3.trans isCr3
  apply SpendsFree.bind (mapUserStack_spends spends.kept middleCr3)
  intro _ stacked last _ later
  exact spendsFree_of_keeps ((keeps_loadField _ _ _).bind fun _ => Keeps.pure _)
    later.kept

/-! ## The kernel half -/

/-- Without lower tables and pages the free frames alone are a pool. -/
theorem WellFormed.owned (wellFormed : WellFormed root machine free)
    (nothing : ∀ path, LowerPath path -> treeWalk machine.memory root path = .fault) :
    Owned root {frame | frame ∈ free} machine free := by
  have tables : ∀ path frame, LowerPath path ->
      tableAt machine.memory root path ≠ some frame := by
    intro path frame lower reached
    rw [show tableAt machine.memory root path = none from
      congrArg Walk.table? (nothing path lower)] at reached
    cases reached
  have pages : ∀ path frame, LowerPath path ->
      ¬PageAt machine.memory root path frame := by
    rintro path frame lower ⟨_, entry, above, leaf, _⟩
    rw [nothing path lower] at leaf
    cases leaf
  exact
    { rootFrame := wellFormed.rootFrame
      poolFrame := wellFormed.poolFrame
      freelist := wellFormed.freelist
      freeInPool := fun _ member => member
      tree := wellFormed.tree
      lowerTable := fun path frame lower reached =>
        absurd reached (tables path frame lower)
      upperTable := fun path frame _ reached => wellFormed.notFree path frame reached
      smallPages := fun path table _ lower reached =>
        absurd reached (tables path table lower)
      permissive := by
        intro path table entries lower reached
        rw [nothing path lower] at reached
        cases reached
      page := fun path frame lower isPage => absurd isPage (pages path frame lower)
      pageUnique := fun left _ frame lower _ isPage _ =>
        absurd isPage (pages left frame lower) }

/-- An image outside a pool is outside a smaller one. -/
theorem ImageAt.narrow {narrow : Set Nat}
    (imageAt : ImageAt root pool machine header size image)
    (subset : ∀ frame ∈ narrow, frame ∈ pool) :
    ImageAt root narrow machine header size image where
  bound := imageAt.bound
  upper := imageAt.upper
  stored := by
    intro offset inside
    obtain ⟨mapped, translates, outside, rest⟩ := imageAt.stored offset inside
    exact ⟨mapped, translates, fun member => outside (subset _ member), rest⟩

/-- The module that the name finds is an image with its program headers in memory outside
the pool, and the segments that are loaded start in the lower half. -/
def LoadsLower (root : Nat) (pool : Set Nat) (machine : Machine)
    (hdr : Stivale2Struct) (name : Nat) : Prop :=
  ∀ ourmod, findModule name hdr.modules (machine.unmapLowerHalf machine.cr3) =
      .ok (some ourmod) (machine.unmapLowerHalf machine.cr3) ->
    ∃ size image, ImageAt root pool machine ourmod.beginAddress size image ∧
      ElfImage image size ∧ StartsLower image

/-- `exec_setup` after it has unmapped the lower half, for any pool that the frames in
use and the free ones belong to. -/
theorem execSetup_spendsIn {frames : List Nat} (isCr3 : machine.cr3 = root)
    (owned : Owned root pool (machine.unmapLowerHalf root) frames)
    (sameCr3 : (machine.unmapLowerHalf root).cr3 = root)
    (loadsLower : ∀ ourmod, findModule name hdr.modules (machine.unmapLowerHalf root) =
        .ok (some ourmod) (machine.unmapLowerHalf root) ->
      ∃ size image,
        ImageAt root pool (machine.unmapLowerHalf root) ourmod.beginAddress size image ∧
          ElfImage image size ∧ StartsLower image) :
    SpendsFree root pool (machine.unmapLowerHalf root) frames
      (execSetup hdr name machine) := by
  subst isCr3
  rw [execSetup, bind_of_ok (modify_apply _ _)]
  apply SpendsFree.bind (spendsFree_of_keeps (keeps_findModule name hdr.modules) owned)
  intro found looked rest finds spends
  obtain rfl := (keeps_findModule name hdr.modules).of_ok finds
  cases found with
  | none => exact ⟨rest, spends.kept.kprintf_spends _⟩
  | some ourmod =>
      obtain ⟨size, image, imageAt, elf, lower⟩ := loadsLower ourmod finds
      have loads := loadModule_spends spends.kept sameCr3 imageAt elf lower
      exact SpendsFree.bind loads fun _ _ last _ later =>
        ⟨last, Spends.refl later.kept⟩

/-- The free frames alone are a pool once the lower half is unmapped. -/
theorem execSetup_spends (owned : Owned root pool machine free)
    (isCr3 : machine.cr3 = root) (loadsLower : LoadsLower root pool machine hdr name) :
    SpendsFree root {frame | frame ∈ freeAfterUnmap machine root free}
      (machine.unmapLowerHalf root) (freeAfterUnmap machine root free)
      (execSetup hdr name machine) := by
  subst isCr3
  obtain ⟨unmapped, sameCr3, _⟩ := owned.unmapped rfl
  have narrow := unmapped.wellFormed.owned fun path lower =>
    Machine.treeWalk_unmapLowerHalf_of_lower owned.rootFrame owned.tree lower
  apply execSetup_spendsIn rfl narrow sameCr3
  intro ourmod finds
  obtain ⟨size, image, imageAt, rest⟩ := loadsLower ourmod finds
  exact ⟨size, image, (imageAt.unmapLowerHalf owned).narrow unmapped.freeInPool, rest⟩

/-- However `exec_setup` ends, if the module it finds has segments that start in the lower
half, every address of the upper half translates as before, with the same permissions,
and memory stays as it was outside the level 4 table, the page tables of the previous
program and the frames that left the freelist. -/
theorem exec_keeps_kernel_half
    {root name : Nat} {pool : Set Nat} {machine : Machine} {free : List Nat}
    {hdr : Stivale2Struct}
    (owned : Owned root pool machine free) (isCr3 : machine.cr3 = root)
    (loadsLower : LoadsLower root pool machine hdr name) :
    let after := finalState (execSetup hdr name machine)
    ∃ rest, after.FreelistIs rest ∧
      (∀ address, ¬LowerHalf address -> translation after.memory root address =
        translation machine.memory root address) ∧
      ∀ position, let frame := frameOf position
        frame ≠ root -> frame ∉ lowerTables machine.memory root ->
        (frame ∈ free -> frame ∈ rest) ->
        after.memory position = machine.memory position := by
  intro after
  obtain ⟨rest, spends⟩ := execSetup_spends owned isCr3 loadsLower
  refine ⟨rest, spends.kept.freelist, ?_, ?_⟩
  · intro address upper
    rw [spends.upper address upper, translation_eq, translation_eq,
      Machine.treeWalk_unmapLowerHalf_of_upper owned.rootFrame owned.tree
        (mt (lowerPath_walkPath address 3).mp upper)]
  · intro position frame notRoot notTable stillFree
    have unmapping : AgreeOn machine.memory (machine.unmapLowerHalf root).memory frame :=
      Machine.agreeOn_unmapLowerHalf owned.rootFrame owned.tree notRoot notTable
    have loading : AgreeOn (machine.unmapLowerHalf root).memory after.memory frame := by
      by_cases isFree : frame ∈ free
      · exact spends.untouched frame (stillFree isFree)
      · apply spends.reserved frame _ notRoot
        intro member
        rcases List.mem_append.mp member with isTable | wasFree
        · exact notTable (List.mem_reverse.mp isTable)
        · exact isFree wasFree
    exact (unmapping.trans loading) position rfl

theorem startsLower_bssBytes : StartsLower fun i => bssBytes.getD i 0 := by
  intro phdr member _
  rw [programHeaders_bssBytes, List.mem_singleton] at member
  rw [member]
  decide

/-- Loading a program of the lower half after boot. -/
theorem exec_keeps_kernel_half_bootMachine :
    ∃ start, (bootMachine (bootContent (namedImage bssBytes))).memInit
        (namedHdr bssBytes) = some start ∧
      ∀ address, ¬LowerHalf address ->
        translation (finalState (execSetup (namedHdr bssBytes)
          (bootImageBase + bssBytes.length) start)).memory bootRoot address =
        translation start.memory bootRoot address := by
  obtain ⟨start, free, init, _, _, ready⟩ :=
    boot_exec_ready bssBytes (by decide +kernel) (by decide +kernel)
  have finds := findModule_kernelName ready.owned ready.isCr3 ready.kernelName
    (find_namedHdr bssBytes)
  have loadsLower : LoadsLower bootRoot
      (bootPool bootTag (bootMachine (bootContent (namedImage bssBytes)))) start
      (namedHdr bssBytes) (bootImageBase + bssBytes.length) := by
    intro ourmod found
    rw [finds] at found
    cases found
    exact ⟨bssBytes.length, _, ready.imageAt, elfImage_bssBytes, startsLower_bssBytes⟩
  obtain ⟨_, _, same, _⟩ := exec_keeps_kernel_half ready.owned ready.isCr3 loadsLower
  exact ⟨start, init, same⟩

/-! ## A program with a segment in the kernel half -/

/-- A segment in the last level 4 slot. -/
def kernelPhdr : ElfPhdr where
  type := ptLoad
  flags := 6
  offset := 120
  vaddr := 0xFFFFFF8000000000
  filesz := 8
  memsz := 0

def kernelBytes : List UInt8 := elfBytes 0x400000 [kernelPhdr] [1, 2, 3, 4, 5, 6, 7, 8]

/-- Its image, as a function from offsets. -/
abbrev kernelImage : Nat -> UInt8 := fun i => kernelBytes.getD i 0

theorem programHeaders_kernelBytes : programHeaders kernelImage = [kernelPhdr] := by
  decide +kernel

theorem elfImage_kernelBytes : ElfImage kernelImage kernelBytes.length :=
  ⟨by decide +kernel, by decide +kernel⟩

/-- `vm_map` in a level 4 slot of the upper half keeps an image in another one. -/
theorem ImageAt.vmMap_otherSlot {result : Bool × Machine}
    (imageAt : ImageAt root pool machine header size image)
    (touches : MapTouches root address machine free result)
    (inPool : ∀ frame ∈ free, frame ∈ pool)
    (otherSlot : ∀ offset < size, indices (header + offset) 4 ≠ indices address 4)
    (noTable : ∀ path frame, tableAt machine.memory root path = some frame ->
      frame ≠ root -> frame < 0x10000)
    (high : ∀ offset < size, ∀ mapped,
      translation machine.memory root (header + offset) = some mapped ->
      0x10000 ≤ frameOf mapped.physical) :
    ImageAt root pool result.2 header size image where
  bound := imageAt.bound
  upper := imageAt.upper
  stored := by
    intro offset inside
    obtain ⟨mapped, translates, outside, notRoot, same⟩ := imageAt.stored offset inside
    have above := high offset inside mapped translates
    refine ⟨mapped, ?_, outside, notRoot, ?_⟩
    · rw [translation_eq, touches.otherSlots, ← translation_eq, translates]
      intro suffix
      have sameSlot := (List.suffix_of_suffix_length_le suffix
        (walkPath_suffix (header + offset) (show 1 ≤ 4 by omega)) (by simp)).eq_of_length
          (by simp)
      exact otherSlot offset inside (List.cons.inj sameSlot).1.symm
    · rw [← same]
      refine touches.contents _ (fun member => outside (inPool _ member)) ?_ _ rfl
      intro path reached
      have := noTable path _ reached notRoot
      omega

/-- A walk in the last slot faults, and does not pass a large page. -/
theorem smallWalk_kernelPhdr {content : Nat -> UInt8}
    (upper : ∀ path, ¬LowerPath path -> treeWalk machine.memory bootRoot path =
      treeWalk (bootMemory content) bootRoot path) :
    SmallWalk machine.memory bootRoot kernelPhdr.vaddr ∧
      treeWalk machine.memory bootRoot (pagePath kernelPhdr.vaddr) = .fault := by
  have notLower : ∀ depth, ¬LowerPath (walkPath kernelPhdr.vaddr (depth + 1)) := by
    intro depth
    rw [lowerPath_walkPath]
    decide
  have absent : (entryAt (bootMemory content) bootRoot 511).present = false := by
    rw [bootMemory, entryAt_writeEntry isFrame_bootLowerTable (by decide)
        isFrame_bootRoot, if_neg (by decide),
      entryAt_installFrame isFrame_bootRoot (by decide) isFrame_bootLowerTable
        isFrame_bootRoot (by decide), if_neg (by decide), entryAt_bootDirect_root,
      if_neg (by decide)]
    exact decode_zero_present
  have atRoot : treeWalk (bootMemory content) bootRoot [] = .table bootRoot [] := rfl
  have first : treeWalk machine.memory bootRoot (walkPath kernelPhdr.vaddr 1) =
      .fault := by
    rw [upper _ (notLower 0)]
    exact treeWalk_of_absent atRoot absent
  have second : treeWalk machine.memory bootRoot (walkPath kernelPhdr.vaddr 2) =
      .fault := by
    rw [walkPath_succ, treeWalk_cons, first]
    rfl
  constructor
  · intro depth table below above reached
    have isFault : treeWalk machine.memory bootRoot (walkPath kernelPhdr.vaddr depth) =
        .fault := by
      obtain rfl | rfl : depth = 1 ∨ depth = 2 := by omega
      · exact first
      · exact second
    rw [show tableAt machine.memory bootRoot (walkPath kernelPhdr.vaddr depth) = none from
      congrArg Walk.table? isFault] at reached
    cases reached
  · rw [treeWalk_pagePath (show 1 ≤ 4 by omega) (by simp [first]), first]

/-- The program header table of one header, whatever its segment. -/
theorem programHeaderLoop_single
    (isRoot : machine.root = root)
    (imageAt : ImageAt root pool machine header size image) (elf : ElfImage image size)
    (single : programHeaders image = [phdr])
    (stays : phdr.Loaded -> ImageStays root pool machine header size image phdr)
    (loads : loadPhdr header root phdr machine = .ok () after)
    (afterRoot : after.root = root) (imageAfter : ImageAt root pool after header size image) :
    programHeaderLoop header root (2 ^ 16) 0 ((header + elfPhoff image) % wordSize)
      machine = .ok () after := by
  have header64 := elf.header
  have table := elf.table
  have one : elfPhnum image = 1 := by
    rw [← programHeaders_length, single, List.length_singleton]
  have word : ByteMemory.load image 56 2 = 1 := one
  have isPhdr : elfPhdr image (elfPhoff image) = phdr := by
    have same := single
    rw [programHeaders, one] at same
    simpa using same
  rw [← isPhdr] at stays loads
  have segment := loadSegment_eq_of_stays isRoot imageAt
    (show elfPhoff image + 56 ≤ size by omega) stays
  obtain ⟨fuel, more⟩ : ∃ fuel, 2 ^ 16 = fuel + 1 + 1 := ⟨2 ^ 16 - 2, by decide⟩
  have phnum := imageAt.loadHeaderField isRoot (show 56 + 2 ≤ size by omega)
  have phnumAfter := imageAfter.loadHeaderField afterRoot (show 56 + 2 ≤ size by omega)
  rw [more, programHeaderLoop, bind_of_ok phnum,
    if_pos (show 0 < ByteMemory.load image 56 2 by omega),
    bind_of_ok (segment.trans loads), programHeaderLoop, bind_of_ok phnumAfter,
    if_neg (show ¬0 + 1 < ByteMemory.load image 56 2 by omega), pure_apply]

/-- The rest of a load once the program headers are through. -/
theorem loadModule_of_loop {narrow : Set Nat}
    (owned : Owned root pool machine free) (isCr3 : machine.cr3 = root)
    (imageAt : ImageAt root pool machine header size image) (elf : ElfImage image size)
    (loop : programHeaderLoop header root (2 ^ 16) 0
      ((header + elfPhoff image) % wordSize) machine = .ok () middle)
    (kept : Owned root narrow middle rest) (middleCr3 : middle.cr3 = root)
    (imageMiddle : ImageAt root narrow middle header size image) :
    ∃ after last, loadModule header machine = .ok (usermodeEntry image) after ∧
      Extends root narrow middle after rest last := by
  have header64 := elf.header
  have masked : machine.readCr3 &&& cr3Mask = root := by
    rw [Machine.readCr3, isCr3, owned.rootFrame.and_cr3Mask]
  obtain ⟨after, last, stack, extend, _⟩ := mapUserStack_ok kept middleCr3
  refine ⟨after, last, ?_, extend⟩
  rw [loadModule, bind_of_ok (imageAt.loadHeaderField (owned.root_eq isCr3)
    (show 32 + 8 ≤ size by omega)), bind_of_ok (get_apply machine), masked]
  change (programHeaderLoop header root (2 ^ 16) 0
    ((header + elfPhoff image) % wordSize) >>= _) machine = _
  rw [bind_of_ok loop, bind_of_ok stack,
    bind_of_ok ((imageMiddle.mono extend).loadHeaderField
      (extend.kept.root_eq (extend.sameCr3.trans middleCr3))
      (show 24 + 8 ≤ size by omega))]
  rfl

/-- A copy of no bytes. -/
theorem Kernel.memcpy_zero (dest src : Nat) (machine : Machine) :
    memcpy dest src 0 machine = .ok () machine := by
  obtain ⟨fuel, more⟩ : ∃ fuel, 2 ^ 31 = fuel + 1 := ⟨2 ^ 31 - 1, by decide⟩
  rw [memcpy, more, memcpyLoop, if_neg (by omega), pure_apply]

/-- Loading the segment maps a page in the last slot. -/
theorem loadPhdr_kernelPhdr (header : Nat) {content : Nat -> UInt8}
    (owned : Owned bootRoot pool machine free) (isCr3 : machine.cr3 = bootRoot)
    (upper : ∀ path, ¬LowerPath path -> treeWalk machine.memory bootRoot path =
      treeWalk (bootMemory content) bootRoot path)
    (enough : EnoughFrames free 4) :
    let result := machine.vmMap bootRoot kernelPhdr.vaddr true true false
    loadPhdr header bootRoot kernelPhdr machine = .ok () result.2 ∧
      MapTouches bootRoot kernelPhdr.vaddr machine free result ∧ result.1 = true ∧
      ∃ taken rest, free = taken ++ rest ∧ WellFormed bootRoot result.2 rest := by
  intro result
  have wellFormed := owned.wellFormed
  obtain ⟨small, fault⟩ := smallWalk_kernelPhdr upper
  have touches := wellFormed.vmMap_touches true true false small
  have run := wellFormed.vmMap true true false small
  have succeeds : result.1 = true := by
    have few := missingTables_le machine.memory bootRoot kernelPhdr.vaddr 3
    have many := enough.many
    refine (run.succeeds fault).mpr ?_
    rw [usableCount_eq_length enough.noZero]
    omega
  obtain ⟨taken, rest, split, took⟩ := run.took
  refine ⟨?_, touches, succeeds, taken, rest, split, took.wellFormed⟩
  refine (loadPhdr_eq_ok_iff (by decide)).mpr ⟨result.2, Kernel.memcpy_zero _ _ _, ?_⟩
  have protects := wellFormed.vmProtect_vmMap true true false true true false small succeeds
  have mappedCr3 : result.2.cr3 = bootRoot := touches.sameCr3.trans isCr3
  rw [mappedCr3]
  exact (congrArg Prod.snd protects).symm

/-- The page tables of the bootloader and the frames of the module image. -/
theorem frame_of_bootTables {content : Nat -> UInt8} {path : List Nat}
    (lower : ∀ path, LowerPath path -> treeWalk machine.memory bootRoot path = .fault)
    (upper : ∀ path, ¬LowerPath path -> treeWalk machine.memory bootRoot path =
      treeWalk (bootMemory content) bootRoot path)
    (reached : tableAt machine.memory bootRoot path = some frame) : frame < 0x10000 := by
  by_cases isLower : LowerPath path
  · rw [show tableAt machine.memory bootRoot path = none from
      congrArg Walk.table? (lower path isLower)] at reached
    cases reached
  · rw [tableAt_congr (upper path isLower)] at reached
    rcases mem_of_tableAt_bootMemory reached with ⟨same, _⟩ | ⟨same, _⟩ | ⟨same, _⟩ <;>
      rw [same] <;> decide

/-- The image can still be read once the page is mapped. -/
theorem imageAt_kernelImage {content : Nat -> UInt8} {result : Bool × Machine}
    (owned : Owned bootRoot pool machine free)
    (imageAt : ImageAt bootRoot pool machine bootImageBase kernelBytes.length kernelImage)
    (lower : ∀ path, LowerPath path -> treeWalk machine.memory bootRoot path = .fault)
    (upper : ∀ path, ¬LowerPath path -> treeWalk machine.memory bootRoot path =
      treeWalk (bootMemory content) bootRoot path)
    (touches : MapTouches bootRoot kernelPhdr.vaddr machine free result) :
    ImageAt bootRoot pool result.2 bootImageBase kernelBytes.length kernelImage := by
  have short : kernelBytes.length ≤ 0xf0000 := by decide +kernel
  have slot : ∀ offset < kernelBytes.length, indices (bootImageBase + offset) 4 = 256 := by
    intro offset inside
    have unfolded : indices (bootImageBase + offset) 4 =
      (bootImageBase + offset) / 2 ^ 39 % 512 := rfl
    unfold bootImageBase bootHhdmBase at unfolded ⊢
    omega
  apply imageAt.vmMap_otherSlot touches owned.freeInPool
  · intro offset inside
    rw [slot offset inside]
    decide
  · exact fun path frame reached _ => frame_of_bootTables lower upper reached
  · intro offset inside mapped translates
    have isUpper : ¬LowerPath (pagePath (bootImageBase + offset)) := by
      rw [lowerPath_walkPath, LowerHalf, slot offset inside]
      decide
    have direct := translation_bootMemory content (show 0x10000 + offset < 2 ^ 30 by omega)
    rw [translation_eq, upper _ isUpper, ← translation_eq,
      show bootImageBase + offset = bootHhdmBase + (0x10000 + offset) by
        unfold bootImageBase
        omega, direct] at translates
    cases translates
    unfold frameOf
    dsimp only
    omega

/-- The kernel enters a program whose segment is in the kernel half, where a page is
mapped then that was not mapped before. -/
theorem exec_maps_kernel_half :
    ∃ start after : Machine,
      (bootMachine (bootContent (namedImage kernelBytes))).memInit
        (namedHdr kernelBytes) = some start ∧
      execSetup (namedHdr kernelBytes) (bootImageBase + kernelBytes.length) start =
        .ok (.entered (usermodeEntry kernelImage)) after ∧
      kernelPhdr ∈ programHeaders kernelImage ∧ ¬LowerHalf kernelPhdr.vaddr ∧
      translation start.memory bootRoot kernelPhdr.vaddr = none ∧
      translation after.memory bootRoot kernelPhdr.vaddr ≠ none := by
  obtain ⟨start, free, init, ready, _, _, upper⟩ :=
    boot_exec_walks kernelBytes (by decide +kernel) (by decide +kernel)
  obtain ⟨owned, isCr3, kernelName, imageAt, enough⟩ := ready
  have finds := findModule_kernelName owned isCr3 kernelName (find_namedHdr kernelBytes)
  obtain ⟨unmapped, unmappedCr3, _⟩ := owned.unmapped isCr3
  have imageUnmapped := imageAt.unmapLowerHalf owned
  have lowerUnmapped : ∀ path, LowerPath path ->
      treeWalk (start.unmapLowerHalf bootRoot).memory bootRoot path = .fault :=
    fun path lower =>
      Machine.treeWalk_unmapLowerHalf_of_lower owned.rootFrame owned.tree lower
  have upperUnmapped : ∀ path, ¬LowerPath path ->
      treeWalk (start.unmapLowerHalf bootRoot).memory bootRoot path =
        treeWalk (bootMemory (bootContent (namedImage kernelBytes))) bootRoot path :=
    fun path isUpper => (Machine.treeWalk_unmapLowerHalf_of_upper owned.rootFrame
      owned.tree isUpper).trans (upper path isUpper)
  rw [isCr3] at finds unmapped unmappedCr3
  have four : EnoughFrames (freeAfterUnmap start bootRoot free) 4 :=
    ⟨enough.noZero, le_trans (by omega) enough.many⟩
  obtain ⟨loads, touches, succeeds, taken, rest, split, wellFormed⟩ :=
    loadPhdr_kernelPhdr bootImageBase unmapped unmappedCr3 upperUnmapped four
  have imageMapped :=
    imageAt_kernelImage unmapped imageUnmapped lowerUnmapped upperUnmapped touches
  have mappedCr3 := touches.sameCr3.trans unmappedCr3
  have kept := wellFormed.owned fun path lower => by
    rw [touches.otherSlots path, lowerUnmapped path lower]
    rintro ⟨above, rfl⟩
    have isLower := (lowerPath_append above (by simp [walkPath])).mp lower
    exact absurd ((lowerPath_walkPath _ 0).mp isLower) (by decide)
  have imageKept := imageMapped.narrow fun frame member =>
    unmapped.freeInPool frame (split ▸ List.mem_append_right taken member)
  have loop := programHeaderLoop_single (unmapped.root_eq unmappedCr3) imageUnmapped
    elfImage_kernelBytes programHeaders_kernelBytes
    (fun _ => ⟨⟨kept.root_eq mappedCr3, imageMapped⟩, fun copied copies => by
      rw [show kernelPhdr.memsz = 0 from rfl, Kernel.memcpy_zero] at copies
      cases copies
      exact ⟨kept.root_eq mappedCr3, imageMapped⟩⟩)
    loads (kept.root_eq mappedCr3) imageMapped
  obtain ⟨after, last, run, extend⟩ := loadModule_of_loop unmapped unmappedCr3
    imageUnmapped elfImage_kernelBytes loop kept mappedCr3 imageKept
  rw [← isCr3] at finds
  have enters := execSetup_of_loadModule finds (by rw [isCr3]; exact run)
  refine ⟨start, after, init, enters, ?_, by decide, ?_, ?_⟩
  · rw [programHeaders_kernelBytes]
    exact List.mem_singleton_self _
  · rw [translation_eq, (smallWalk_kernelPhdr upper).2]
    rfl
  · rw [extend.upper _ (by decide)]
    exact touches.page succeeds

end StarterKernel
