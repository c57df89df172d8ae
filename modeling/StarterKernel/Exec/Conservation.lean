import StarterKernel.Exec.KernelHalf
import Mathlib.Data.Set.Card

/-!
# The frames over many programs

Starting a program gives the page tables of the previous one back, but not its pages:
their frames are neither free nor in use any more.
-/

namespace StarterKernel

open StateError

variable {root name frame tag : Nat} {pool lost : Set Nat} {free rest : List Nat}
variable {start machine after : Machine} {hdr : Stivale2Struct}

/-! ## One start of a program -/

/-- The frames of the pages of the lower half. -/
def lowerPages (memory : Nat -> UInt8) (root : Nat) : Set Nat :=
  { frame | ∃ path, LowerPath path ∧ PageAt memory root path frame }

/-- The modules are images in memory outside the pool, and the segments that are loaded
start in the lower half. -/
def ModulesLower (hdr : Stivale2Struct) (root : Nat) (pool : Set Nat) (machine : Machine) :
    Prop :=
  ∀ ourmod ∈ hdr.modules, ∃ size image,
    ImageAt root pool machine ourmod.beginAddress size image ∧
      ElfImage image size ∧ StartsLower image

theorem ModulesLower.congr (modules : ModulesLower hdr root pool machine)
    (upper : ∀ address, ¬LowerHalf address ->
      translation after.memory root address = translation machine.memory root address)
    (reserved : ∀ frame, frame ∉ pool -> frame ≠ root ->
      AgreeOn machine.memory after.memory frame) :
    ModulesLower hdr root pool after := by
  intro ourmod member
  obtain ⟨size, image, imageAt, rest⟩ := modules ourmod member
  exact ⟨size, image, imageAt.congr upper reserved, rest⟩

theorem ModulesLower.unmapLowerHalf (modules : ModulesLower hdr root pool machine)
    (owned : Owned root pool machine free) :
    ModulesLower hdr root pool (machine.unmapLowerHalf root) := by
  intro ourmod member
  obtain ⟨size, image, imageAt, rest⟩ := modules ourmod member
  exact ⟨size, image, imageAt.unmapLowerHalf owned, rest⟩

/-- A page is no free frame once the lower half is unmapped. -/
theorem Owned.page_not_reclaimed (owned : Owned root pool machine free)
    (isPage : frame ∈ lowerPages machine.memory root) :
    frame ∉ freeAfterUnmap machine root free := by
  obtain ⟨path, lower, isPage⟩ := isPage
  obtain ⟨_, _, notFree, notTable⟩ := owned.page path frame lower isPage
  intro member
  rcases List.mem_append.mp member with isTable | isFree
  · obtain ⟨above, _, reached⟩ := mem_lowerTables.mp (List.mem_reverse.mp isTable)
    exact notTable above reached
  · exact notFree isFree

/-- In a state with a pool of its own, free frames are not in use. -/
theorem Owned.free_notInUse (owned : Owned root pool machine free) (isFree : frame ∈ free) :
    ¬InUse machine.memory root frame := by
  rintro (⟨path, lower, reached⟩ | ⟨path, lower, isPage⟩)
  · exact (owned.lowerTable path frame lower reached).2 isFree
  · exact (owned.page path frame lower isPage).2.2.1 isFree

/-- Nothing of the lower half is in use once it is unmapped. -/
theorem Owned.unmapped_notInUse (owned : Owned root pool machine free) :
    ¬InUse (machine.unmapLowerHalf root).memory root frame := by
  have nothing : ∀ path, LowerPath path ->
      treeWalk (machine.unmapLowerHalf root).memory root path = .fault := fun path lower =>
    Machine.treeWalk_unmapLowerHalf_of_lower owned.rootFrame owned.tree lower
  rintro (⟨path, lower, reached⟩ | ⟨path, lower, -, entry, above, leaf, -⟩)
  · rw [show tableAt (machine.unmapLowerHalf root).memory root path = none from
      congrArg RadixTree.Walk.table? (nothing path lower)] at reached
    cases reached
  · rw [nothing path lower] at leaf
    cases leaf

/-- A list of frames that each went one of two ways. -/
theorem length_add_ncard {frames rest : List Nat} {used : Set Nat}
    (nodup : frames.Nodup) (restNodup : rest.Nodup)
    (parts : ∀ frame, frame ∈ frames ↔ frame ∈ rest ∨ frame ∈ used)
    (disjoint : ∀ frame ∈ rest, frame ∉ used) :
    rest.length + used.ncard = frames.length := by
  have isUsed : used = ↑(frames.toFinset \ rest.toFinset) := by
    ext frame
    rw [Finset.mem_coe, Finset.mem_sdiff, List.mem_toFinset, List.mem_toFinset, parts]
    constructor
    · exact fun member => ⟨Or.inr member, fun isRest => disjoint frame isRest member⟩
    · exact fun ⟨either, notRest⟩ => either.resolve_left notRest
  have subset : rest.toFinset ⊆ frames.toFinset := fun frame member =>
    List.mem_toFinset.mpr ((parts frame).mpr (Or.inl (List.mem_toFinset.mp member)))
  have count := Finset.card_sdiff_add_card_eq_card subset
  rw [List.toFinset_card_of_nodup nodup, List.toFinset_card_of_nodup restNodup] at count
  rw [isUsed, Set.ncard_coe_finset]
  omega

/-- However `exec_setup` ends: the frames that were free or page tables are free or in
use, and no others are. -/
structure ExecAccounts (root : Nat) (pool : Set Nat) (machine : Machine) (free : List Nat)
    (after : Machine) (rest : List Nat) : Prop where
  owned : Owned root pool after rest
  sameCr3 : after.cr3 = root
  roles : ∀ frame ∈ freeAfterUnmap machine root free,
    frame ∈ rest ∨ frame = 0 ∨ InUse after.memory root frame
  only : ∀ frame, frame ∈ rest ∨ InUse after.memory root frame ->
    frame ∈ freeAfterUnmap machine root free
  upper : ∀ address, ¬LowerHalf address ->
    translation after.memory root address = translation machine.memory root address
  reserved : ∀ frame, frame ∉ pool -> frame ≠ root ->
    AgreeOn machine.memory after.memory frame

theorem execSetup_accounts (owned : Owned root pool machine free)
    (isCr3 : machine.cr3 = root) (modules : ModulesLower hdr root pool machine) :
    ∃ rest, ExecAccounts root pool machine free
      (finalState (execSetup hdr name machine)) rest := by
  obtain ⟨unmapped, sameCr3, -⟩ := owned.unmapped isCr3
  rw [isCr3] at unmapped sameCr3
  obtain ⟨rest, spends⟩ : SpendsFree root pool (machine.unmapLowerHalf root)
      (freeAfterUnmap machine root free) (execSetup hdr name machine) :=
    execSetup_spendsIn isCr3 unmapped sameCr3 fun ourmod finds =>
      modules.unmapLowerHalf owned ourmod (findModule_mem finds)
  refine ⟨rest, spends.kept, spends.sameCr3.trans sameCr3, spends.roles, ?_, ?_, ?_⟩
  · rintro frame (isRest | inUse)
    · exact spends.subset frame isRest
    · exact (spends.fresh frame inUse).resolve_left owned.unmapped_notInUse
  · intro address upper
    rw [spends.upper address upper, translation_eq, translation_eq,
      Machine.treeWalk_unmapLowerHalf_of_upper owned.rootFrame owned.tree
        (mt (lowerPath_walkPath address 3).mp upper)]
  · intro frame outside notRoot
    have notTable : frame ∉ lowerTables machine.memory root := fun member => by
      obtain ⟨path, lower, reached⟩ := mem_lowerTables.mp member
      exact outside (owned.lowerTable path frame lower reached).1
    exact (Machine.agreeOn_unmapLowerHalf owned.rootFrame owned.tree notRoot notTable).trans
      (spends.reserved frame outside notRoot)

/-- The free frames, the page tables and the pages are as many as the free frames and the
page tables were, unless physical page 0 is among them, which `vm_map` takes and does not
use. -/
theorem ExecAccounts.count (accounts : ExecAccounts root pool machine free after rest)
    (before : Owned root pool machine free)
    (noZero : 0 ∉ freeAfterUnmap machine root free) :
    rest.length + (lowerTables after.memory root).length +
        (lowerPages after.memory root).ncard =
      free.length + (lowerTables machine.memory root).length := by
  have total : free.length + (lowerTables machine.memory root).length =
      (freeAfterUnmap machine root free).length := by
    rw [List.length_append, List.length_reverse, Nat.add_comm]
  have tables (frame : Nat) : frame ∈ lowerTables after.memory root ->
      InUse after.memory root frame := fun member => Or.inl (mem_lowerTables.mp member)
  rw [total, ← List.length_append]
  apply length_add_ncard before.unmapLowerHalf.nodup
  · refine List.nodup_append'.mpr ⟨accounts.owned.nodup,
      (List.nodup_append.mp (nodup_lowerTables accounts.owned.tree)).1, ?_⟩
    exact fun frame isRest member => accounts.owned.free_notInUse isRest (tables frame member)
  · intro frame
    constructor
    · intro member
      rcases accounts.roles frame member with isRest | isZero | (isTable | isPage)
      · exact Or.inl (List.mem_append_left _ isRest)
      · exact absurd (isZero ▸ member) noZero
      · exact Or.inl (List.mem_append_right _ (mem_lowerTables.mpr isTable))
      · exact Or.inr isPage
    · rintro (given | isPage)
      · rcases List.mem_append.mp given with isRest | isTable
        · exact accounts.only frame (Or.inl isRest)
        · exact accounts.only frame (Or.inr (tables frame isTable))
      · exact accounts.only frame (Or.inr (Or.inr isPage))
  · intro frame member isPage
    rcases List.mem_append.mp member with isRest | isTable
    · exact accounts.owned.free_notInUse isRest (Or.inr isPage)
    · obtain ⟨above, _, reached⟩ := mem_lowerTables.mp isTable
      obtain ⟨path, lower, isPage⟩ := isPage
      exact (accounts.owned.page path frame lower isPage).2.2.2 above reached

/-! ## Runs -/

/-- Any number of calls of `exec_setup`, however they end, with the stores of the programs
between them, and the frames of the pages that were mapped when one of the calls began. -/
inductive ExecRun (hdr : Stivale2Struct) (root : Nat) (start : Machine) :
    (lost : Set Nat) -> Machine -> Prop
  | start : ExecRun hdr root start ∅ start
  | exec {lost : Set Nat} {machine : Machine} (name : Nat)
      (run : ExecRun hdr root start lost machine) :
      ExecRun hdr root start (lost ∪ lowerPages machine.memory root)
        (finalState (execSetup hdr name machine))
  | userStore {lost : Set Nat} {machine : Machine} {mapped : Translation} (address : Nat)
      (value : UInt8) (run : ExecRun hdr root start lost machine) (lower : address < 2 ^ 47)
      (translates : translation machine.memory root address = some mapped)
      (user : mapped.user = true) :
      ExecRun hdr root start lost
        { machine with memory := Function.update machine.memory mapped.physical value }

theorem ExecRun.execOk {outcome : ExecOutcome} (run : ExecRun hdr root start lost machine)
    (ends : execSetup hdr name machine = .ok outcome after) :
    ExecRun hdr root start (lost ∪ lowerPages machine.memory root) after := by
  have next := run.exec name
  rwa [ends] at next

/-- What is known of the frames in a state of a run: the lost ones are neither free nor in
use, and no others are, of those that were free at the start. -/
structure Accounted (hdr : Stivale2Struct) (root : Nat) (pool lost : Set Nat)
    (first : List Nat) (machine : Machine) (free : List Nat) : Prop where
  owned : Owned root pool machine free
  sameCr3 : machine.cr3 = root
  modules : ModulesLower hdr root pool machine
  gone : ∀ frame ∈ lost, frame ∉ free ∧ ¬InUse machine.memory root frame
  kept : ∀ frame ∈ first, frame ≠ 0 ->
    frame ∈ free ∨ InUse machine.memory root frame ∨ frame ∈ lost

namespace Accounted

variable {first : List Nat}

theorem exec (accounted : Accounted hdr root pool lost first machine free)
    (accounts : ExecAccounts root pool machine free after rest) :
    Accounted hdr root pool (lost ∪ lowerPages machine.memory root) first after rest := by
  obtain ⟨owned, sameCr3, modules, gone, kept⟩ := accounted
  refine ⟨accounts.owned, accounts.sameCr3, modules.congr accounts.upper accounts.reserved,
    ?_, ?_⟩
  · intro frame isLost
    have notReclaimed : frame ∉ freeAfterUnmap machine root free := by
      rcases isLost with wasLost | isPage
      · obtain ⟨notFree, notInUse⟩ := gone frame wasLost
        intro member
        rcases List.mem_append.mp member with isTable | isFree
        · exact notInUse (Or.inl (mem_lowerTables.mp (List.mem_reverse.mp isTable)))
        · exact notFree isFree
      · exact owned.page_not_reclaimed isPage
    exact ⟨fun isRest => notReclaimed (accounts.only frame (Or.inl isRest)),
      fun inUse => notReclaimed (accounts.only frame (Or.inr inUse))⟩
  · intro frame member notZero
    -- What was free or a table is given out again, the pages are lost.
    have given (reclaimed : frame ∈ freeAfterUnmap machine root free) :
        frame ∈ rest ∨ InUse after.memory root frame ∨
          frame ∈ lost ∪ lowerPages machine.memory root := by
      rcases accounts.roles frame reclaimed with isFree | isZero | inUse
      · exact Or.inl isFree
      · exact absurd isZero notZero
      · exact Or.inr (Or.inl inUse)
    rcases kept frame member notZero with isFree | (isTable | isPage) | wasLost
    · exact given (List.mem_append_right _ isFree)
    · exact given (List.mem_append_left _
        (List.mem_reverse.mpr (mem_lowerTables.mpr isTable)))
    · exact Or.inr (Or.inr (Or.inr isPage))
    · exact Or.inr (Or.inr (Or.inl wasLost))

theorem userStore {address : Nat} {mapped : Translation}
    (accounted : Accounted hdr root pool lost first machine free) (value : UInt8)
    (lower : address < 2 ^ 47)
    (translates : translation machine.memory root address = some mapped) :
    Accounted hdr root pool lost first
      { machine with memory := Function.update machine.memory mapped.physical value }
      free := by
  obtain ⟨owned, sameCr3, modules, gone, kept⟩ := accounted
  obtain ⟨extend, walks, -⟩ := owned.store_extends value lower translates
  refine ⟨extend.kept, sameCr3, modules.congr extend.upper extend.reserved, ?_, ?_⟩
  · intro frame wasLost
    obtain ⟨notFree, notInUse⟩ := gone frame wasLost
    exact ⟨notFree, fun inUse => (extend.fresh frame inUse).elim notInUse notFree⟩
  · intro frame member notZero
    rcases kept frame member notZero with isFree | inUse | wasLost
    · exact Or.inl isFree
    · exact Or.inr (Or.inl (inUse.mono extend))
    · exact Or.inr (Or.inr wasLost)

end Accounted

theorem ExecRun.accounted (owned : Owned root pool start free) (isCr3 : start.cr3 = root)
    (modules : ModulesLower hdr root pool start) (run : ExecRun hdr root start lost machine) :
    ∃ rest, Accounted hdr root pool lost free machine rest := by
  induction run with
  | start =>
      exact ⟨free, owned, isCr3, modules, fun _ member => absurd member (Set.notMem_empty _),
        fun _ member _ => Or.inl member⟩
  | exec name _ inductionHypothesis =>
      obtain ⟨rest, accounted⟩ := inductionHypothesis
      obtain ⟨last, accounts⟩ :=
        execSetup_accounts accounted.owned accounted.sameCr3 accounted.modules
      exact ⟨last, accounted.exec accounts⟩
  | userStore address value _ lower translates _ inductionHypothesis =>
      obtain ⟨rest, accounted⟩ := inductionHypothesis
      exact ⟨rest, accounted.userStore value lower translates⟩

/-- In every state of every run from `mem_init`, each usable frame is on the freelist, or a
page table or a page of the lower half, or lost: the frame of a page that was mapped when
an earlier `exec_setup` began.  Each call leaves as many free frames, page tables and pages
as there were free frames and page tables. -/
theorem exec_loses_mapped_pages
    {hdr : Stivale2Struct} {tag : Nat} {machine start later : Machine} {lost : Set Nat}
    (handover : Handover hdr tag machine) (init : machine.memInit hdr = some start)
    (modules : ModulesLower hdr machine.cr3 (bootPool tag machine) start)
    (run : ExecRun hdr machine.cr3 start lost later) :
    ∃ free, later.FreelistIs free ∧
      (∀ frame ∈ usableFrames machine.memory tag (mmapEntries machine.memory tag),
        (frame ∈ free ∨ InUse later.memory machine.cr3 frame ∨ frame ∈ lost) ∧
          (frame ∈ free -> ¬InUse later.memory machine.cr3 frame) ∧
          (frame ∈ lost -> frame ∉ free ∧ ∀ path,
            tableAt later.memory machine.cr3 path ≠ some frame ∧
              (LowerPath path -> ¬PageAt later.memory machine.cr3 path frame))) ∧
      ∀ name, let after := finalState (execSetup hdr name later)
        ∃ rest, after.FreelistIs rest ∧
          (0 ∉ lowerTables machine.memory machine.cr3 ->
            rest.length + (lowerTables after.memory machine.cr3).length +
                (lowerPages after.memory machine.cr3).ncard =
              free.length + (lowerTables later.memory machine.cr3).length) := by
  obtain ⟨start', first, init', initialized⟩ := handover.memInit_initialized
  obtain rfl : start' = start := Option.some.inj (init'.symm.trans init)
  obtain ⟨free, accounted⟩ := run.accounted initialized.owned initialized.sameCr3 modules
  obtain ⟨owned, sameCr3, laterModules, gone, kept⟩ := accounted
  refine ⟨free, owned.freelist, fun frame usable => ⟨?_, ?_, ?_⟩, fun name => ?_⟩
  · apply kept frame (initialized.allFree frame (Or.inl usable))
    rintro rfl
    exact handover.usableNonzero usable
  · exact fun isFree => owned.free_notInUse isFree
  · intro isLost
    obtain ⟨notFree, notInUse⟩ := gone frame isLost
    refine ⟨notFree, fun path => ⟨fun reached => ?_, fun lower isPage => ?_⟩⟩
    · by_cases lower : LowerPath path
      · exact notInUse (Or.inl ⟨path, lower, reached⟩)
      · exact owned.upperTable path frame lower reached (Or.inl usable)
    · exact notInUse (Or.inr ⟨path, lower, isPage⟩)
  · obtain ⟨rest, accounts⟩ := execSetup_accounts owned sameCr3 laterModules
    refine ⟨rest, accounts.owned.freelist, fun noZero => accounts.count owned ?_⟩
    intro member
    rcases owned.unmapLowerHalf.freeInPool 0 member with usable | isTable
    · exact handover.usableNonzero usable
    · exact noZero isTable

/-- The modules of the boot machine are in the lower half. -/
theorem modulesLower_bssBytes {name : Nat} {bytes : List UInt8}
    (ready : ExecReady name bytes bootImageBase bssBytes.length
      (fun i => bssBytes.getD i 0) root pool machine free) :
    ModulesLower (namedHdr bssBytes) root pool machine := by
  intro ourmod member
  obtain rfl := List.mem_singleton.mp member
  exact ⟨bssBytes.length, _, ready.imageAt, elfImage_bssBytes, startsLower_bssBytes⟩

/-- After boot this is so while a program replaces itself. -/
theorem exec_loses_mapped_pages_bootMachine :
    ∃ start, (bootMachine (bootContent (namedImage bssBytes))).memInit
        (namedHdr bssBytes) = some start ∧
      let name := bootImageBase + bssBytes.length
      let once := finalState (execSetup (namedHdr bssBytes) name start)
      let twice := finalState (execSetup (namedHdr bssBytes) name once)
      ∃ free rest, once.FreelistIs free ∧ twice.FreelistIs rest ∧
        rest.length + (lowerTables twice.memory bootRoot).length +
            (lowerPages twice.memory bootRoot).ncard =
          free.length + (lowerTables once.memory bootRoot).length := by
  obtain ⟨start, _, init, _, _, ready⟩ :=
    boot_exec_ready bssBytes (by decide +kernel) (by decide +kernel)
  have noZero : 0 ∉ lowerTables (bootMemory (bootContent (namedImage bssBytes))) bootRoot :=
    fun member => zero_not_mem_bootPool (namedImage bssBytes) (Or.inr member)
  obtain ⟨free, freelist, _, next⟩ := exec_loses_mapped_pages
    (handover_bootMachine _ _) init (modulesLower_bssBytes ready)
    (.exec (bootImageBase + bssBytes.length) .start)
  obtain ⟨rest, restlist, count⟩ := next (bootImageBase + bssBytes.length)
  exact ⟨start, init, free, rest, freelist, restlist, count noZero⟩

/-! ## A program that replaces itself -/

/-- `exec_setup` of a program that fits leaves the state ready for it again. -/
theorem ExecReady.execSetup_again {size : Nat} {image : Nat -> UInt8}
    {bytes : List UInt8} {ourmod : Stivale2Module}
    (ready : ExecReady name bytes ourmod.beginAddress size image root pool machine free)
    (first : hdr.modules.find? (fun ourmod => ourmod.string = bytes) = some ourmod)
    (elf : ElfImage image size) (pages : SeparatePages (programHeaders image) size)
    (zeroOutside : 0 ∉ pool)
    (many : 4 * (elfPhnum image + 8) + 4 * (elfPhnum image + 8) ≤
      (freeAfterUnmap machine root free).length) :
    ∃ after rest,
      execSetup hdr name machine = .ok (.entered (usermodeEntry image)) after ∧
      lowerSpace after.memory root = programSpace image ∧
      ExecReady name bytes ourmod.beginAddress size image root pool after rest := by
  obtain ⟨after, rest, enters, extend, count, space⟩ :=
    ready.execSetup_image first elf pages
  obtain ⟨owned, isCr3, kernelName, imageAt, enough⟩ := ready
  subst isCr3
  refine ⟨after, rest, enters, space, extend.kept, ?_, ?_, ?_, ?_, ?_⟩
  · exact extend.sameCr3.trans (owned.unmapped rfl).2.1
  · exact ImageAt.mono (ImageAt.unmapLowerHalf kernelName owned) extend
  · exact (imageAt.unmapLowerHalf owned).mono extend
  · exact fun member => zeroOutside (extend.kept.unmapLowerHalf.freeInPool 0 member)
  · rw [List.length_append]
    omega

/-- The pages of the stack are mapped in the address space of a program. -/
theorem Owned.stackPage {image : Nat -> UInt8} {page : Nat}
    (owned : Owned root pool machine free)
    (space : lowerSpace machine.memory root = programSpace image) (small : page < 8) :
    LowerPath (pagePath (userStack + 0x1000 * page)) ∧
      ∃ frame, PageAt machine.memory root (pagePath (userStack + 0x1000 * page)) frame := by
  have lower : userStack + 0x1000 * page < 2 ^ 47 := by
    unfold userStack
    omega
  have isMapped : programSpace image (userStack + 0x1000 * page) ≠ none :=
    mapStackPages_mapped (List.mem_range.mpr small)
  rw [← space, ne_eq, lowerSpace_eq_none_iff lower] at isMapped
  obtain ⟨_, translates⟩ := Option.ne_none_iff_exists'.mp isMapped
  obtain ⟨entry, _, _, _, isPage⟩ := owned.leaf_of_translation (lowerHalf_of_lt lower)
    translates
  exact ⟨lowerPath_pagePath lower, entry.frame, isPage⟩

/-- Of two pages of the lower half one has a frame that the memory map lists. -/
theorem exists_usable_page {image : List UInt8} {left right : List Nat}
    (owned : Owned bootRoot (bootPool bootTag (bootMachine (bootContent image))) machine free)
    (leftLower : LowerPath left) (rightLower : LowerPath right) (different : left ≠ right)
    {leftFrame rightFrame : Nat} (leftPage : PageAt machine.memory bootRoot left leftFrame)
    (rightPage : PageAt machine.memory bootRoot right rightFrame) :
    ∃ frame ∈ lowerPages machine.memory bootRoot,
      frame ∈ usableFrames (bootMemory (bootContent image)) bootTag
        (mmapEntries (bootMemory (bootContent image)) bootTag) := by
  -- The bootloader has one page table in the lower half.
  have isOnly {frame : Nat}
      (isTable : frame ∈ lowerTables (bootMemory (bootContent image)) bootRoot) :
      frame = bootLowerTable := by
    obtain ⟨path, lower, reached⟩ := mem_lowerTables.mp isTable
    rcases mem_of_tableAt_bootMemory reached with ⟨same, _⟩ | ⟨_, rfl⟩ | ⟨_, rfl⟩
    · exact same
    · exact absurd lower (by simp [LowerPath])
    · exact absurd lower (by simp [LowerPath])
  rcases (owned.page left leftFrame leftLower leftPage).1 with usable | leftTable
  · exact ⟨leftFrame, ⟨left, leftLower, leftPage⟩, usable⟩
  · rcases (owned.page right rightFrame rightLower rightPage).1 with usable | rightTable
    · exact ⟨rightFrame, ⟨right, rightLower, rightPage⟩, usable⟩
    · have same : leftFrame = rightFrame := (isOnly leftTable).trans (isOnly rightTable).symm
      exact absurd (owned.pageUnique left right leftFrame leftLower rightLower leftPage
        (same ▸ rightPage)) different

/-- A program that replaces itself loses a usable frame: it is neither free, nor a page
table, nor a page of the lower half. -/
theorem exec_again_loses_usable_frame :
    ∃ start once twice frame rest,
      (bootMachine (bootContent (namedImage bssBytes))).memInit (namedHdr bssBytes) =
        some start ∧
      execSetup (namedHdr bssBytes) (bootImageBase + bssBytes.length) start =
        .ok (.entered (usermodeEntry fun i => bssBytes.getD i 0)) once ∧
      execSetup (namedHdr bssBytes) (bootImageBase + bssBytes.length) once =
        .ok (.entered (usermodeEntry fun i => bssBytes.getD i 0)) twice ∧
      frame ∈ usableFrames (bootMemory (bootContent (namedImage bssBytes))) bootTag
        (mmapEntries (bootMemory (bootContent (namedImage bssBytes))) bootTag) ∧
      twice.FreelistIs rest ∧ frame ∉ rest ∧
      (∀ path, tableAt twice.memory bootRoot path ≠ some frame) ∧
      ∀ path, LowerPath path -> ¬PageAt twice.memory bootRoot path frame := by
  obtain ⟨start, free, init, _, many, ready⟩ :=
    boot_exec_ready bssBytes (by decide +kernel) (by decide +kernel)
  have modules := modulesLower_bssBytes ready
  have enough : 4 * (elfPhnum (fun i => bssBytes.getD i 0) + 8) +
      4 * (elfPhnum (fun i => bssBytes.getD i 0) + 8) ≤ 256 := by decide +kernel
  obtain ⟨once, _, enters, space, again⟩ := ready.execSetup_again (find_namedHdr bssBytes)
    elfImage_bssBytes onePageSegments_bssBytes.pages (zero_not_mem_bootPool _) (by
      rw [List.length_append]
      exact enough.trans (many.many.trans (Nat.le_add_left _ _)))
  obtain ⟨twice, _, entersAgain, _⟩ := again.execSetup_image (find_namedHdr bssBytes)
    elfImage_bssBytes onePageSegments_bssBytes.pages
  obtain ⟨firstLower, _, firstPage⟩ := again.owned.stackPage space (show 0 < 8 by decide)
  obtain ⟨secondLower, _, secondPage⟩ := again.owned.stackPage space (show 1 < 8 by decide)
  obtain ⟨frame, isPage, usable⟩ := exists_usable_page again.owned firstLower secondLower
    (by decide) firstPage secondPage
  have run : ExecRun (namedHdr bssBytes) bootRoot start
      (∅ ∪ lowerPages start.memory bootRoot ∪ lowerPages once.memory bootRoot) twice :=
    (ExecRun.start.execOk enters).execOk entersAgain
  obtain ⟨rest, accounted⟩ := run.accounted ready.owned ready.isCr3 modules
  obtain ⟨notFree, notInUse⟩ := accounted.gone frame (Or.inr isPage)
  refine ⟨start, once, twice, frame, rest, init, enters, entersAgain, usable,
    accounted.owned.freelist, notFree, fun path reached => ?_, fun path lower isPage =>
    notInUse (Or.inr ⟨path, lower, isPage⟩)⟩
  by_cases lower : LowerPath path
  · exact notInUse (Or.inl ⟨path, lower, reached⟩)
  · exact accounted.owned.upperTable path frame lower reached (Or.inl usable)

end StarterKernel
