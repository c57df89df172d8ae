import StarterKernel.Exec.OutsidePool
import StarterKernel.Exec.Setup

/-!
# The module of a booted machine

The bootloader places a module image in reserved memory behind the direct map.
After `mem_init` the kernel reads exactly these bytes there, whatever they are.
-/

namespace StarterKernel

/-- Where the kernel finds the module image of the boot machine. -/
def bootImageBase : Nat := bootHhdmBase + 0x10000

variable {image : List UInt8} {modules : List Stivale2Module} {offset : Nat}

/-- A direct map of large pages. -/
theorem translation_directMap {memory : Nat -> UInt8}
    (rootEntry : entryAt memory bootRoot 256 = bootEntry bootUpperTable false)
    (upperEntry : entryAt memory bootUpperTable (offset / 2 ^ 30) =
      bootEntry (offset / 2 ^ 30 * 2 ^ 30) true)
    (small : offset < 2 ^ 39) :
    translation memory bootRoot (bootHhdmBase + offset) =
      some { physical := offset, user := false, writable := true, noExecute := false } := by
  have top : indices (bootHhdmBase + offset) 4 = 256 := by
    have unfolded : indices (bootHhdmBase + offset) 4 =
      (bootHhdmBase + offset) / 2 ^ 39 % 512 := rfl
    unfold bootHhdmBase at unfolded ⊢
    omega
  have second : indices (bootHhdmBase + offset) 3 = offset / 2 ^ 30 := by
    have unfolded : indices (bootHhdmBase + offset) 3 =
      (bootHhdmBase + offset) / 2 ^ 30 % 512 := rfl
    unfold bootHhdmBase at unfolded ⊢
    omega
  have top : PtEntry.decode (ByteMemory.load memory
      (bootRoot + 8 * indices (bootHhdmBase + offset) 4) 8) =
        bootEntry bootUpperTable false := by
    rw [← entryAt_indices _ _ _ 3, top, rootEntry]
  have second : PtEntry.decode (ByteMemory.load memory
      (bootUpperTable + 8 * indices (bootHhdmBase + offset) 3) 8) =
        bootEntry (offset / 2 ^ 30 * 2 ^ 30) true := by
    rw [← entryAt_indices _ _ _ 2, second, upperEntry]
  have inPage : (bootHhdmBase + offset) % 2 ^ 30 = offset % 2 ^ 30 := by
    unfold bootHhdmBase
    omega
  have upperFrame : (bootEntry bootUpperTable false).frame = bootUpperTable := by decide
  have pageFrame : (bootEntry (offset / 2 ^ 30 * 2 ^ 30) true).frame =
      offset / 2 ^ 30 * 2 ^ 30 :=
    bootEntry_frame ⟨by omega, by omega⟩ true
  rw [translation, hardwareWalk]
  dsimp only
  rw [top, upperFrame, if_neg (by decide), if_neg (by decide), hardwareWalk]
  dsimp only
  rw [second, if_neg (by simp [bootEntry]), if_pos (by simp [bootEntry]), Option.map_some,
    inPage, pageFrame]
  have position : offset / 2 ^ 30 * 2 ^ 30 / 2 ^ (12 + 9 * 2) * 2 ^ (12 + 9 * 2) +
      offset % 2 ^ 30 = offset := by
    omega
  rw [position]
  simp [Translation.through, bootEntry, show (PtEntry.decode 0).user = false by decide,
    show (PtEntry.decode 0).noExecute = false by decide]

/-- The direct map of the boot machine. -/
theorem translation_bootMemory (content : Nat -> UInt8) (small : offset < 2 ^ 30) :
    translation (bootMemory content) bootRoot (bootHhdmBase + offset) =
      some { physical := offset, user := false, writable := true, noExecute := false } := by
  have first : offset / 2 ^ 30 = 0 := Nat.div_eq_of_lt small
  refine translation_directMap (entryAt_bootMemory_root content) ?_ (by omega)
  rw [first]
  exact entryAt_bootMemory_upper content

theorem bootContent_image (image : List UInt8) :
    (fun i => bootContent image (0x10000 + i)) = fun i => image.getD i 0 := by
  funext i
  unfold bootContent
  rw [ByteMemory.store_outside (by omega), ByteMemory.store_outside (by omega),
    ByteMemory.store_outside (by omega), ByteMemory.store_outside (by omega),
    ByteMemory.store_outside (by omega), if_pos (Nat.le_add_right _ _), Nat.add_sub_cancel_left]

/-- The kernel finds what the bootloader left behind its tables and below the usable
region. -/
theorem directImageAt (image : List UInt8) {first size : Nat} (above : 0x4000 ≤ first)
    (below : first + size ≤ 0x100000) :
    ImageAt bootRoot (bootPool bootTag (bootMachine (bootContent image)))
      (bootMachine (bootContent image)) (bootHhdmBase + first) size
      (fun i => bootContent image (first + i)) where
  bound := by
    unfold bootHhdmBase wordSize
    omega
  upper := by
    intro offset inside
    have top : indices (bootHhdmBase + first + offset) 4 =
      (bootHhdmBase + first + offset) / 2 ^ 39 % 512 := rfl
    unfold LowerHalf Canonical wordSize
    unfold bootHhdmBase at *
    omega
  stored := by
    intro offset inside
    have entries := mmapEntries_boot image
    have translates := @translation_bootMemory (first + offset) (bootContent image) (by omega)
    rw [← Nat.add_assoc] at translates
    have outside : 0x4000 ≤ first + offset := by omega
    refine ⟨_, translates, ?_, ?_, bootMemory_outside (Or.inr outside)⟩
    · unfold frameOf
      rintro (usable | lower)
      · simp only [bootMachine, entries, usableFrames_boot] at usable
        obtain ⟨page, _, same⟩ := mem_rangeFrames.mp usable
        omega
      · obtain ⟨path, _, reached⟩ := mem_lowerTables.mp lower
        have low : (first + offset) / 4096 * 4096 ≤ 0x3000 := by
          rcases mem_of_tableAt_bootMemory reached with ⟨same, _⟩ | ⟨same, _⟩ |
            ⟨same, _⟩ <;> rw [same] <;> decide
        omega
    · unfold frameOf bootRoot
      dsimp only
      omega

/-- The kernel finds the module image where the bootloader says. -/
theorem Initialized.imageAt {start : Machine} {free : List Nat}
    (initialized : Initialized (bootHdr modules) bootTag
      (bootMachine (bootContent image)) start free)
    (short : image.length ≤ 0xf0000) :
    ImageAt bootRoot (bootPool bootTag (bootMachine (bootContent image))) start
      bootImageBase image.length (fun i => image.getD i 0) := by
  have direct := @directImageAt image 0x10000 image.length (by decide) (by omega)
  rw [bootContent_image] at direct
  exact direct.congr initialized.outsidePool.upper initialized.contents

/-- After boot a program can be loaded. -/
theorem boot_ready (image : List UInt8) (modules : List Stivale2Module)
    (short : image.length ≤ 0xf0000) :
    ∃ start free,
      (bootMachine (bootContent image)).memInit (bootHdr modules) = some start ∧
      Owned bootRoot (bootPool bootTag (bootMachine (bootContent image))) start free ∧
      start.cr3 = bootRoot ∧
      ImageAt bootRoot (bootPool bootTag (bootMachine (bootContent image))) start
        bootImageBase image.length (fun i => image.getD i 0) ∧
      lowerSpace start.memory bootRoot = emptySpace ∧ EnoughFrames free 256 ∧
      EnoughFrames (freeAfterUnmap start bootRoot free) 256 := by
  obtain ⟨start, free, init, initialized, noZero, many⟩ := boot_initialized image modules
  have owned : Owned bootRoot (bootPool bootTag (bootMachine (bootContent image))) start
      free := initialized.owned
  have zeroOutside := zero_not_mem_bootPool image
  refine ⟨start, free, init, owned, initialized.sameCr3, initialized.imageAt short, ?_,
    ⟨noZero, many⟩, ?_, ?_⟩
  · funext address
    by_cases lower : address < 2 ^ 47
    · rw [lowerSpace_eq lower, translation_eq]
      exact congrArg _ (congrArg _ (initialized.lower _ (lowerPath_pagePath lower)))
    · exact lowerSpace_of_le (by omega) _
  · exact fun member => zeroOutside (owned.unmapLowerHalf.freeInPool 0 member)
  · rw [List.length_append]
    omega

/-- A module image, followed by its name in reserved memory. -/
def namedImage (program : List UInt8) : List UInt8 := program ++ (initName ++ [0])

/-- The boot structure with this module. -/
def namedHdr (program : List UInt8) : Stivale2Struct :=
  bootHdr [initModule bootImageBase (bootImageBase + program.length)]

theorem namedImage_length (program : List UInt8) :
    (namedImage program).length = program.length + (initName.length + 1) := by
  simp [namedImage]

theorem getD_namedImage {program : List UInt8} {i : Nat} (inside : i < program.length) :
    (namedImage program).getD i 0 = program.getD i 0 :=
  List.getD_append _ _ _ _ inside

/-- After boot the kernel can `exec` the module by a name of its own. -/
theorem boot_exec_ready (program : List UInt8) (short : program.length ≤ 0xe0000)
    (few : 4 * (elfPhnum (fun i => program.getD i 0) + 8) ≤ 256) :
    let pool := bootPool bootTag (bootMachine (bootContent (namedImage program)))
    ∃ start free,
      (bootMachine (bootContent (namedImage program))).memInit (namedHdr program) =
        some start ∧
      lowerSpace start.memory bootRoot = emptySpace ∧ EnoughFrames free 256 ∧
      ExecReady (bootImageBase + program.length) initName bootImageBase program.length
        (fun i => program.getD i 0) bootRoot pool start free := by
  intro pool
  have name4 : initName.length = 4 := by decide
  have length := namedImage_length program
  obtain ⟨start, free, init, owned, isCr3, imageAt, empty, many, enough⟩ := boot_ready
    (namedImage program) [initModule bootImageBase (bootImageBase + program.length)]
    (by omega)
  refine ⟨start, free, init, empty, many, owned, isCr3, ?_, ?_,
    ⟨enough.noZero, few.trans enough.many⟩⟩
  · rw [length] at imageAt
    have name := imageAt.drop
    have same : (fun offset => (namedImage program).getD (program.length + offset) 0) =
        fun i => initName.getD i 0 := by
      funext i
      rw [namedImage, List.getD_append_right _ _ _ _ (by omega), Nat.add_sub_cancel_left]
      by_cases inside : i < initName.length
      · rw [List.getD_append _ _ _ _ inside]
      · rw [List.getD_append_right _ _ _ _ (by omega),
          List.getD_eq_default initName _ (by omega)]
        cases i - initName.length <;> rfl
    rw [same] at name
    exact name
  · refine
      { bound := by have := imageAt.bound; omega
        upper := fun offset inside => imageAt.upper offset (by omega)
        stored := ?_ }
    intro offset inside
    rw [← getD_namedImage inside]
    exact imageAt.stored offset (by omega)

/-- Nothing is mapped in the lower half then, and the walks in the upper half are those
the bootloader left. -/
theorem boot_exec_walks (program : List UInt8) (short : program.length ≤ 0xe0000)
    (few : 4 * (elfPhnum (fun i => program.getD i 0) + 8) ≤ 256) :
    let pool := bootPool bootTag (bootMachine (bootContent (namedImage program)))
    ∃ start free,
      (bootMachine (bootContent (namedImage program))).memInit (namedHdr program) =
        some start ∧
      ExecReady (bootImageBase + program.length) initName bootImageBase program.length
        (fun i => program.getD i 0) bootRoot pool start free ∧
      EnoughFrames free 256 ∧
      (∀ path, LowerPath path -> treeWalk start.memory bootRoot path = .fault) ∧
      ∀ path, ¬LowerPath path -> treeWalk start.memory bootRoot path =
        treeWalk (bootMemory (bootContent (namedImage program))) bootRoot path := by
  intro pool
  obtain ⟨start, free, init, _, enough, ready⟩ := boot_exec_ready program short few
  obtain ⟨other, _, otherInit, initialized, _⟩ := boot_initialized (namedImage program)
    [initModule bootImageBase (bootImageBase + program.length)]
  obtain rfl : start = other := Option.some.inj (init.symm.trans otherInit)
  exact ⟨start, free, init, ready, enough, initialized.lower, initialized.upper⟩

/-- The lookup of that name. -/
theorem find_namedHdr (program : List UInt8) :
    (namedHdr program).modules.find? (fun ourmod => ourmod.string = initName) =
      some (initModule bootImageBase (bootImageBase + program.length)) := by
  simp [namedHdr, bootHdr, initModule]

/-! ## Writing an image -/

/-- The little-endian bytes of a word. -/
def wordBytes (count value : Nat) : List UInt8 :=
  (List.range count).map fun i => UInt8.ofNat (value / 256 ^ i)

/-- The bytes of a program header. -/
def ElfPhdr.bytes (phdr : ElfPhdr) : List UInt8 :=
  wordBytes 4 phdr.type ++ wordBytes 4 phdr.flags ++ wordBytes 8 phdr.offset ++
    wordBytes 8 phdr.vaddr ++ wordBytes 8 phdr.vaddr ++ wordBytes 8 phdr.filesz ++
    wordBytes 8 phdr.memsz ++ wordBytes 8 0x1000

/-- An ELF image: the header, the program header table and the contents. -/
def elfBytes (entry : Nat) (phdrs : List ElfPhdr) (contents : List UInt8) :
    List UInt8 :=
  List.replicate 24 0 ++ wordBytes 8 entry ++ wordBytes 8 64 ++
    List.replicate 16 0 ++ wordBytes 2 phdrs.length ++ List.replicate 6 0 ++
    phdrs.flatMap ElfPhdr.bytes ++ contents

end StarterKernel
