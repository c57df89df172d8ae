import StarterKernel.Exec.BootImage

/-!
# The contents of the segments

The loader copies `p_memsz` bytes where the file has `p_filesz`.  A segment gets
its contents exactly if the bytes behind it in the image happen to be zero.
-/

namespace StarterKernel

open PagedSpace (Space)

variable {root header size : Nat} {pool : Set Nat} {machine : Machine}
variable {free : List Nat} {image : Nat -> UInt8}

/-! ## The loader and the ELF format -/

/-- The bytes at `p_vaddr` are those the ELF format asks for: `p_filesz` bytes of
the image, and zeroes up to `p_memsz`. -/
structure ElfContents (image : Nat -> UInt8) (space : Space Access) (phdr : ElfPhdr) :
    Prop where
  file : ∀ k < phdr.filesz,
    (space (phdr.vaddr + k)).map PagedSpace.Cell.byte = some (image (phdr.offset + k))
  bss : ∀ k < phdr.memsz, phdr.filesz ≤ k ->
    (space (phdr.vaddr + k)).map PagedSpace.Cell.byte = some 0

/-- Every LOAD segment lies in a page of its own, and `0 < p_filesz ≤ p_memsz`. -/
structure OnePageSegments (image : Nat -> UInt8) (size : Nat) : Prop where
  filesz : ∀ phdr ∈ programHeaders image, phdr.type = ptLoad ->
    0 < phdr.filesz ∧ phdr.filesz ≤ phdr.memsz
  pages : SeparatePages (programHeaders image) size

/-- The loop over the program headers ends, and then every segment holds the bytes
of the image up to its memory size. -/
theorem programHeaderLoop_bytes
    (owned : Owned root pool machine free) (isCr3 : machine.cr3 = root)
    (imageAt : ImageAt root pool machine header size image)
    (elf : ElfImage image size) (segments : OnePageSegments image size)
    (enough : EnoughFrames (freeAfterUnmap machine root free) (4 * elfPhnum image)) :
    ∃ after,
      programHeaderLoop header root (2 ^ 16) 0 ((header + elfPhoff image) % wordSize)
        (machine.unmapLowerHalf machine.cr3) = .ok () after ∧
      ∀ phdr ∈ programHeaders image, phdr.type = ptLoad -> ∀ k < phdr.memsz,
        (lowerSpace after.memory root (phdr.vaddr + k)).map PagedSpace.Cell.byte =
          some (image (phdr.offset + k)) := by
  subst isCr3
  have pages := segments.pages
  obtain ⟨unmapped, sameCr3, empty⟩ := owned.unmapped rfl
  have imageUnmapped := imageAt.unmapLowerHalf owned
  have vacant : ∀ phdr ∈ programHeaders image, phdr.Loaded ->
      emptySpace phdr.vaddr = none := fun _ _ _ => rfl
  obtain ⟨after, rest, run, _, _, space⟩ := loadPhdrs_image unmapped sameCr3
    imageUnmapped pages (by rw [empty]; exact vacant) enough.noZero
    (by rw [programHeaders_length]; exact enough.many)
  have loop := programHeaderLoop_start unmapped sameCr3 imageUnmapped elf
    fun phdr member loaded => lowerHalf_of_lt (pages.onePage phdr member loaded).lower
  refine ⟨after, loop.trans run, ?_⟩
  intro phdr member isLoad k inside
  have loaded : phdr.Loaded := ⟨isLoad, (segments.filesz phdr member isLoad).1⟩
  rw [space, empty, loadAll_segment pages vacant member loaded inside]
  rfl

/-- After the loop over the program headers every segment has the contents that the
ELF format asks for, if and only if the bytes of the image behind the file part of
every segment are zero up to its memory size. -/
theorem loader_contents_iff
    (owned : Owned root pool machine free) (isCr3 : machine.cr3 = root)
    (imageAt : ImageAt root pool machine header size image)
    (elf : ElfImage image size) (segments : OnePageSegments image size)
    (enough : EnoughFrames (freeAfterUnmap machine root free) (4 * elfPhnum image)) :
    ∃ after,
      programHeaderLoop header root (2 ^ 16) 0 ((header + elfPhoff image) % wordSize)
        (machine.unmapLowerHalf machine.cr3) = .ok () after ∧
      ((∀ phdr ∈ programHeaders image, phdr.type = ptLoad ->
          ElfContents image (lowerSpace after.memory root) phdr) ↔
        ∀ phdr ∈ programHeaders image, phdr.type = ptLoad ->
          ∀ k < phdr.memsz, phdr.filesz ≤ k -> image (phdr.offset + k) = 0) := by
  obtain ⟨after, run, bytes⟩ := programHeaderLoop_bytes owned isCr3 imageAt elf segments
    enough
  refine ⟨after, run, ?_, ?_⟩
  · intro contents phdr member isLoad k inside bss
    have zero := (contents phdr member isLoad).bss k inside bss
    rw [bytes phdr member isLoad k inside] at zero
    exact Option.some.inj zero
  · intro zeroes phdr member isLoad
    have sizes := segments.filesz phdr member isLoad
    refine ⟨fun k inFile => bytes phdr member isLoad k (by omega), ?_⟩
    intro k inside bss
    rw [bytes phdr member isLoad k inside, zeroes phdr member isLoad k inside bss]

/-! ## A program with a `.bss` part -/

/-- Four bytes of data and four bytes of `.bss`, with other bytes behind them. -/
def bssPhdr : ElfPhdr where
  type := ptLoad
  flags := 6
  offset := 120
  vaddr := 0x400000
  filesz := 4
  memsz := 8

def bssBytes : List UInt8 := elfBytes 0x400000 [bssPhdr] [1, 2, 3, 4, 5, 6, 7, 8]

theorem programHeaders_bssBytes :
    programHeaders (fun i => bssBytes.getD i 0) = [bssPhdr] := by
  decide +kernel

theorem elfImage_bssBytes :
    ElfImage (fun i => bssBytes.getD i 0) bssBytes.length :=
  ⟨by decide +kernel, by decide +kernel⟩

theorem onePageSegments_bssBytes :
    OnePageSegments (fun i => bssBytes.getD i 0) bssBytes.length where
  filesz := by
    rw [programHeaders_bssBytes]
    simp [bssPhdr]
  pages := by
    rw [programHeaders_bssBytes]
    exact separatePages_singleton ⟨by decide, by decide⟩ (by decide +kernel)

/-- The booted machine loads the program, but its `.bss` is not zero. -/
theorem loader_contents_iff_bootMachine :
    ∃ machine after : Machine,
      (bootMachine (bootContent bssBytes)).memInit (bootHdr []) =
        some machine ∧
      programHeaderLoop bootImageBase bootRoot (2 ^ 16) 0
          ((bootImageBase + elfPhoff fun i => bssBytes.getD i 0) % wordSize)
          (machine.unmapLowerHalf machine.cr3) = .ok () after ∧
      ((∀ phdr ∈ programHeaders (fun i => bssBytes.getD i 0), phdr.type = ptLoad ->
          ElfContents (fun i => bssBytes.getD i 0)
            (lowerSpace after.memory bootRoot) phdr) ↔
        ∀ phdr ∈ programHeaders (fun i => bssBytes.getD i 0), phdr.type = ptLoad ->
          ∀ k < phdr.memsz, phdr.filesz ≤ k ->
            bssBytes.getD (phdr.offset + k) 0 = 0) := by
  obtain ⟨machine, free, init, owned, isCr3, imageAt, _, _, enough⟩ :=
    boot_ready bssBytes [] (by decide +kernel)
  obtain ⟨after, run, iff⟩ := loader_contents_iff owned isCr3 imageAt elfImage_bssBytes
    onePageSegments_bssBytes ⟨enough.noZero, le_trans (by decide +kernel) enough.many⟩
  exact ⟨machine, after, init, run, iff⟩

/-- The loader leaves the bytes 5 to 8 of the file in the `.bss` of this program. -/
theorem loader_leaks_into_bss :
    ∃ machine after, (bootMachine (bootContent bssBytes)).memInit (bootHdr []) =
        some machine ∧
      programHeaderLoop bootImageBase bootRoot (2 ^ 16) 0
          ((bootImageBase + elfPhoff fun i => bssBytes.getD i 0) % wordSize)
          (machine.unmapLowerHalf machine.cr3) = .ok () after ∧
      bssPhdr ∈ programHeaders (fun i => bssBytes.getD i 0) ∧
      bssPhdr.type = ptLoad ∧ 0 < bssPhdr.filesz ∧ bssPhdr.filesz ≤ bssPhdr.memsz ∧
      ¬ElfContents (fun i => bssBytes.getD i 0) (lowerSpace after.memory bootRoot)
        bssPhdr := by
  obtain ⟨machine, free, init, owned, isCr3, imageAt, _, _, enough⟩ :=
    boot_ready bssBytes [] (by decide +kernel)
  obtain ⟨after, run, bytes⟩ := programHeaderLoop_bytes owned isCr3 imageAt
    elfImage_bssBytes onePageSegments_bssBytes
    ⟨enough.noZero, le_trans (by decide +kernel) enough.many⟩
  have member : bssPhdr ∈ programHeaders (fun i => bssBytes.getD i 0) := by
    rw [programHeaders_bssBytes]
    exact List.mem_singleton_self _
  refine ⟨machine, after, init, run, member, rfl, by decide, by decide, ?_⟩
  intro contents
  have isZero := contents.bss 4 (by decide) (by decide)
  have isFive := bytes bssPhdr member rfl 4 (by decide)
  rw [isZero] at isFive
  exact absurd isFive (by decide +kernel)

end StarterKernel
