import StarterKernel.Exec.BootImage
import Mathlib.Data.List.Pairwise

/-!
# Which pages the loader maps

The loader maps the first page of a segment if the segment has a file size.  A
segment of several pages makes the copy fault.  So when user mode is entered,
every page of every segment is mapped with the right permissions exactly if no
segment consists of `.bss` only.
-/

namespace StarterKernel

open PagedSpace (Space)

variable {root size name position : Nat} {pool : Set Nat} {machine after : Machine}
variable {free : List Nat} {image : Nat -> UInt8} {phdr : ElfPhdr}
variable {phdrs : List ElfPhdr} {space middle last : Space Access}
variable {hdr : Stivale2Struct} {ourmod : Stivale2Module} {entry : UsermodeEntry}

/-- The permissions at an address. -/
def accessAt (space : Space Access) (position : Nat) : Option Access :=
  (space position).map PagedSpace.Cell.access

/-- The address lies in a page that overlaps the segment. -/
def ElfPhdr.Occupies (phdr : ElfPhdr) (position : Nat) : Prop :=
  ∃ offset < phdr.memsz, position / 4096 = (phdr.vaddr + offset) / 4096

/-- LOAD segments without a common page. -/
def ElfPhdr.Separate (first second : ElfPhdr) : Prop :=
  first.type = ptLoad -> second.type = ptLoad -> ∀ position,
    first.Occupies position -> ¬second.Occupies position

instance : Std.Symm ElfPhdr.Separate where
  symm := fun _ _ separate secondLoad firstLoad position inSecond inFirst =>
    separate firstLoad secondLoad position inFirst inSecond

/-- The LOAD segments occupy pairwise disjoint sets of lower-half pages outside the
user stack.  The ELF format demands that they are not larger in the file than in
memory. -/
structure DisjointSegments (phdrs : List ElfPhdr) : Prop where
  filesz : ∀ phdr ∈ phdrs, phdr.type = ptLoad -> phdr.filesz ≤ phdr.memsz
  lower : ∀ phdr ∈ phdrs, phdr.type = ptLoad -> phdr.vaddr + phdr.memsz ≤ 2 ^ 47
  separate : phdrs.Pairwise ElfPhdr.Separate
  stack : ∀ phdr ∈ phdrs, phdr.type = ptLoad -> ∀ position, phdr.Occupies position ->
    position < userStack ∨ userStack + userStackSize ≤ position

theorem ElfPhdr.occupies_first (occupied : 0 < phdr.memsz)
    (samePage : position / 4096 = phdr.vaddr / 4096) : phdr.Occupies position :=
  ⟨0, occupied, by rw [Nat.add_zero, samePage]⟩

/-! ## One program header -/

/-- Outside the first page of the segment permissions stay. -/
theorem LoadsPhdr.access_other (loads : LoadsPhdr phdr space last)
    (otherPage : phdr.Loaded -> position / 4096 ≠ phdr.vaddr / 4096) :
    accessAt last position = accessAt space position := by
  unfold LoadsPhdr at loads
  split at loads
  next loaded =>
    obtain ⟨_, source, rfl⟩ := loads
    unfold accessAt loadedSpace
    rw [PagedSpace.protect_other (otherPage loaded), PagedSpace.write_access,
      PagedSpace.map_other (otherPage loaded)]
  next => rw [loads]

/-- A segment that was copied lies in one page, which gets its permissions. -/
theorem LoadsPhdr.access_segment (loads : LoadsPhdr phdr space last)
    (loaded : phdr.Loaded)
    (vacant : ∀ offset < phdr.memsz, space (phdr.vaddr + offset) = none)
    (occupies : phdr.Occupies position) :
    position / 4096 = phdr.vaddr / 4096 ∧ accessAt last position = some phdr.access := by
  rw [LoadsPhdr, if_pos loaded] at loads
  obtain ⟨mapped, source, rfl⟩ := loads
  obtain ⟨offset, inside, inPage⟩ := occupies
  have onePage : (phdr.vaddr + offset) / 4096 = phdr.vaddr / 4096 := by
    by_contra otherPage
    apply mapped offset inside
    rw [PagedSpace.map_other otherPage]
    exact vacant offset inside
  have samePage := inPage.trans onePage
  have firstVacant : space phdr.vaddr = none := vacant 0 (by omega)
  refine ⟨samePage, ?_⟩
  unfold accessAt loadedSpace
  rw [PagedSpace.protect_same samePage, Option.map_map]
  have access : (PagedSpace.write (PagedSpace.map 4096 space phdr.vaddr dataAccess)
      phdr.vaddr phdr.memsz source position).map PagedSpace.Cell.access =
        some dataAccess := by
    rw [PagedSpace.write_access, PagedSpace.map_vacant firstVacant samePage]
    rfl
  obtain ⟨cell, isCell, _⟩ := Option.map_eq_some_iff.mp access
  rw [isCell]
  rfl

/-! ## All program headers -/

theorem LoadsAll.access_other (loads : LoadsAll phdrs space last)
    (otherPages : ∀ phdr ∈ phdrs, phdr.Loaded ->
      position / 4096 ≠ phdr.vaddr / 4096) :
    accessAt last position = accessAt space position := by
  induction loads with
  | nil => rfl
  | cons first _ inductionHypothesis =>
      simp only [List.mem_cons, forall_eq_or_imp] at otherPages
      rw [inductionHypothesis otherPages.2, first.access_other otherPages.1]

/-- The first pages of the segments differ. -/
theorem DisjointSegments.otherPage {first : ElfPhdr}
    (segments : DisjointSegments (first :: phdrs)) (occupies : first.Occupies position)
    (isLoad : first.type = ptLoad) :
    ∀ phdr ∈ phdrs, phdr.Loaded -> position / 4096 ≠ phdr.vaddr / 4096 := by
  intro phdr member loaded samePage
  have occupied : 0 < phdr.memsz := by
    have := segments.filesz phdr (List.mem_cons_of_mem _ member) loaded.1
    have := loaded.2
    omega
  have separate := (List.pairwise_cons.mp segments.separate).1 phdr member
  exact separate isLoad loaded.1 position occupies (phdr.occupies_first occupied samePage)

theorem DisjointSegments.tail {first : ElfPhdr}
    (segments : DisjointSegments (first :: phdrs)) : DisjointSegments phdrs where
  filesz := fun phdr member => segments.filesz phdr (List.mem_cons_of_mem _ member)
  lower := fun phdr member => segments.lower phdr (List.mem_cons_of_mem _ member)
  separate := (List.pairwise_cons.mp segments.separate).2
  stack := fun phdr member => segments.stack phdr (List.mem_cons_of_mem _ member)

/-- Every loaded segment has its permissions on every page it occupies. -/
theorem LoadsAll.access_segment (loads : LoadsAll phdrs space last)
    (segments : DisjointSegments phdrs)
    (vacant : ∀ phdr ∈ phdrs, phdr.type = ptLoad -> ∀ position,
      phdr.Occupies position -> accessAt space position = none)
    (member : phdr ∈ phdrs) (loaded : phdr.Loaded) (occupies : phdr.Occupies position) :
    accessAt last position = some phdr.access := by
  induction loads with
  | nil => cases member
  | @cons first phdrs space middle last loadsFirst loadsRest inductionHypothesis =>
      have separate := (List.pairwise_cons.mp segments.separate).1
      rcases List.mem_cons.mp member with rfl | later
      · obtain ⟨_, access⟩ := loadsFirst.access_segment loaded (fun offset inside => by
            have isVacant := vacant phdr (by simp) loaded.1 (phdr.vaddr + offset)
              ⟨offset, inside, rfl⟩
            simpa [accessAt] using isVacant) occupies
        rw [loadsRest.access_other (segments.otherPage occupies loaded.1), access]
      · refine inductionHypothesis segments.tail ?_ later
        intro other otherMember isLoad position occupies
        rw [loadsFirst.access_other]
        · exact vacant other (List.mem_cons_of_mem _ otherMember) isLoad position occupies
        · intro firstLoaded samePage
          have occupied : 0 < first.memsz := by
            have := segments.filesz first (by simp) firstLoaded.1
            have := firstLoaded.2
            omega
          exact separate other otherMember firstLoaded.1 isLoad position
            (first.occupies_first occupied samePage) occupies

/-- A segment that is not loaded stays unmapped. -/
theorem LoadsAll.access_skipped (loads : LoadsAll phdrs space last)
    (segments : DisjointSegments phdrs) (vacant : accessAt space position = none)
    (member : phdr ∈ phdrs) (isLoad : phdr.type = ptLoad) (noFile : phdr.filesz = 0)
    (occupies : phdr.Occupies position) :
    accessAt last position = none := by
  rw [loads.access_other, vacant]
  intro other otherMember otherLoaded samePage
  have occupied : 0 < other.memsz := by
    have := segments.filesz other otherMember otherLoaded.1
    have := otherLoaded.2
    omega
  have different : phdr ≠ other := by
    rintro rfl
    have := otherLoaded.2
    omega
  exact segments.separate.forall member otherMember different isLoad otherLoaded.1
    position occupies (other.occupies_first occupied samePage)

/-- The user stack is mapped elsewhere. -/
theorem access_mapStackPages {pages : List Nat} (small : ∀ page ∈ pages, page < 8)
    (outside : position < userStack ∨ userStack + userStackSize ≤ position) :
    accessAt (mapStackPages pages space) position = accessAt space position := by
  induction pages generalizing space with
  | nil => rfl
  | cons page pages inductionHypothesis =>
      simp only [List.mem_cons, forall_eq_or_imp] at small
      have pageSmall := small.1
      have otherPage : position / 4096 ≠ (userStack + 0x1000 * page) / 4096 := by
        unfold userStack userStackSize at *
        omega
      rw [mapStackPages, List.foldl_cons]
      refine (inductionHypothesis small.2).trans ?_
      rw [accessAt, PagedSpace.map_other otherPage]
      rfl

/-! ## Coverage -/

/-- Every page that overlaps the segment is mapped, accessible to the user,
writable exactly if the flags have `W` and executable exactly if they have `X`. -/
def Covered (space : Space Access) (phdr : ElfPhdr) : Prop :=
  ∀ position, phdr.Occupies position ->
    accessAt space position =
      some
        { user := true
          writable := decide (0 < phdr.flags &&& 2)
          executable := decide (0 < phdr.flags &&& 1) }

/-- When a load ends, a LOAD segment is covered exactly if it has a file size. -/
theorem covered_iff
    (segments : DisjointSegments phdrs) (loads : LoadsAll phdrs emptySpace last)
    (member : phdr ∈ phdrs) (isLoad : phdr.type = ptLoad) (occupied : 0 < phdr.memsz) :
    Covered (mapStackPages (List.range 8) last) phdr ↔ 0 < phdr.filesz := by
  have outside : ∀ position, phdr.Occupies position ->
      accessAt (mapStackPages (List.range 8) last) position =
        accessAt last position := fun position occupies =>
    access_mapStackPages (by simp) (segments.stack phdr member isLoad position occupies)
  constructor
  · intro covered
    by_contra noFile
    have occupies : phdr.Occupies phdr.vaddr := phdr.occupies_first occupied rfl
    have isCovered := covered phdr.vaddr occupies
    rw [outside _ occupies, loads.access_skipped segments rfl member isLoad (by omega)
      occupies] at isCovered
    cases isCovered
  · intro hasFile position occupies
    rw [outside position occupies, loads.access_segment segments (fun _ _ _ _ _ => rfl)
      member ⟨isLoad, hasFile⟩ occupies]
    rfl

/-- When `exec_setup` enters user mode, every page of every nonempty LOAD segment is
mapped with the permissions of the segment, if and only if every nonempty LOAD
segment has a file size. -/
theorem loader_covers_iff
    (owned : Owned root pool machine free) (isCr3 : machine.cr3 = root)
    (enters : execSetup hdr name machine = .ok (.entered entry) after)
    (finds : findModule name hdr.modules (machine.unmapLowerHalf machine.cr3) =
      .ok (some ourmod) (machine.unmapLowerHalf machine.cr3))
    (imageAt : ImageAt root pool machine ourmod.beginAddress size image)
    (elf : ElfImage image size) (segments : DisjointSegments (programHeaders image))
    (enough : EnoughFrames (freeAfterUnmap machine root free)
      (4 * (elfPhnum image + 8))) :
    (∀ phdr ∈ programHeaders image, phdr.type = ptLoad -> 0 < phdr.memsz ->
        Covered (lowerSpace after.memory root) phdr) ↔
      ∀ phdr ∈ programHeaders image, phdr.type = ptLoad -> 0 < phdr.memsz ->
        0 < phdr.filesz := by
  subst isCr3
  obtain ⟨unmapped, sameCr3, empty⟩ := owned.unmapped rfl
  obtain ⟨found, _, findsFound, loads⟩ := execSetup_entered enters
  obtain rfl : ourmod = found := by
    rw [finds] at findsFound
    cases findsFound
    rfl
  have lower : LowerSegments image := by
    intro phdr member loaded
    have := segments.filesz phdr member loaded.1
    have := segments.lower phdr member loaded.1
    have := loaded.2
    omega
  obtain ⟨_, _, _, spaces⟩ := loadModule_ok unmapped sameCr3
    (imageAt.unmapLowerHalf owned) elf lower loads
  obtain ⟨_, loaded, loadsAll, space⟩ := spaces enough.noZero enough.many
  rw [empty] at loadsAll
  rw [space]
  exact forall₄_congr fun phdr member isLoad occupied =>
    covered_iff segments loadsAll member isLoad occupied

/-! ## A program with a segment of `.bss` only -/

/-- A segment of code, and a segment that has no bytes in the file. -/
def textPhdr : ElfPhdr where
  type := ptLoad
  flags := 5
  offset := 176
  vaddr := 0x400000
  filesz := 8
  memsz := 8

def bssOnlyPhdr : ElfPhdr where
  type := ptLoad
  flags := 6
  offset := 184
  vaddr := 0x600000
  filesz := 0
  memsz := 8

def bssOnlyBytes : List UInt8 :=
  elfBytes 0x400000 [textPhdr, bssOnlyPhdr] [1, 2, 3, 4, 5, 6, 7, 8]

/-- Its image, as a function from offsets. -/
abbrev bssOnlyImage : Nat -> UInt8 := fun i => bssOnlyBytes.getD i 0

/-- Where its name is. -/
def bssOnlyName : Nat := bootImageBase + bssOnlyBytes.length

theorem programHeaders_bssOnly :
    programHeaders bssOnlyImage = [textPhdr, bssOnlyPhdr] := by
  decide +kernel

theorem elfImage_bssOnly : ElfImage bssOnlyImage bssOnlyBytes.length :=
  ⟨by decide +kernel, by decide +kernel⟩

theorem separatePages_bssOnly :
    SeparatePages (programHeaders bssOnlyImage) bssOnlyBytes.length := by
  have notLoaded : ¬bssOnlyPhdr.Loaded := by decide
  rw [programHeaders_bssOnly]
  refine ⟨?_, ?_, ?_⟩
  · simp only [List.mem_cons, List.not_mem_nil, or_false, forall_eq_or_imp, forall_eq]
    exact ⟨fun _ => ⟨by decide, by decide⟩, fun loaded => absurd loaded notLoaded⟩
  · simp only [List.mem_cons, List.not_mem_nil, or_false, forall_eq_or_imp, forall_eq]
    exact ⟨fun _ => by decide +kernel, fun loaded => absurd loaded notLoaded⟩
  · simp only [List.pairwise_cons, List.mem_singleton, forall_eq, List.not_mem_nil,
      false_imp_iff, implies_true, List.Pairwise.nil, and_true]
    exact fun _ loaded => absurd loaded notLoaded

theorem disjointSegments_bssOnly :
    DisjointSegments (programHeaders bssOnlyImage) := by
  have text : ∀ position, textPhdr.Occupies position -> position / 4096 = 0x400 := by
    rintro position ⟨offset, inside, inPage⟩
    simp only [textPhdr] at inside inPage
    omega
  have bss : ∀ position, bssOnlyPhdr.Occupies position -> position / 4096 = 0x600 := by
    rintro position ⟨offset, inside, inPage⟩
    simp only [bssOnlyPhdr] at inside inPage
    omega
  rw [programHeaders_bssOnly]
  refine ⟨by decide, by decide, ?_, ?_⟩
  · simp only [List.pairwise_cons, List.mem_singleton, forall_eq, List.not_mem_nil,
      false_imp_iff, implies_true, List.Pairwise.nil, and_true]
    intro _ _ position inText inBss
    have := text position inText
    have := bss position inBss
    omega
  · simp only [List.mem_cons, List.not_mem_nil, or_false, forall_eq_or_imp, forall_eq]
    refine ⟨fun _ position inText => ?_, fun _ position inBss => ?_⟩
    · have := text position inText
      unfold userStack
      omega
    · have := bss position inBss
      unfold userStack
      omega

/-- The boot machine can execute this program. -/
theorem execReady_bssOnly :
    ∃ machine free,
      (bootMachine (bootContent (namedImage bssOnlyBytes))).memInit
        (namedHdr bssOnlyBytes) = some machine ∧
      ExecReady bssOnlyName initName bootImageBase bssOnlyBytes.length bssOnlyImage
        bootRoot (bootPool bootTag (bootMachine (bootContent (namedImage bssOnlyBytes))))
        machine free := by
  obtain ⟨machine, free, init, _, _, ready⟩ :=
    boot_exec_ready bssOnlyBytes (by decide +kernel) (by decide +kernel)
  exact ⟨machine, free, init, ready⟩

/-- The boot machine enters a program with a segment of `.bss` only. -/
theorem loader_covers_iff_bootMachine :
    ∃ machine after : Machine,
      execSetup (namedHdr bssOnlyBytes) bssOnlyName machine =
        .ok (.entered (usermodeEntry bssOnlyImage)) after ∧
      ((∀ phdr ∈ programHeaders bssOnlyImage, phdr.type = ptLoad -> 0 < phdr.memsz ->
          Covered (lowerSpace after.memory bootRoot) phdr) ↔
        ∀ phdr ∈ programHeaders bssOnlyImage, phdr.type = ptLoad -> 0 < phdr.memsz ->
          0 < phdr.filesz) := by
  obtain ⟨machine, free, _, ready⟩ := execReady_bssOnly
  have first := find_namedHdr bssOnlyBytes
  have finds := findModule_kernelName ready.owned ready.isCr3 ready.kernelName first
  obtain ⟨after, _, enters, _⟩ :=
    ExecReady.execSetup_image ready first elfImage_bssOnly separatePages_bssOnly
  exact ⟨machine, after, enters, loader_covers_iff ready.owned ready.isCr3 enters finds
    ready.imageAt elfImage_bssOnly disjointSegments_bssOnly ready.enough⟩

/-- The kernel enters the program, and no page of its `.bss` segment is mapped. -/
theorem loader_skips_bss_segment :
    ∃ machine after,
      (bootMachine (bootContent (namedImage bssOnlyBytes))).memInit
        (namedHdr bssOnlyBytes) = some machine ∧
      execSetup (namedHdr bssOnlyBytes) bssOnlyName machine =
        .ok (.entered (usermodeEntry bssOnlyImage)) after ∧
      DisjointSegments (programHeaders bssOnlyImage) ∧
      bssOnlyPhdr ∈ programHeaders bssOnlyImage ∧ bssOnlyPhdr.type = ptLoad ∧
      0 < bssOnlyPhdr.memsz ∧
      ¬Covered (lowerSpace after.memory bootRoot) bssOnlyPhdr := by
  obtain ⟨machine, _, init, ready⟩ := execReady_bssOnly
  obtain ⟨after, _, enters, _, _, space⟩ := ExecReady.execSetup_image ready
    (find_namedHdr bssOnlyBytes) elfImage_bssOnly separatePages_bssOnly
  have member : bssOnlyPhdr ∈ programHeaders bssOnlyImage := by
    rw [programHeaders_bssOnly]
    simp
  refine ⟨machine, after, init, enters, disjointSegments_bssOnly, member, rfl,
    by decide, ?_⟩
  intro covered
  have occupies := bssOnlyPhdr.occupies_first (by decide) rfl
  have outside := disjointSegments_bssOnly.stack _ member rfl _ occupies
  have unmapped : loadAll bssOnlyImage (programHeaders bssOnlyImage) emptySpace
      bssOnlyPhdr.vaddr = none := by
    refine loadAll_other separatePages_bssOnly.onePage ?_
    rw [programHeaders_bssOnly]
    simp only [List.mem_cons, List.not_mem_nil, or_false, forall_eq_or_imp, forall_eq]
    exact ⟨fun _ => by decide, by decide⟩
  have isCovered := covered bssOnlyPhdr.vaddr occupies
  rw [space, programSpace, access_mapStackPages (by simp) outside, accessAt,
    unmapped] at isCovered
  cases isCovered

end StarterKernel
