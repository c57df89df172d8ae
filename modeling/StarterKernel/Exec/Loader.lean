import StarterKernel.Exec.Copy

/-!
# Loading the segments of a program

The loop over the program headers reads them from an image that does not change,
so it is the same as loading the headers of the image one after the other.  Each
LOAD header with a file size maps the first page of its segment, copies into it
and sets its permissions.
-/

namespace StarterKernel

open StateError
open PagedSpace (Space)

/-! ## ELF images -/

/-- The fields of a program header that the loader reads. -/
structure ElfPhdr where
  type : Nat
  flags : Nat
  offset : Nat
  vaddr : Nat
  filesz : Nat
  memsz : Nat
  deriving DecidableEq

/-- The program header at a position of the image. -/
def elfPhdr (image : Nat -> UInt8) (position : Nat) : ElfPhdr where
  type := ByteMemory.load image position 4
  flags := ByteMemory.load image (position + 4) 4
  offset := ByteMemory.load image (position + 8) 8
  vaddr := ByteMemory.load image (position + 16) 8
  filesz := ByteMemory.load image (position + 32) 8
  memsz := ByteMemory.load image (position + 40) 8

/-- `e_phoff`, `e_phnum` and `e_entry` of the ELF header. -/
def elfPhoff (image : Nat -> UInt8) : Nat := ByteMemory.load image 32 8

def elfPhnum (image : Nat -> UInt8) : Nat := ByteMemory.load image 56 2

def elfEntry (image : Nat -> UInt8) : Nat := ByteMemory.load image 24 8

/-- The program header table. -/
def programHeaders (image : Nat -> UInt8) : List ElfPhdr :=
  (List.range (elfPhnum image)).map fun i => elfPhdr image (elfPhoff image + 56 * i)

/-- The ELF header and the program header table lie in the image. -/
structure ElfImage (image : Nat -> UInt8) (size : Nat) : Prop where
  header : 64 ≤ size
  table : elfPhoff image + 56 * elfPhnum image ≤ size

namespace ElfPhdr

/-- The loader does something with the header. -/
def Loaded (phdr : ElfPhdr) : Prop := phdr.type = ptLoad ∧ 0 < phdr.filesz

instance (phdr : ElfPhdr) : Decidable phdr.Loaded :=
  inferInstanceAs (Decidable (_ ∧ _))

/-- The permissions the flags ask for. -/
def access (phdr : ElfPhdr) : Access where
  user := true
  writable := decide (0 < phdr.flags &&& 2)
  executable := decide (0 < phdr.flags &&& 1)

end ElfPhdr

/-- The permissions of a page while it is filled, and of the stack. -/
def dataAccess : Access where
  user := true
  writable := true
  executable := false

/-- The address space after a segment was loaded from `source`. -/
def loadedSpace (phdr : ElfPhdr) (source : Nat -> UInt8) (space : Space Access) :
    Space Access :=
  let mapped := PagedSpace.map 4096 space phdr.vaddr dataAccess
  let copied := PagedSpace.write mapped phdr.vaddr phdr.memsz source
  PagedSpace.protect 4096 copied phdr.vaddr phdr.access

/-- Loading a program header whose fields are known. -/
def loadPhdr (header cr3 : Nat) (phdr : ElfPhdr) : Kernel Unit :=
  if phdr.Loaded then do
    let _ ← modifyGet fun machine => machine.vmMap cr3 phdr.vaddr true true false
    Kernel.memcpy phdr.vaddr ((header + phdr.offset) % wordSize) phdr.memsz
    let _ ← modifyGet fun machine =>
      machine.vmProtect machine.readCr3 phdr.vaddr phdr.access.user
        phdr.access.writable phdr.access.executable
  else return ()

variable {root header size position : Nat} {pool : Set Nat}
variable {machine middle after : Machine} {free rest : List Nat}
variable {image source : Nat -> UInt8} {phdr : ElfPhdr} {phdrs : List ElfPhdr}

/-! ## One program header -/

/-- The image can be read while a header is loaded: after its page was mapped and after
its segment was copied. -/
structure ImageStays
    (root : Nat) (pool : Set Nat) (machine : Machine) (header size : Nat)
    (image : Nat -> UInt8) (phdr : ElfPhdr) : Prop where
  mapped : let mapped := (machine.vmMap root phdr.vaddr true true false).2
    mapped.root = root ∧ ImageAt root pool mapped header size image
  copied : ∀ copied, Kernel.memcpy phdr.vaddr ((header + phdr.offset) % wordSize)
      phdr.memsz (machine.vmMap root phdr.vaddr true true false).2 = .ok () copied ->
    copied.root = root ∧ ImageAt root pool copied header size image

/-- Reading the fields from an image that stays one by one is the same as knowing
them. -/
theorem loadSegment_eq_of_stays
    (isRoot : machine.root = root)
    (imageAt : ImageAt root pool machine header size image)
    (inside : position + 56 ≤ size)
    (stays : (elfPhdr image position).Loaded ->
      ImageStays root pool machine header size image (elfPhdr image position)) :
    loadSegment header root ((header + position) % wordSize) machine =
      loadPhdr header root (elfPhdr image position) machine := by
  rw [loadSegment, bind_of_ok (imageAt.loadField isRoot (by omega)), loadPhdr]
  change (if (elfPhdr image position).type = ptLoad then _ else _ : Kernel Unit)
    machine = _
  by_cases isLoad : (elfPhdr image position).type = ptLoad
  · rw [if_pos isLoad, bind_of_ok (imageAt.loadField isRoot (by omega))]
    change (if 0 < (elfPhdr image position).filesz then _ else _ : Kernel Unit)
      machine = _
    by_cases hasFile : 0 < (elfPhdr image position).filesz
    · have loaded : (elfPhdr image position).Loaded := ⟨isLoad, hasFile⟩
      have memsz : (if (elfPhdr image position).filesz = 0 then 32 else 40) = 40 :=
        if_neg (by omega)
      rw [if_pos hasFile, if_pos loaded,
        bind_of_ok (imageAt.loadField isRoot (by omega))]
      apply bind_congr_of_ok
      intro _ mapped maps
      obtain rfl : (machine.vmMap root (elfPhdr image position).vaddr true true
          false).2 = mapped := by
        cases maps
        rfl
      obtain ⟨rootMapped, imageMapped⟩ := (stays loaded).mapped
      rw [bind_of_ok (imageMapped.loadField rootMapped (by omega))]
      change ((loadField _ (if (elfPhdr image position).filesz = 0 then 32 else 40) 8 >>=
        _) : Kernel Unit) _ = _
      rw [memsz, bind_of_ok (imageMapped.loadField rootMapped (by omega))]
      apply bind_congr_of_ok
      intro _ copied copies
      obtain ⟨rootCopied, imageCopied⟩ := (stays loaded).copied copied copies
      rw [bind_of_ok (imageCopied.loadField rootCopied (by omega))]
      rfl
    · rw [if_neg hasFile, if_neg fun loaded => hasFile loaded.2]
  · rw [if_neg isLoad, if_neg fun loaded => isLoad loaded.1]

/-- It stays if the segment starts in the lower half. -/
theorem loadSegment_eq
    (owned : Owned root pool machine free) (isRoot : machine.root = root)
    (imageAt : ImageAt root pool machine header size image)
    (inside : position + 56 ≤ size)
    (lower : (elfPhdr image position).Loaded ->
      LowerHalf (elfPhdr image position).vaddr) :
    loadSegment header root ((header + position) % wordSize) machine =
      loadPhdr header root (elfPhdr image position) machine := by
  apply loadSegment_eq_of_stays isRoot imageAt inside
  intro loaded
  obtain ⟨rest, extend, _⟩ := owned.vmMap_extends true true false (lower loaded)
  have imageMapped := imageAt.mono extend
  have rootMapped := extend.root_eq isRoot
  refine ⟨⟨rootMapped, imageMapped⟩, fun copied copies => ?_⟩
  obtain ⟨extendCopy, _⟩ := Kernel.memcpy_ok extend.kept rootMapped (lower loaded) copies
  exact ⟨extendCopy.root_eq rootMapped, imageMapped.mono extendCopy⟩

theorem Owned.root_eq (owned : Owned root pool machine free)
    (isCr3 : machine.cr3 = root) : machine.root = root := by
  rw [IsFrame.root_eq (isCr3.symm ▸ owned.rootFrame), isCr3]

/-- How loading one program header changes the address space, if it ends. -/
def LoadsPhdr (phdr : ElfPhdr) (space after : Space Access) : Prop :=
  if phdr.Loaded then
    (∀ offset < phdr.memsz,
      PagedSpace.map 4096 space phdr.vaddr dataAccess (phdr.vaddr + offset) ≠ none) ∧
    ∃ source, after = loadedSpace phdr source space
  else after = space

/-- Loading a header is mapping its page, copying the segment and changing the
permissions of the page. -/
theorem loadPhdr_eq_ok_iff (loaded : phdr.Loaded) :
    loadPhdr header root phdr machine = .ok () after ↔
      ∃ copied,
        Kernel.memcpy phdr.vaddr ((header + phdr.offset) % wordSize) phdr.memsz
            (machine.vmMap root phdr.vaddr true true false).2 = .ok () copied ∧
        after = (copied.vmProtect copied.cr3 phdr.vaddr phdr.access.user
          phdr.access.writable phdr.access.executable).2 := by
  rw [loadPhdr, if_pos loaded, bind_of_ok (modifyGet_apply _ _)]
  constructor
  · intro run
    obtain ⟨_, copied, copies, run⟩ := ok_of_bind run
    refine ⟨copied, copies, ?_⟩
    cases run
    rfl
  · rintro ⟨copied, copies, rfl⟩
    rw [bind_of_ok copies]
    rfl

/-- What loading a header does after it mapped the page: it fills the segment, all of
which is mapped then, and changes the permissions of the page. -/
theorem loadPhdr_mapped
    (isCr3 : machine.cr3 = root) (loaded : phdr.Loaded) (lower : LowerHalf phdr.vaddr)
    (run : loadPhdr header root phdr machine = .ok () after)
    (extend : Extends root pool machine
      (machine.vmMap root phdr.vaddr true true false).2 free rest) :
    let mapped := (machine.vmMap root phdr.vaddr true true false).2
    Extends root pool mapped after rest rest ∧
      (∀ offset < phdr.memsz,
        lowerSpace mapped.memory root (phdr.vaddr + offset) ≠ none) ∧
      (phdr.vaddr < 2 ^ 47 -> ∃ source, lowerSpace after.memory root =
        PagedSpace.protect 4096
          (PagedSpace.write (lowerSpace mapped.memory root) phdr.vaddr phdr.memsz source)
          phdr.vaddr phdr.access) := by
  intro mapped
  obtain ⟨copied, copies, rfl⟩ := (loadPhdr_eq_ok_iff loaded).mp run
  have mappedCr3 := extend.sameCr3.trans isCr3
  obtain ⟨extendCopy, allMapped, source, written⟩ := Kernel.memcpy_ok extend.kept
    (extend.kept.root_eq mappedCr3) lower copies
  obtain ⟨extendProtect, protects⟩ := extendCopy.kept.vmProtect_extends
    phdr.access.user phdr.access.writable phdr.access.executable lower
  rw [extendCopy.sameCr3.trans mappedCr3]
  refine ⟨extendCopy.trans extendProtect, allMapped, fun small => ⟨source, ?_⟩⟩
  rw [protects small, written]

/-- Loading a header takes frames off the freelist only, at most four of them, and
changes the address space as it should if these are there. -/
theorem loadPhdr_ok
    (owned : Owned root pool machine free) (isCr3 : machine.cr3 = root)
    (lower : phdr.Loaded -> LowerHalf phdr.vaddr)
    (run : loadPhdr header root phdr machine = .ok () after) :
    ∃ rest, Extends root pool machine after free rest ∧
      ((phdr.Loaded -> phdr.vaddr < 2 ^ 47) -> 0 ∉ free -> 4 ≤ free.length ->
        free.length ≤ rest.length + 4 ∧
        (TablesUsed machine.memory root -> TablesUsed after.memory root) ∧
        LoadsPhdr phdr (lowerSpace machine.memory root)
          (lowerSpace after.memory root)) := by
  unfold LoadsPhdr
  by_cases loaded : phdr.Loaded
  · obtain ⟨rest, extend, maps⟩ := owned.vmMap_extends true true false (lower loaded)
    obtain ⟨later, allMapped, filled⟩ :=
      loadPhdr_mapped isCr3 loaded (lower loaded) run extend
    refine ⟨rest, extend.trans later, ?_⟩
    intro canonical noZero enough
    have small := canonical loaded
    obtain ⟨count, used, mapped⟩ := maps small noZero enough
    obtain ⟨source, written⟩ := filled small
    have stays := (used · |>.mono later (by
      intro address isMapped
      rwa [written, Ne, PagedSpace.protect_eq_none_iff, PagedSpace.write_eq_none_iff]))
    refine ⟨count, stays, ?_⟩
    rw [if_pos loaded, written]
    rw [mapped] at allMapped ⊢
    exact ⟨allMapped, source, rfl⟩
  · rw [loadPhdr, if_neg loaded] at run
    cases run
    exact ⟨free, Extends.refl owned, fun _ _ _ => ⟨by omega, id, by rw [if_neg loaded]⟩⟩

/-- A segment inside one page of the lower half. -/
structure ElfPhdr.OnePage (phdr : ElfPhdr) : Prop where
  lower : phdr.vaddr < 2 ^ 47
  inPage : phdr.vaddr % 4096 + phdr.memsz ≤ 4096

/-- Loading a segment of one page from the image succeeds. -/
theorem loadPhdr_image
    (owned : Owned root pool machine free) (isCr3 : machine.cr3 = root)
    (imageAt : ImageAt root pool machine header size image)
    (loaded : phdr.Loaded) (onePage : phdr.OnePage)
    (inside : phdr.offset + phdr.memsz ≤ size)
    (vacant : lowerSpace machine.memory root phdr.vaddr = none)
    (noZero : 0 ∉ free) (enough : 4 ≤ free.length) :
    ∃ after rest, loadPhdr header root phdr machine = .ok () after ∧
      Extends root pool machine after free rest ∧ free.length ≤ rest.length + 4 ∧
      lowerSpace after.memory root =
        loadedSpace phdr (fun k => image (phdr.offset + k))
          (lowerSpace machine.memory root) := by
  have inPage := onePage.inPage
  have lowerHalf := lowerHalf_of_lt onePage.lower
  obtain ⟨rest, extend, maps⟩ := owned.vmMap_extends true true false lowerHalf
  obtain ⟨count, _, mapped⟩ := maps onePage.lower noZero enough
  have mappedCr3 := extend.sameCr3.trans isCr3
  obtain ⟨copied, copies, extendCopy, written⟩ := Kernel.memcpy_image extend.kept
    (extend.kept.root_eq mappedCr3) (imageAt.mono extend) inside (by omega) (by
      intro k small
      refine ⟨{ access := dataAccess, byte := 0 }, ?_, rfl⟩
      have samePage : (phdr.vaddr + k) / 4096 = phdr.vaddr / 4096 := by omega
      rw [mapped]
      exact PagedSpace.map_vacant vacant samePage)
  obtain ⟨extendProtect, protects⟩ := extendCopy.kept.vmProtect_extends
    phdr.access.user phdr.access.writable phdr.access.executable lowerHalf
  have copiedCr3 := extendCopy.sameCr3.trans mappedCr3
  refine ⟨_, rest, (loadPhdr_eq_ok_iff loaded).mpr ⟨copied, copies, rfl⟩, ?_, count,
    ?_⟩
  · rw [copiedCr3]
    exact (extend.trans extendCopy).trans extendProtect
  · rw [copiedCr3, protects onePage.lower, written, mapped]
    rfl

/-! ## The program header table -/

/-- How loading program headers changes the address space, if it ends. -/
inductive LoadsAll : List ElfPhdr -> Space Access -> Space Access -> Prop
  | nil (space : Space Access) : LoadsAll [] space space
  | cons {phdr : ElfPhdr} {phdrs : List ElfPhdr} {space middle after : Space Access}
      (first : LoadsPhdr phdr space middle) (others : LoadsAll phdrs middle after) :
      LoadsAll (phdr :: phdrs) space after

/-- Loading program headers from an image that holds their segments. -/
def loadAll (image : Nat -> UInt8) (phdrs : List ElfPhdr) (space : Space Access) :
    Space Access :=
  phdrs.foldl
    (fun space phdr =>
      if phdr.Loaded then loadedSpace phdr (fun k => image (phdr.offset + k)) space
      else space)
    space

/-- The loop over the program headers is the loop over the table. -/
theorem programHeaderLoop_eq {fuel i : Nat}
    (owned : Owned root pool machine free) (isCr3 : machine.cr3 = root)
    (imageAt : ImageAt root pool machine header size image)
    (elf : ElfImage image size)
    (lower : ∀ phdr ∈ programHeaders image, phdr.Loaded -> LowerHalf phdr.vaddr)
    (inTable : i ≤ elfPhnum image) (enough : elfPhnum image < fuel + i) :
    programHeaderLoop header root fuel i
        ((header + (elfPhoff image + 56 * i)) % wordSize) machine =
      ((programHeaders image).drop i).forM (loadPhdr header root) machine := by
  have table := elf.table
  induction fuel generalizing i machine free with
  | zero => omega
  | succ fuel inductionHypothesis =>
      have isRoot := owned.root_eq isCr3
      have header64 := elf.header
      have phnum := imageAt.loadHeaderField isRoot (show 56 + 2 ≤ size by omega)
      have length : (programHeaders image).length = elfPhnum image := by
        simp [programHeaders]
      rw [programHeaderLoop, bind_of_ok phnum]
      change (if i < elfPhnum image then _ else _ : Kernel Unit) machine = _
      by_cases more : i < elfPhnum image
      · have current : (programHeaders image).drop i =
            elfPhdr image (elfPhoff image + 56 * i) ::
              (programHeaders image).drop (i + 1) := by
          rw [List.drop_eq_getElem_cons (by omega)]
          simp [programHeaders]
        have member : elfPhdr image (elfPhoff image + 56 * i) ∈
            programHeaders image :=
          List.mem_of_mem_drop (current ▸ List.mem_cons_self)
        have next : ((header + (elfPhoff image + 56 * i)) % wordSize + 56) % wordSize =
            (header + (elfPhoff image + 56 * (i + 1))) % wordSize := by
          rw [Nat.mod_add_mod]
          congr 1
        rw [if_pos more, current, forM_cons_apply, next]
        have same := loadSegment_eq owned isRoot imageAt
          (show elfPhoff image + 56 * i + 56 ≤ size by omega) (lower _ member)
        cases ends : loadPhdr header root (elfPhdr image (elfPhoff image + 56 * i))
            machine with
        | ok value middle =>
            obtain ⟨rest, extend, _⟩ := loadPhdr_ok owned isCr3 (lower _ member) ends
            rw [bind_of_ok (same.trans ends), bind_of_ok ends]
            exact inductionHypothesis extend.kept (extend.sameCr3.trans isCr3)
              (imageAt.mono extend) more (by omega)
        | error trap middle =>
            rw [bind_of_error (same.trans ends), bind_of_error ends]
      · rw [if_neg more, List.drop_eq_nil_of_le (by omega)]
        rfl

/-- What loading the program headers does, if it ends. -/
theorem loadPhdrs_ok
    (owned : Owned root pool machine free) (isCr3 : machine.cr3 = root)
    (lower : ∀ phdr ∈ phdrs, phdr.Loaded -> phdr.vaddr < 2 ^ 47)
    (run : phdrs.forM (loadPhdr header root) machine = .ok () after) :
    ∃ rest, Extends root pool machine after free rest ∧
      (0 ∉ free -> 4 * phdrs.length ≤ free.length ->
        free.length ≤ rest.length + 4 * phdrs.length ∧
        (TablesUsed machine.memory root -> TablesUsed after.memory root) ∧
        LoadsAll phdrs (lowerSpace machine.memory root)
          (lowerSpace after.memory root)) := by
  induction phdrs generalizing machine free with
  | nil =>
      cases run
      exact ⟨free, Extends.refl owned, fun _ _ => ⟨by omega, id, .nil _⟩⟩
  | cons phdr phdrs inductionHypothesis =>
      simp only [List.mem_cons, forall_eq_or_imp] at lower
      rw [forM_cons_apply] at run
      obtain ⟨_, middle, loads, run⟩ := ok_of_bind run
      obtain ⟨rest, extend, first⟩ := loadPhdr_ok owned isCr3
        (fun loaded => lowerHalf_of_lt (lower.1 loaded)) loads
      obtain ⟨last, later, others⟩ := inductionHypothesis extend.kept
        (extend.sameCr3.trans isCr3) lower.2 run
      refine ⟨last, extend.trans later, ?_⟩
      intro noZero enough
      rw [List.length_cons] at enough ⊢
      obtain ⟨count, used, loadsFirst⟩ := first lower.1 noZero (by omega)
      obtain ⟨laterCount, laterUsed, loadsOthers⟩ := others
        (fun member => noZero (extend.subset 0 member)) (by omega)
      exact ⟨by omega, laterUsed ∘ used, .cons loadsFirst loadsOthers⟩

/-- The segments of the image are loaded into pages of their own. -/
structure SeparatePages (phdrs : List ElfPhdr) (size : Nat) : Prop where
  onePage : ∀ phdr ∈ phdrs, phdr.Loaded -> phdr.OnePage
  inImage : ∀ phdr ∈ phdrs, phdr.Loaded -> phdr.offset + phdr.memsz ≤ size
  separate : phdrs.Pairwise fun first second => first.Loaded -> second.Loaded ->
    first.vaddr / 4096 ≠ second.vaddr / 4096

theorem separatePages_singleton (onePage : phdr.OnePage)
    (inImage : phdr.offset + phdr.memsz ≤ size) : SeparatePages [phdr] size where
  onePage := by simp [onePage]
  inImage := by simp [inImage]
  separate := List.pairwise_singleton _ _

theorem loadedSpace_other {space : Space Access} {address : Nat}
    (onePage : phdr.OnePage) (otherPage : address / 4096 ≠ phdr.vaddr / 4096) :
    loadedSpace phdr source space address = space address := by
  have inPage := onePage.inPage
  have outside : address < phdr.vaddr ∨ phdr.vaddr + phdr.memsz ≤ address := by omega
  unfold loadedSpace
  rw [PagedSpace.protect_other otherPage, PagedSpace.write_outside outside,
    PagedSpace.map_other otherPage]

/-- Loading segments into vacant pages of their own succeeds. -/
theorem loadPhdrs_image
    (owned : Owned root pool machine free) (isCr3 : machine.cr3 = root)
    (imageAt : ImageAt root pool machine header size image)
    (pages : SeparatePages phdrs size)
    (vacant : ∀ phdr ∈ phdrs, phdr.Loaded ->
      lowerSpace machine.memory root phdr.vaddr = none)
    (noZero : 0 ∉ free) (enough : 4 * phdrs.length ≤ free.length) :
    ∃ after rest, phdrs.forM (loadPhdr header root) machine = .ok () after ∧
      Extends root pool machine after free rest ∧
      free.length ≤ rest.length + 4 * phdrs.length ∧
      lowerSpace after.memory root =
        loadAll image phdrs (lowerSpace machine.memory root) := by
  induction phdrs generalizing machine free with
  | nil => exact ⟨machine, free, rfl, Extends.refl owned, by omega, rfl⟩
  | cons phdr phdrs inductionHypothesis =>
      obtain ⟨onePage, inImage, separate⟩ := pages
      simp only [List.mem_cons, forall_eq_or_imp] at onePage inImage vacant
      rw [List.pairwise_cons] at separate
      rw [List.length_cons] at enough ⊢
      have first : ∃ middle rest, loadPhdr header root phdr machine = .ok () middle ∧
          Extends root pool machine middle free rest ∧
          free.length ≤ rest.length + 4 ∧
          lowerSpace middle.memory root =
            (if phdr.Loaded then
              loadedSpace phdr (fun k => image (phdr.offset + k))
                (lowerSpace machine.memory root)
            else lowerSpace machine.memory root) := by
        by_cases loaded : phdr.Loaded
        · rw [if_pos loaded]
          exact loadPhdr_image owned isCr3 imageAt loaded (onePage.1 loaded)
            (inImage.1 loaded) (vacant.1 loaded) noZero (by omega)
        · rw [if_neg loaded, loadPhdr, if_neg loaded]
          exact ⟨machine, free, rfl, Extends.refl owned, by omega, rfl⟩
      obtain ⟨middle, rest, loads, extend, count, space⟩ := first
      have stillVacant : ∀ other ∈ phdrs, other.Loaded ->
          lowerSpace middle.memory root other.vaddr = none := by
        intro other member otherLoaded
        rw [space]
        split
        next loaded =>
          rw [loadedSpace_other (onePage.1 loaded)
            (separate.1 other member loaded otherLoaded).symm]
          exact vacant.2 other member otherLoaded
        next => exact vacant.2 other member otherLoaded
      obtain ⟨after, last, run, later, laterCount, written⟩ := inductionHypothesis
        extend.kept (extend.sameCr3.trans isCr3) (imageAt.mono extend)
        ⟨onePage.2, inImage.2, separate.2⟩ stillVacant
        (fun member => noZero (extend.subset 0 member)) (by omega)
      refine ⟨after, last, ?_, extend.trans later, by omega, ?_⟩
      · rw [forM_cons_apply, bind_of_ok loads]
        exact run
      · rw [written, space]
        rfl

/-! ## What `loadAll` leaves in a segment -/

/-- Pages of other segments are not touched. -/
theorem loadAll_other {space : Space Access} {address : Nat}
    (onePage : ∀ phdr ∈ phdrs, phdr.Loaded -> phdr.OnePage)
    (otherPages : ∀ phdr ∈ phdrs, phdr.Loaded -> address / 4096 ≠ phdr.vaddr / 4096) :
    loadAll image phdrs space address = space address := by
  induction phdrs generalizing space with
  | nil => rfl
  | cons phdr phdrs inductionHypothesis =>
      simp only [List.mem_cons, forall_eq_or_imp] at onePage otherPages
      rw [loadAll, List.foldl_cons]
      refine (inductionHypothesis onePage.2 otherPages.2).trans ?_
      split
      next loaded => exact loadedSpace_other (onePage.1 loaded) (otherPages.1 loaded)
      next => rfl

/-- A loaded page holds the bytes of the image. -/
theorem loadedSpace_segment {space : Space Access} {k : Nat}
    (onePage : phdr.OnePage) (vacant : space phdr.vaddr = none)
    (inside : k < phdr.memsz) :
    loadedSpace phdr source space (phdr.vaddr + k) =
      some { access := phdr.access, byte := source k } := by
  have inPage := onePage.inPage
  have samePage : (phdr.vaddr + k) / 4096 = phdr.vaddr / 4096 := by omega
  unfold loadedSpace
  rw [PagedSpace.protect_same samePage, PagedSpace.write_inside (by omega) (by omega),
    PagedSpace.map_vacant vacant samePage, Nat.add_sub_cancel_left]
  rfl

/-- Every segment holds the bytes of the image up to `p_memsz`. -/
theorem loadAll_segment {space : Space Access} {k : Nat}
    (pages : SeparatePages phdrs size)
    (vacant : ∀ phdr ∈ phdrs, phdr.Loaded -> space phdr.vaddr = none)
    (member : phdr ∈ phdrs) (loaded : phdr.Loaded) (inside : k < phdr.memsz) :
    loadAll image phdrs space (phdr.vaddr + k) =
      some { access := phdr.access, byte := image (phdr.offset + k) } := by
  induction phdrs generalizing space with
  | nil => cases member
  | cons first phdrs inductionHypothesis =>
      obtain ⟨onePage, inImage, separate⟩ := pages
      simp only [List.mem_cons, forall_eq_or_imp] at onePage inImage vacant
      rw [List.pairwise_cons] at separate
      have rest : SeparatePages phdrs size := ⟨onePage.2, inImage.2, separate.2⟩
      rw [loadAll, List.foldl_cons]
      rcases List.mem_cons.mp member with rfl | later
      · have samePage : (phdr.vaddr + k) / 4096 = phdr.vaddr / 4096 := by
          have := (onePage.1 loaded).inPage
          omega
        refine (loadAll_other onePage.2 ?_).trans ?_
        · intro other otherMember otherLoaded
          rw [samePage]
          exact separate.1 other otherMember loaded otherLoaded
        · rw [if_pos loaded]
          exact loadedSpace_segment (onePage.1 loaded) (vacant.1 loaded) inside
      · refine inductionHypothesis rest ?_ later
        intro other otherMember otherLoaded
        split
        next firstLoaded =>
          rw [loadedSpace_other (onePage.1 firstLoaded)
            (separate.1 other otherMember firstLoaded otherLoaded).symm]
          exact vacant.2 other otherMember otherLoaded
        next => exact vacant.2 other otherMember otherLoaded

/-! ## The user stack -/

/-- Mapping the pages of the user stack. -/
def mapStackPages (pages : List Nat) (space : Space Access) : Space Access :=
  pages.foldl
    (fun space page => PagedSpace.map 4096 space (userStack + 0x1000 * page) dataAccess)
    space

theorem mapStackPages_ne_none {pages : List Nat} {space : Space Access} {position : Nat}
    (mapped : space position ≠ none) : mapStackPages pages space position ≠ none := by
  induction pages generalizing space with
  | nil => exact mapped
  | cons page pages inductionHypothesis =>
      exact inductionHypothesis (PagedSpace.map_ne_none mapped)

/-- The pages of the user stack are mapped then. -/
theorem mapStackPages_mapped {pages : List Nat} {space : Space Access} {page : Nat}
    (member : page ∈ pages) :
    mapStackPages pages space (userStack + 0x1000 * page) ≠ none := by
  induction pages generalizing space with
  | nil => cases member
  | cons first pages inductionHypothesis =>
      rcases List.mem_cons.mp member with rfl | later
      · change mapStackPages pages (PagedSpace.map 4096 space _ dataAccess) _ ≠ none
        exact mapStackPages_ne_none PagedSpace.map_self_ne_none
      · exact inductionHypothesis later

theorem mapUserStack_pages (pages : List Nat) (small : ∀ page ∈ pages, page < 8)
    (owned : Owned root pool machine free) (isCr3 : machine.cr3 = root) :
    ∃ after rest,
      (pages.forM fun page => do
        let _ ← modifyGet fun machine =>
          machine.vmMap (machine.readCr3 &&& cr3Mask) (userStack + 0x1000 * page) true
            true false : Kernel Unit) machine = .ok () after ∧
      Extends root pool machine after free rest ∧
      (0 ∉ free -> 4 * pages.length ≤ free.length ->
        free.length ≤ rest.length + 4 * pages.length ∧
        (TablesUsed machine.memory root -> TablesUsed after.memory root) ∧
        lowerSpace after.memory root =
          mapStackPages pages (lowerSpace machine.memory root)) := by
  induction pages generalizing machine free with
  | nil =>
      exact ⟨machine, free, rfl, Extends.refl owned, fun _ _ => ⟨by omega, id, rfl⟩⟩
  | cons page pages inductionHypothesis =>
      simp only [List.mem_cons, forall_eq_or_imp] at small
      have lower : userStack + 0x1000 * page < 2 ^ 47 := by
        have := small.1
        unfold userStack
        omega
      have masked : machine.readCr3 &&& cr3Mask = root := by
        rw [Machine.readCr3, isCr3, owned.rootFrame.and_cr3Mask]
      obtain ⟨rest, extend, maps⟩ := owned.vmMap_extends true true false
        (lowerHalf_of_lt lower)
      obtain ⟨after, last, run, later, others⟩ := inductionHypothesis small.2
        extend.kept (extend.sameCr3.trans isCr3)
      refine ⟨after, last, ?_, extend.trans later, ?_⟩
      · rw [forM_cons_apply, bind_of_ok]
        · exact run
        · rw [bind_of_ok (modifyGet_apply _ _), masked]
          rfl
      · intro noZero enough
        rw [List.length_cons] at enough ⊢
        obtain ⟨count, used, mapped⟩ := maps lower noZero (by omega)
        obtain ⟨laterCount, laterUsed, written⟩ := others
          (fun member => noZero (extend.subset 0 member)) (by omega)
        refine ⟨by omega, laterUsed ∘ used, ?_⟩
        rw [written, mapped]
        rfl

/-- `mapUserStack` does not trap. -/
theorem mapUserStack_ok
    (owned : Owned root pool machine free) (isCr3 : machine.cr3 = root) :
    ∃ after rest, mapUserStack machine = .ok () after ∧
      Extends root pool machine after free rest ∧
      (0 ∉ free -> 32 ≤ free.length ->
        free.length ≤ rest.length + 32 ∧
        (TablesUsed machine.memory root -> TablesUsed after.memory root) ∧
        lowerSpace after.memory root =
          mapStackPages (List.range 8) (lowerSpace machine.memory root)) := by
  obtain ⟨after, rest, run, extend, space⟩ := mapUserStack_pages (List.range 8)
    (by simp) owned isCr3
  exact ⟨after, rest, run, extend, space⟩

end StarterKernel
