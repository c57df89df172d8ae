import StarterKernel.Exec.Contents
import StarterKernel.Exec.Coverage
import StarterKernel.Exec.FrameDemand
import StarterKernel.Paging.VmMapFailure

/-!
# Entering a program that is not mapped completely

`exec_setup` ignores what `vm_map` returns.  A segment whose page could not be mapped
makes the copy fault, but a page of the user stack that could not be mapped is missed
only when the program runs.  So the program is mapped completely exactly if the freelist
is long enough for all its pages and their tables, and no segment claims a stack page
with other permissions.
-/

namespace StarterKernel

open StateError
open PagedSpace (Space)

variable {root header size name address position : Nat} {pool : Set Nat}
variable {machine middle after : Machine} {free rest : List Nat} {pages : List Nat}
variable {image : Nat -> UInt8} {phdr : ElfPhdr} {phdrs : List ElfPhdr}
variable {hdr : Stivale2Struct} {ourmod : Stivale2Module} {entry : UsermodeEntry}

/-! ## The segments -/

/-- The addresses that the loader maps the page of. -/
def loadedPages (phdrs : List ElfPhdr) : List Nat :=
  (phdrs.filter fun phdr => phdr.Loaded).map ElfPhdr.vaddr

/-- The permissions of a page once the segments are loaded: the last one wins. -/
def segmentAccess (phdrs : List ElfPhdr) (before : Option Access) (position : Nat) :
    Option Access :=
  phdrs.foldl
    (fun access phdr =>
      if phdr.Loaded ∧ position / 4096 = phdr.vaddr / 4096 then some phdr.access
      else access)
    before

theorem loadedPages_cons (loaded : phdr.Loaded) :
    loadedPages (phdr :: phdrs) = phdr.vaddr :: loadedPages phdrs := by
  rw [loadedPages, List.filter_cons_of_pos (by simpa using loaded)]
  rfl

theorem loadedPages_skip (notLoaded : ¬phdr.Loaded) :
    loadedPages (phdr :: phdrs) = loadedPages phdrs := by
  rw [loadedPages, List.filter_cons_of_neg (by simpa using notLoaded)]
  rfl

theorem mem_loadedPages :
    address ∈ loadedPages phdrs ↔ ∃ phdr ∈ phdrs, phdr.Loaded ∧ phdr.vaddr = address := by
  simp [loadedPages, and_assoc]

/-- Loading a segment with frames for its page. -/
theorem loadPhdr_enough
    (maps : MapsPages root pool pages machine free) (isCr3 : machine.cr3 = root)
    (loaded : phdr.Loaded) (lower : phdr.vaddr < 2 ^ 47)
    (enough : framesFor (pages ++ [phdr.vaddr]) ≤ framesFor pages + usableCount free)
    (run : loadPhdr header root phdr machine = .ok () after) :
    ∃ rest, Extends root pool machine after free rest ∧
      MapsPages root pool (pages ++ [phdr.vaddr]) after rest ∧
      usableCount rest + framesFor (pages ++ [phdr.vaddr]) =
        usableCount free + framesFor pages ∧
      ∀ position, accessAt (lowerSpace after.memory root) position =
        if position / 4096 = phdr.vaddr / 4096 then some phdr.access
        else accessAt (lowerSpace machine.memory root) position := by
  obtain ⟨rest, extend, mapsNext, count, space⟩ := maps.vmMap true true false lower enough
  obtain ⟨later, _, filled⟩ :=
    loadPhdr_mapped isCr3 loaded (lowerHalf_of_lt lower) run extend
  obtain ⟨source, written⟩ := filled lower
  have same : ∀ position, lowerSpace after.memory root position = none ↔
      lowerSpace (machine.vmMap root phdr.vaddr true true false).2.memory root position =
        none := by
    intro position
    rw [written, PagedSpace.protect_eq_none_iff, PagedSpace.write_eq_none_iff]
  refine ⟨rest, extend.trans later, ?_, count, ?_⟩
  · exact
      { owned := later.kept
        used := mapsNext.used.mono later fun position => mt (same position).mp
        lower := mapsNext.lower
        mapped := fun position => (not_congr (same position)).trans
          (mapsNext.mapped position) }
  · intro position
    rw [written, accessAt]
    by_cases samePage : position / 4096 = phdr.vaddr / 4096
    · have isMapped := (mapsNext.mapped position).mpr
        ⟨phdr.vaddr, by simp, samePage.symm⟩
      rw [if_pos samePage, PagedSpace.protect_same samePage]
      obtain ⟨cell, visible⟩ := Option.ne_none_iff_exists'.mp
        (mt PagedSpace.write_eq_none_iff.mp isMapped)
      rw [visible]
      rfl
    · rw [if_neg samePage, PagedSpace.protect_other samePage, PagedSpace.write_access,
        space, PagedSpace.map_other samePage]
      rfl

/-- Loading a segment without frames for its page ends only if nothing is copied. -/
theorem loadPhdr_short
    (maps : MapsPages root pool pages machine free) (isCr3 : machine.cr3 = root)
    (loaded : phdr.Loaded) (lower : phdr.vaddr < 2 ^ 47)
    (short : framesFor pages + usableCount free < framesFor (pages ++ [phdr.vaddr]))
    (run : loadPhdr header root phdr machine = .ok () after) :
    phdr.memsz = 0 ∧ (0 ∉ free -> Extends root pool machine after free [] ∧
      lowerSpace after.memory root phdr.vaddr = none) := by
  obtain ⟨rest, extend, vacant, drained⟩ := maps.vmMap_short true true false lower short
  obtain ⟨later, allMapped, filled⟩ :=
    loadPhdr_mapped isCr3 loaded (lowerHalf_of_lt lower) run extend
  obtain ⟨source, written⟩ := filled lower
  constructor
  · by_contra nonempty
    exact allMapped 0 (by omega) vacant
  · intro noZero
    obtain rfl := drained noZero
    refine ⟨extend.trans later, ?_⟩
    rw [written, PagedSpace.protect_eq_none_iff, PagedSpace.write_eq_none_iff]
    exact vacant

/-- Loading segments with frames for their pages. -/
theorem loadPhdrs_enough
    (maps : MapsPages root pool pages machine free) (isCr3 : machine.cr3 = root)
    (lower : ∀ phdr ∈ phdrs, phdr.Loaded -> phdr.vaddr < 2 ^ 47)
    (enough : framesFor (pages ++ loadedPages phdrs) ≤ framesFor pages + usableCount free)
    (run : phdrs.forM (loadPhdr header root) machine = .ok () after) :
    ∃ rest, Extends root pool machine after free rest ∧
      MapsPages root pool (pages ++ loadedPages phdrs) after rest ∧
      usableCount rest + framesFor (pages ++ loadedPages phdrs) =
        usableCount free + framesFor pages ∧
      ∀ position, accessAt (lowerSpace after.memory root) position =
        segmentAccess phdrs (accessAt (lowerSpace machine.memory root) position)
          position := by
  induction phdrs generalizing machine free pages with
  | nil =>
      cases run
      rw [show loadedPages [] = [] from rfl, List.append_nil]
      exact ⟨free, Extends.refl maps.owned, maps, rfl, fun _ => rfl⟩
  | cons phdr phdrs inductionHypothesis =>
      simp only [List.mem_cons, forall_eq_or_imp] at lower
      rw [forM_cons_apply] at run
      obtain ⟨_, middle, loads, run⟩ := ok_of_bind run
      by_cases loaded : phdr.Loaded
      · rw [loadedPages_cons loaded, List.append_cons] at enough ⊢
        have first := framesFor_append_left (pages ++ [phdr.vaddr]) (loadedPages phdrs)
        obtain ⟨rest, extend, mapsNext, count, access⟩ :=
          loadPhdr_enough maps isCr3 loaded (lower.1 loaded) (by omega) loads
        obtain ⟨last, later, mapsAll, total, accessAll⟩ := inductionHypothesis mapsNext
          (extend.sameCr3.trans isCr3) lower.2 (by omega) run
        refine ⟨last, extend.trans later, mapsAll, by omega, ?_⟩
        intro position
        rw [accessAll, access, segmentAccess, segmentAccess, List.foldl_cons]
        simp only [loaded, true_and]
      · rw [loadedPages_skip loaded] at enough ⊢
        rw [loadPhdr, if_neg loaded] at loads
        cases loads
        obtain ⟨last, later, mapsAll, total, accessAll⟩ :=
          inductionHypothesis maps isCr3 lower.2 enough run
        refine ⟨last, later, mapsAll, total, ?_⟩
        intro position
        rw [accessAll, segmentAccess, segmentAccess, List.foldl_cons]
        simp only [loaded, false_and, if_false]

/-- Loading segments without frames for all their pages ends only if one of them stays
unmapped for good.  This takes a segment from which nothing is copied, and the end of the
freelist. -/
theorem loadPhdrs_short
    (maps : MapsPages root pool pages machine free) (isCr3 : machine.cr3 = root)
    (lower : ∀ phdr ∈ phdrs, phdr.Loaded -> phdr.vaddr < 2 ^ 47)
    (short : framesFor pages + usableCount free < framesFor (pages ++ loadedPages phdrs))
    (copied : 0 ∉ free ∨ ∀ phdr ∈ phdrs, phdr.Loaded -> 0 < phdr.memsz)
    (run : phdrs.forM (loadPhdr header root) machine = .ok () after) :
    Extends root pool machine after free [] ∧
      ∃ page ∈ loadedPages phdrs, lowerSpace after.memory root page = none := by
  induction phdrs generalizing machine free pages with
  | nil =>
      rw [show loadedPages [] = [] from rfl, List.append_nil] at short
      omega
  | cons phdr phdrs inductionHypothesis =>
      simp only [List.mem_cons, forall_eq_or_imp] at lower copied
      have copiedRest := copied.imp_right And.right
      rw [forM_cons_apply] at run
      obtain ⟨_, middle, loads, run⟩ := ok_of_bind run
      by_cases loaded : phdr.Loaded
      · rw [loadedPages_cons loaded] at short ⊢
        rw [List.append_cons] at short
        by_cases enough : framesFor (pages ++ [phdr.vaddr]) ≤
            framesFor pages + usableCount free
        · obtain ⟨rest, extend, mapsNext, count, _⟩ :=
            loadPhdr_enough maps isCr3 loaded (lower.1 loaded) enough loads
          obtain ⟨later, page, member, vacant⟩ := inductionHypothesis mapsNext
            (extend.sameCr3.trans isCr3) lower.2 (by omega)
            (copiedRest.imp_left fun noZero => mt (extend.subset 0) noZero) run
          exact ⟨extend.trans later, page, List.mem_cons_of_mem _ member, vacant⟩
        · obtain ⟨empty, stuck⟩ := loadPhdr_short maps isCr3 loaded (lower.1 loaded)
            (by omega) loads
          have noZero : 0 ∉ free := by
            rcases copied with noZero | nonempty
            · exact noZero
            · have := nonempty.1 loaded
              omega
          obtain ⟨extend, vacant⟩ := stuck noZero
          obtain ⟨last, later, _⟩ := loadPhdrs_ok extend.kept
            (extend.sameCr3.trans isCr3) lower.2 run
          obtain rfl : last = [] := List.eq_nil_iff_forall_not_mem.mpr fun frame member =>
            List.not_mem_nil (later.subset frame member)
          refine ⟨extend.trans later, phdr.vaddr, List.mem_cons_self, ?_⟩
          by_contra isMapped
          exact later.mapped_of_nil extend.kept (lower.1 loaded) isMapped vacant
      · rw [loadedPages_skip loaded] at short ⊢
        rw [loadPhdr, if_neg loaded] at loads
        cases loads
        exact inductionHypothesis maps isCr3 lower.2 short copiedRest run

/-! ## The user stack -/

/-- The addresses of the pages of the user stack. -/
def stackPages : List Nat := (List.range 8).map fun page => userStack + 0x1000 * page

/-- Mapping one page of the user stack. -/
def mapStackPage (address : Nat) : Kernel Unit := do
  let _ ← modifyGet fun machine =>
    machine.vmMap (machine.readCr3 &&& cr3Mask) address true true false

theorem mapUserStack_eq : mapUserStack = stackPages.forM mapStackPage := by
  have pages : userStackSize / 0x1000 = 8 := by decide
  rw [stackPages, forM_map, mapUserStack, pages]
  simp only [mapStackPage]

theorem mapStackPage_apply (owned : Owned root pool machine free)
    (isCr3 : machine.cr3 = root) (address : Nat) :
    mapStackPage address machine =
      .ok () (machine.vmMap root address true true false).2 := by
  have masked : machine.readCr3 &&& cr3Mask = root := by
    rw [Machine.readCr3, isCr3, owned.rootFrame.and_cr3Mask]
  rw [mapStackPage, bind_of_ok (modifyGet_apply _ _), masked]
  rfl

/-- A vacant page stays vacant while other pages are mapped. -/
theorem mapStackPages_vacant {addresses : List Nat}
    (owned : Owned root pool machine free) (isCr3 : machine.cr3 = root)
    (lower : ∀ other ∈ addresses, other < 2 ^ 47) (inside : address < 2 ^ 47)
    (otherPages : ∀ other ∈ addresses, address / 4096 ≠ other / 4096)
    (vacant : lowerSpace machine.memory root address = none)
    (run : addresses.forM mapStackPage machine = .ok () after) :
    lowerSpace after.memory root address = none := by
  induction addresses generalizing machine free with
  | nil =>
      cases run
      exact vacant
  | cons other addresses inductionHypothesis =>
      simp only [List.mem_cons, forall_eq_or_imp] at lower otherPages
      rw [forM_cons_apply, bind_of_ok (mapStackPage_apply owned isCr3 other)] at run
      obtain ⟨rest, extend, _⟩ :=
        owned.vmMap_extends true true false (lowerHalf_of_lt lower.1)
      exact inductionHypothesis extend.kept (extend.sameCr3.trans isCr3) lower.2
        otherPages.2 ((owned.vmMap_otherPage true true false lower.1 inside
          otherPages.1).mpr vacant) run

/-- Mapping a page gives it permissions if it has none. -/
theorem MapsPages.access_map (maps : MapsPages root pool pages machine free) :
    accessAt (PagedSpace.map 4096 (lowerSpace machine.memory root) address dataAccess)
        position =
      if position / 4096 = address / 4096 then
        (accessAt (lowerSpace machine.memory root) position).or (some dataAccess)
      else accessAt (lowerSpace machine.memory root) position := by
  by_cases samePage : position / 4096 = address / 4096
  · have uniform : lowerSpace machine.memory root position ≠ none ↔
        lowerSpace machine.memory root address ≠ none := by
      rw [maps.mapped, maps.mapped, show position / 2 ^ 12 = address / 2 ^ 12 from samePage]
    rw [if_pos samePage]
    by_cases vacant : lowerSpace machine.memory root address = none
    · have alsoVacant : lowerSpace machine.memory root position = none := by
        by_contra isMapped
        exact uniform.mp isMapped vacant
      rw [accessAt, PagedSpace.map_vacant vacant samePage, accessAt, alsoVacant]
      rfl
    · obtain ⟨cell, visible⟩ := Option.ne_none_iff_exists'.mp (uniform.mpr vacant)
      rw [PagedSpace.map_mapped vacant, accessAt, visible]
      rfl
  · rw [if_neg samePage, accessAt, PagedSpace.map_other samePage]
    rfl

/-- Mapping pages with frames for them. -/
theorem mapStackPages_enough {addresses : List Nat}
    (maps : MapsPages root pool pages machine free) (isCr3 : machine.cr3 = root)
    (lower : ∀ other ∈ addresses, other < 2 ^ 47)
    (enough : framesFor (pages ++ addresses) ≤ framesFor pages + usableCount free)
    (run : addresses.forM mapStackPage machine = .ok () after) :
    ∀ position, accessAt (lowerSpace after.memory root) position =
      if ∃ other ∈ addresses, position / 4096 = other / 4096 then
        (accessAt (lowerSpace machine.memory root) position).or (some dataAccess)
      else accessAt (lowerSpace machine.memory root) position := by
  induction addresses generalizing machine free pages with
  | nil =>
      cases run
      simp
  | cons other addresses inductionHypothesis =>
      simp only [List.mem_cons, forall_eq_or_imp] at lower
      rw [List.append_cons] at enough
      rw [forM_cons_apply, bind_of_ok (mapStackPage_apply maps.owned isCr3 other)] at run
      have first := framesFor_append_left (pages ++ [other]) addresses
      obtain ⟨rest, extend, mapsNext, count, space⟩ :=
        maps.vmMap true true false lower.1 (by omega)
      have access := inductionHypothesis mapsNext (extend.sameCr3.trans isCr3) lower.2
        (by omega) run
      intro position
      have middle : accessAt (lowerSpace
          (machine.vmMap root other true true false).2.memory root) position =
            if position / 4096 = other / 4096 then
              (accessAt (lowerSpace machine.memory root) position).or (some dataAccess)
            else accessAt (lowerSpace machine.memory root) position := by
        rw [space]
        exact maps.access_map
      simp only [access, middle, List.mem_cons, or_and_right, exists_or, exists_eq_left]
      by_cases samePage : position / 4096 = other / 4096
      · simp [samePage]
      · simp [samePage]

/-- Mapping pages without frames for all of them leaves one of them vacant. -/
theorem mapStackPages_short {addresses : List Nat}
    (maps : MapsPages root pool pages machine free) (isCr3 : machine.cr3 = root)
    (lower : ∀ other ∈ addresses, other < 2 ^ 47)
    (separate : addresses.Pairwise fun first second => first / 4096 ≠ second / 4096)
    (short : framesFor pages + usableCount free < framesFor (pages ++ addresses))
    (run : addresses.forM mapStackPage machine = .ok () after) :
    ∃ other ∈ addresses, lowerSpace after.memory root other = none := by
  induction addresses generalizing machine free pages with
  | nil =>
      rw [List.append_nil] at short
      omega
  | cons other addresses inductionHypothesis =>
      simp only [List.mem_cons, forall_eq_or_imp] at lower
      rw [List.pairwise_cons] at separate
      rw [List.append_cons] at short
      rw [forM_cons_apply, bind_of_ok (mapStackPage_apply maps.owned isCr3 other)] at run
      by_cases enough : framesFor (pages ++ [other]) ≤ framesFor pages + usableCount free
      · obtain ⟨rest, extend, mapsNext, count, _⟩ :=
          maps.vmMap true true false lower.1 enough
        obtain ⟨page, member, vacant⟩ := inductionHypothesis mapsNext
          (extend.sameCr3.trans isCr3) lower.2 separate.2 (by omega) run
        exact ⟨page, List.mem_cons_of_mem _ member, vacant⟩
      · obtain ⟨rest, extend, vacant, _⟩ :=
          maps.vmMap_short true true false lower.1 (by omega)
        exact ⟨other, List.mem_cons_self, mapStackPages_vacant extend.kept
          (extend.sameCr3.trans isCr3) lower.2 lower.1 separate.1 vacant run⟩

/-! ## The whole program -/

/-- Every page of a loaded segment is mapped for the user, and every page of the stack is
mapped for the user, writable and not executable. -/
structure FullyMapped (image : Nat -> UInt8) (space : Space Access) : Prop where
  segments : ∀ phdr ∈ programHeaders image, phdr.Loaded ->
    ∀ position, position / 4096 = phdr.vaddr / 4096 ->
      ∃ access, accessAt space position = some access ∧ access.user = true
  stack : ∀ position, userStack ≤ position -> position < userStack + userStackSize ->
    accessAt space position =
      some { user := true, writable := true, executable := false }

/-- The freelist is long enough for the pages of the segments and of the stack and for
their tables, and no segment gives a stack page other permissions. -/
structure RoomFor (image : Nat -> UInt8) (free : List Nat) : Prop where
  frames : framesFor (loadedPages (programHeaders image) ++ stackPages) ≤
    usableCount free
  stackFlags : ∀ page ∈ stackPages, ∀ access,
    segmentAccess (programHeaders image) none page = some access ->
      access.writable = true ∧ access.executable = false

theorem stackPages_lower : ∀ page ∈ stackPages, page < 2 ^ 47 := by
  decide

theorem stackPages_separate :
    stackPages.Pairwise fun first second => first / 4096 ≠ second / 4096 := by
  decide

/-- An address in the stack is in one of its pages. -/
theorem mem_stackPages_iff :
    (∃ page ∈ stackPages, position / 4096 = page / 4096) ↔
      userStack ≤ position ∧ position < userStack + userStackSize := by
  simp only [stackPages, List.mem_map, List.mem_range, exists_exists_and_eq_and]
  unfold userStack userStackSize
  constructor
  · rintro ⟨page, small, same⟩
    omega
  · rintro ⟨above, below⟩
    exact ⟨(position - 0x70000000000) / 4096, by omega, by omega⟩

/-- Segments are mapped for the user. -/
theorem segmentAccess_user {before : Option Access}
    (userBefore : ∀ access ∈ before, access.user = true) :
    ∀ access ∈ segmentAccess phdrs before position, access.user = true := by
  induction phdrs generalizing before with
  | nil => exact userBefore
  | cons phdr phdrs inductionHypothesis =>
      apply inductionHypothesis
      dsimp only
      split
      · rintro access ⟨⟩
        rfl
      · exact userBefore

/-- The page of a loaded segment is mapped. -/
theorem segmentAccess_ne_none {before : Option Access}
    (mapped : before ≠ none ∨ ∃ phdr ∈ phdrs, phdr.Loaded ∧
      position / 4096 = phdr.vaddr / 4096) :
    segmentAccess phdrs before position ≠ none := by
  induction phdrs generalizing before with
  | nil => simpa [segmentAccess] using mapped
  | cons phdr phdrs inductionHypothesis =>
      apply inductionHypothesis
      simp only [List.mem_cons, exists_eq_or_imp] at mapped
      dsimp only
      split
      next => simp
      next other =>
        rcases mapped with isMapped | here | later
        · exact Or.inl isMapped
        · exact absurd here other
        · exact Or.inr later

theorem segmentAccess_samePage {before : Option Access} {page : Nat}
    (samePage : position / 4096 = page / 4096) :
    segmentAccess phdrs before position = segmentAccess phdrs before page := by
  unfold segmentAccess
  rw [samePage]

/-- Loading a module is loading its segments and then mapping the stack. -/
theorem loadModule_split
    (owned : Owned root pool machine free) (isCr3 : machine.cr3 = root)
    (imageAt : ImageAt root pool machine header size image)
    (elf : ElfImage image size) (lower : LowerSegments image)
    (run : loadModule header machine = .ok entry after) :
    ∃ middle, (programHeaders image).forM (loadPhdr header root) machine =
        .ok () middle ∧
      stackPages.forM mapStackPage middle = .ok () after := by
  rw [loadModule_eq owned isCr3 imageAt elf lower] at run
  obtain ⟨_, middle, loads, run⟩ := ok_of_bind run
  obtain ⟨_, stacked, maps, run⟩ := ok_of_bind run
  cases run
  exact ⟨middle, loads, mapUserStack_eq ▸ maps⟩

/-- Nothing is mapped before the program is loaded. -/
theorem MapsPages.access_nil (maps : MapsPages root pool [] machine free) (position : Nat) :
    accessAt (lowerSpace machine.memory root) position = none := by
  have vacant : lowerSpace machine.memory root position = none := by
    by_contra isMapped
    obtain ⟨page, member, _⟩ := (maps.mapped position).mp isMapped
    exact List.not_mem_nil member
  rw [accessAt, vacant]
  rfl

theorem framesFor_nil : framesFor [] = 0 := by decide

/-- With frames for it a program gets the permissions of its segments, and of the stack
where there is no segment. -/
theorem loadModule_access
    (maps : MapsPages root pool [] machine free) (isCr3 : machine.cr3 = root)
    (imageAt : ImageAt root pool machine header size image)
    (elf : ElfImage image size) (lower : LowerSegments image)
    (enough : framesFor (loadedPages (programHeaders image) ++ stackPages) ≤
      usableCount free)
    (run : loadModule header machine = .ok entry after) (position : Nat) :
    accessAt (lowerSpace after.memory root) position =
      if userStack ≤ position ∧ position < userStack + userStackSize then
        (segmentAccess (programHeaders image) none position).or (some dataAccess)
      else segmentAccess (programHeaders image) none position := by
  obtain ⟨middle, loads, stack⟩ := loadModule_split maps.owned isCr3 imageAt elf lower run
  have segments := framesFor_append_left (loadedPages (programHeaders image)) stackPages
  obtain ⟨rest, extend, mapsNext, count, access⟩ := loadPhdrs_enough maps isCr3 lower
    (by rw [List.nil_append]; omega) loads
  rw [List.nil_append] at mapsNext count
  rw [framesFor_nil] at count
  rw [mapStackPages_enough mapsNext (extend.sameCr3.trans isCr3) stackPages_lower
    (by omega) stack, access, maps.access_nil]
  exact if_congr mem_stackPages_iff rfl rfl

/-- With room for it a program is mapped completely. -/
theorem loadModule_room
    (maps : MapsPages root pool [] machine free) (isCr3 : machine.cr3 = root)
    (imageAt : ImageAt root pool machine header size image)
    (elf : ElfImage image size) (lower : LowerSegments image)
    (run : loadModule header machine = .ok entry after) (room : RoomFor image free) :
    FullyMapped image (lowerSpace after.memory root) := by
  have access := loadModule_access maps isCr3 imageAt elf lower room.frames run
  have user : ∀ position,
      ∀ access ∈ segmentAccess (programHeaders image) none position,
        access.user = true := fun position => segmentAccess_user (by simp)
  constructor
  · intro phdr member loaded position samePage
    have mapped : segmentAccess (programHeaders image) none position ≠ none :=
      segmentAccess_ne_none (Or.inr ⟨phdr, member, loaded, samePage⟩)
    obtain ⟨permissions, visible⟩ := Option.ne_none_iff_exists'.mp mapped
    refine ⟨permissions, ?_, user position permissions visible⟩
    rw [access, visible]
    simp
  · intro position above below
    rw [access, if_pos ⟨above, below⟩]
    cases visible : segmentAccess (programHeaders image) none position with
    | none => rfl
    | some permissions =>
        obtain ⟨page, member, samePage⟩ := mem_stackPages_iff.mpr ⟨above, below⟩
        obtain ⟨writable, executable⟩ := room.stackFlags page member permissions
          (by rw [← segmentAccess_samePage samePage, visible])
        have isUser := user position permissions visible
        cases permissions
        simp_all

/-- With frames for the segments but not for the stack, a page of the stack is missing. -/
theorem loadModule_stack_short
    (maps : MapsPages root pool [] machine free) (isCr3 : machine.cr3 = root)
    (imageAt : ImageAt root pool machine header size image)
    (elf : ElfImage image size) (lower : LowerSegments image)
    (segments : framesFor (loadedPages (programHeaders image)) ≤ usableCount free)
    (short : usableCount free <
      framesFor (loadedPages (programHeaders image) ++ stackPages))
    (run : loadModule header machine = .ok entry after) :
    ∃ page ∈ stackPages, lowerSpace after.memory root page = none := by
  obtain ⟨middle, loads, stack⟩ := loadModule_split maps.owned isCr3 imageAt elf lower run
  obtain ⟨rest, extend, mapsNext, count, _⟩ := loadPhdrs_enough maps isCr3 lower
    (by rw [List.nil_append]; omega) loads
  rw [List.nil_append] at mapsNext count
  rw [framesFor_nil] at count
  exact mapStackPages_short mapsNext (extend.sameCr3.trans isCr3) stackPages_lower
    stackPages_separate (by omega) stack

/-- A program that is mapped completely had room.  Where physical page 0 is on the
freelist this takes that something is copied from every segment. -/
theorem RoomFor.of_fullyMapped
    (maps : MapsPages root pool [] machine free) (isCr3 : machine.cr3 = root)
    (imageAt : ImageAt root pool machine header size image)
    (elf : ElfImage image size) (lower : LowerSegments image)
    (copied : 0 ∉ free ∨ ∀ phdr ∈ programHeaders image, phdr.Loaded -> 0 < phdr.memsz)
    (run : loadModule header machine = .ok entry after)
    (full : FullyMapped image (lowerSpace after.memory root)) :
    RoomFor image free := by
  obtain ⟨middle, loads, stack⟩ := loadModule_split maps.owned isCr3 imageAt elf lower run
  have enough : framesFor (loadedPages (programHeaders image) ++ stackPages) ≤
      usableCount free := by
    by_contra short
    by_cases segments : framesFor (loadedPages (programHeaders image)) ≤ usableCount free
    · obtain ⟨page, member, vacant⟩ :=
        loadModule_stack_short maps isCr3 imageAt elf lower segments (by omega) run
      obtain ⟨above, below⟩ := mem_stackPages_iff.mp ⟨page, member, rfl⟩
      have mapped := full.stack page above below
      rw [accessAt, vacant] at mapped
      cases mapped
    · obtain ⟨extend, page, member, vacant⟩ := loadPhdrs_short maps isCr3 lower
        (by rw [List.nil_append, framesFor_nil]; omega) copied loads
      obtain ⟨phdr, phdrMember, loaded, rfl⟩ := mem_loadedPages.mp member
      obtain ⟨other, last, runs, later, _⟩ := mapUserStack_ok extend.kept
        (extend.sameCr3.trans isCr3)
      rw [mapUserStack_eq, stack] at runs
      cases runs
      obtain ⟨access, mapped, _⟩ := full.segments phdr phdrMember loaded _ rfl
      refine later.mapped_of_nil extend.kept (lower phdr phdrMember loaded) ?_ vacant
      intro stillVacant
      rw [accessAt, stillVacant] at mapped
      cases mapped
  refine ⟨enough, ?_⟩
  intro page member access isAccess
  obtain ⟨above, below⟩ := mem_stackPages_iff.mp ⟨page, member, rfl⟩
  have mapped := full.stack page above below
  rw [loadModule_access maps isCr3 imageAt elf lower enough run, if_pos ⟨above, below⟩,
    isAccess] at mapped
  cases mapped
  exact ⟨rfl, rfl⟩

/-- The state in which a program is loaded maps nothing. -/
theorem Owned.mapsPages_unmapped (owned : Owned root pool machine free)
    (isCr3 : machine.cr3 = root) :
    MapsPages root pool [] (machine.unmapLowerHalf machine.cr3)
      (freeAfterUnmap machine root free) := by
  subst isCr3
  obtain ⟨unmapped, _, empty⟩ := owned.unmapped rfl
  refine ⟨unmapped, ?_, by simp, ?_⟩
  · intro path frame lower reached
    rw [show tableAt (machine.unmapLowerHalf machine.cr3).memory machine.cr3 path = none from
      congrArg RadixTree.Walk.table?
        (Machine.treeWalk_unmapLowerHalf_of_lower owned.rootFrame owned.tree lower)] at reached
    cases reached
  · intro address
    rw [empty]
    simp [emptySpace]

/-- When `exec_setup` enters user mode, the program is mapped completely if there was
room for it, and only if there was, unless physical page 0 is on the freelist and
nothing is copied from some segment. -/
theorem entered_program_fullyMapped_iff
    {root size name : Nat} {pool : Set Nat} {machine after : Machine} {free : List Nat}
    {image : Nat -> UInt8} {hdr : Stivale2Struct} {ourmod : Stivale2Module}
    {entry : UsermodeEntry}
    (owned : Owned root pool machine free) (isCr3 : machine.cr3 = root)
    (enters : execSetup hdr name machine = .ok (.entered entry) after)
    (finds : findModule name hdr.modules (machine.unmapLowerHalf machine.cr3) =
      .ok (some ourmod) (machine.unmapLowerHalf machine.cr3))
    (imageAt : ImageAt root pool machine ourmod.beginAddress size image)
    (elf : ElfImage image size) (lower : LowerSegments image) :
    (RoomFor image (freeAfterUnmap machine root free) ->
      FullyMapped image (lowerSpace after.memory root)) ∧
    ((0 ∉ freeAfterUnmap machine root free ∨
        ∀ phdr ∈ programHeaders image, phdr.Loaded -> 0 < phdr.memsz) ->
      FullyMapped image (lowerSpace after.memory root) ->
      RoomFor image (freeAfterUnmap machine root free)) := by
  have maps := owned.mapsPages_unmapped isCr3
  subst isCr3
  obtain ⟨_, sameCr3, _⟩ := owned.unmapped rfl
  obtain ⟨found, _, findsFound, loads⟩ := execSetup_entered enters
  obtain rfl : ourmod = found := by
    rw [finds] at findsFound
    cases findsFound
    rfl
  have imageUnmapped := imageAt.unmapLowerHalf owned
  exact ⟨loadModule_room maps sameCr3 imageUnmapped elf lower loads,
    fun copied => RoomFor.of_fullyMapped maps sameCr3 imageUnmapped elf lower copied loads⟩

/-! ## A program that is entered without its stack -/

/-- The image of the program with a `.bss` part, as a function from offsets. -/
abbrev bssImage : Nat -> UInt8 := fun i => bssBytes.getD i 0

theorem lowerSegments_bssImage : LowerSegments bssImage := by
  intro phdr member _
  rw [programHeaders_bssBytes, List.mem_singleton] at member
  rw [member]
  decide

/-- With enough frames the booted machine maps this program completely. -/
theorem entered_program_fullyMapped_iff_bootMachine :
    ∃ start after, (bootMachine (bootContent (namedImage bssBytes))).memInit
        (namedHdr bssBytes) = some start ∧
      execSetup (namedHdr bssBytes) (bootImageBase + bssBytes.length) start =
        .ok (.entered (usermodeEntry bssImage)) after ∧
      FullyMapped bssImage (lowerSpace after.memory bootRoot) := by
  obtain ⟨start, free, init, ready, _⟩ :=
    boot_exec_walks bssBytes (by decide +kernel) (by decide +kernel)
  have finds := findModule_kernelName ready.owned ready.isCr3 ready.kernelName
    (find_namedHdr bssBytes)
  obtain ⟨after, _, enters, _⟩ := ExecReady.execSetup_image ready (find_namedHdr bssBytes)
    elfImage_bssBytes onePageSegments_bssBytes.pages
  have room : RoomFor bssImage (freeAfterUnmap start bootRoot free) := by
    constructor
    · have many := ready.enough.many
      have one : elfPhnum bssImage = 1 := by
        rw [← programHeaders_length, programHeaders_bssBytes, List.length_singleton]
      rw [usableCount_eq_length ready.enough.noZero, programHeaders_bssBytes]
      refine le_trans ?_ many
      rw [one]
      decide
    · rw [programHeaders_bssBytes]
      decide
  exact ⟨start, after, init, enters, (entered_program_fullyMapped_iff ready.owned
    ready.isCr3 enters finds ready.imageAt elfImage_bssBytes lowerSegments_bssImage).1 room⟩

theorem iterate_pmemAlloc_cr3 (count : Nat) (machine : Machine) :
    ((fun machine : Machine => machine.pmemAlloc.2)^[count] machine).cr3 = machine.cr3 := by
  induction count generalizing machine with
  | zero => rfl
  | succ count inductionHypothesis =>
      rw [Function.iterate_succ_apply, inductionHypothesis]
      unfold Machine.pmemAlloc
      split <;> rfl

/-- With four free frames this program is entered, and a page of its stack is missing. -/
theorem execSetup_fourFrames
    (owned : Owned root pool machine free) (isCr3 : machine.cr3 = root)
    (kernelName : KernelName root pool machine (bootImageBase + bssBytes.length) initName)
    (imageAt : ImageAt root pool machine bootImageBase bssBytes.length bssImage)
    (noZero : 0 ∉ freeAfterUnmap machine root free)
    (four : (freeAfterUnmap machine root free).length = 4) :
    ∃ after, execSetup (namedHdr bssBytes) (bootImageBase + bssBytes.length) machine =
        .ok (.entered (usermodeEntry bssImage)) after ∧
      ∃ page ∈ stackPages, lowerSpace after.memory root page = none := by
  have maps := owned.mapsPages_unmapped isCr3
  have finds := findModule_kernelName owned isCr3 kernelName (find_namedHdr bssBytes)
  obtain ⟨unmapped, unmappedCr3, empty⟩ := owned.unmapped isCr3
  have imageUnmapped := imageAt.unmapLowerHalf owned
  have lower := lowerSegments_bssImage
  rw [← isCr3] at imageUnmapped
  subst isCr3
  have single := programHeaders_bssBytes
  obtain ⟨middle, _, loads, _⟩ := loadPhdrs_image unmapped unmappedCr3 imageUnmapped
    onePageSegments_bssBytes.pages (by rw [empty]; exact fun _ _ _ => rfl) noZero
    (by rw [single, List.length_singleton, four])
  obtain ⟨after, run⟩ := loadModule_of_loads unmapped unmappedCr3 imageUnmapped
    elfImage_bssBytes lower loads
  refine ⟨after, execSetup_of_loadModule finds run, ?_⟩
  apply loadModule_stack_short maps unmappedCr3 imageUnmapped elfImage_bssBytes lower
    ?_ ?_ run
  · rw [usableCount_eq_length noZero, four, single]
    decide
  · rw [usableCount_eq_length noZero, four, single]
    decide

/-- The kernel enters a program without its stack when the frames run out. -/
theorem entered_program_without_stack :
    ∃ (start after : Machine) (count : Nat) (free : List Nat),
      (bootMachine (bootContent (namedImage bssBytes))).memInit (namedHdr bssBytes) =
        some start ∧
      let before := (fun machine : Machine => machine.pmemAlloc.2)^[count] start
      before.FreelistIs free ∧ free.length = 4 ∧
      execSetup (namedHdr bssBytes) (bootImageBase + bssBytes.length) before =
        .ok (.entered (usermodeEntry bssImage)) after ∧
      (∀ phdr ∈ programHeaders bssImage, phdr.Loaded -> phdr.OnePage) ∧
      ∃ page ∈ stackPages, lowerSpace after.memory bootRoot page = none := by
  obtain ⟨start, free, init, ready, enough, lower, _⟩ :=
    boot_exec_walks bssBytes (by decide +kernel) (by decide +kernel)
  have many := enough.many
  obtain ⟨kept, sameMemory⟩ := ready.owned.iterate_pmemAlloc
    (show free.length - 4 ≤ free.length by omega)
  have sameCr3 := iterate_pmemAlloc_cr3 (free.length - 4) start
  have four : (free.drop (free.length - 4)).length = 4 := by
    rw [List.length_drop]
    omega
  have noTables : lowerTables start.memory bootRoot = [] := by
    apply List.eq_nil_iff_forall_not_mem.mpr
    intro frame member
    obtain ⟨path, isLower, reached⟩ := mem_lowerTables.mp member
    rw [show tableAt start.memory bootRoot path = none from
      congrArg RadixTree.Walk.table? (lower path isLower)] at reached
    cases reached
  have sameFree : freeAfterUnmap
      ((fun machine : Machine => machine.pmemAlloc.2)^[free.length - 4] start) bootRoot
      (free.drop (free.length - 4)) = free.drop (free.length - 4) := by
    rw [freeAfterUnmap, sameMemory, noTables]
    rfl
  obtain ⟨after, enters, missing⟩ := execSetup_fourFrames kept
    (sameCr3.trans ready.isCr3)
    (ImageAt.congr ready.kernelName (fun _ _ => by rw [sameMemory])
      fun _ _ _ => sameMemory ▸ AgreeOn.refl _ _)
    (ready.imageAt.congr (fun _ _ => by rw [sameMemory])
      fun _ _ _ => sameMemory ▸ AgreeOn.refl _ _)
    (by rw [sameFree]; exact fun member => enough.noZero (List.mem_of_mem_drop member))
    (by rw [sameFree]; exact four)
  exact ⟨start, after, free.length - 4, _, init, kept.freelist, four, enters,
    onePageSegments_bssBytes.pages.onePage, missing⟩

end StarterKernel
