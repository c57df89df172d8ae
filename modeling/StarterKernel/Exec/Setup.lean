import StarterKernel.Exec.Loader
import StarterKernel.Exec.Lookup

/-!
# `exec_setup` as a whole

`exec_setup` starts from an empty lower half: the address space it enters user
mode with is the one the program headers and the user stack ask for.
-/

namespace StarterKernel

open StateError
open PagedSpace (Space)

variable {root header size name : Nat} {pool : Set Nat}
variable {machine looked after : Machine} {free rest : List Nat}
variable {image : Nat -> UInt8} {hdr : Stivale2Struct} {ourmod : Stivale2Module}
variable {entry : UsermodeEntry} {bytes : List UInt8}

/-! ## Loading the module -/

/-- What `usermode_entry` is given for a program. -/
def usermodeEntry (image : Nat -> UInt8) : UsermodeEntry where
  dataSel := userDataSelector ||| 0x3
  stackPtr := userStack + userStackSize - 8
  codeSel := userCodeSelector ||| 0x3
  instructionPtr := elfEntry image

/-- The segments of the lower half that the loader loads. -/
def LowerSegments (image : Nat -> UInt8) : Prop :=
  ∀ phdr ∈ programHeaders image, phdr.Loaded -> phdr.vaddr < 2 ^ 47

theorem LowerSegments.lowerHalf (lower : LowerSegments image) :
    ∀ phdr ∈ programHeaders image, phdr.Loaded -> LowerHalf phdr.vaddr :=
  fun phdr member loaded => lowerHalf_of_lt (lower phdr member loaded)

theorem programHeaders_length (image : Nat -> UInt8) :
    (programHeaders image).length = elfPhnum image := by
  simp [programHeaders]

theorem elfPhnum_lt (image : Nat -> UInt8) : elfPhnum image < 2 ^ 16 :=
  ByteMemory.load_lt

/-- The loop of `exec_setup` over the program headers. -/
theorem programHeaderLoop_start
    (owned : Owned root pool machine free) (isCr3 : machine.cr3 = root)
    (imageAt : ImageAt root pool machine header size image)
    (elf : ElfImage image size)
    (lower : ∀ phdr ∈ programHeaders image, phdr.Loaded -> LowerHalf phdr.vaddr) :
    programHeaderLoop header root (2 ^ 16) 0 ((header + elfPhoff image) % wordSize)
        machine =
      (programHeaders image).forM (loadPhdr header root) machine :=
  programHeaderLoop_eq owned isCr3 imageAt elf lower (Nat.zero_le _)
    (elfPhnum_lt image)

/-- Loading a module ends with user mode exactly if its headers can be loaded. -/
theorem loadModule_eq
    (owned : Owned root pool machine free) (isCr3 : machine.cr3 = root)
    (imageAt : ImageAt root pool machine header size image)
    (elf : ElfImage image size) (lower : LowerSegments image) :
    loadModule header machine =
      ((programHeaders image).forM (loadPhdr header root) >>= fun _ =>
        mapUserStack >>= fun _ => pure (usermodeEntry image)) machine := by
  have header64 := elf.header
  have masked : machine.readCr3 &&& cr3Mask = root := by
    rw [Machine.readCr3, isCr3, owned.rootFrame.and_cr3Mask]
  have same := programHeaderLoop_start owned isCr3 imageAt elf lower.lowerHalf
  rw [loadModule, bind_of_ok (imageAt.loadHeaderField (owned.root_eq isCr3)
    (show 32 + 8 ≤ size by omega)), bind_of_ok (get_apply machine), masked]
  change (programHeaderLoop header root (2 ^ 16) 0
    ((header + elfPhoff image) % wordSize) >>= _) machine = _
  cases ends : (programHeaders image).forM (loadPhdr header root) machine with
  | error trap middle => rw [bind_of_error (same.trans ends), bind_of_error ends]
  | ok value middle =>
      rw [bind_of_ok (same.trans ends), bind_of_ok ends]
      obtain ⟨rest, extend, _⟩ := loadPhdrs_ok owned isCr3 lower ends
      have middleCr3 := extend.sameCr3.trans isCr3
      obtain ⟨stacked, last, maps, later, _⟩ := mapUserStack_ok extend.kept middleCr3
      have stackedCr3 := later.sameCr3.trans middleCr3
      rw [bind_of_ok maps, bind_of_ok maps,
        bind_of_ok (((imageAt.mono extend).mono later).loadHeaderField
          (later.kept.root_eq stackedCr3) (show 24 + 8 ≤ size by omega))]
      rfl

/-- What loading a module does if it ends. -/
theorem loadModule_ok
    (owned : Owned root pool machine free) (isCr3 : machine.cr3 = root)
    (imageAt : ImageAt root pool machine header size image)
    (elf : ElfImage image size) (lower : LowerSegments image)
    (run : loadModule header machine = .ok entry after) :
    entry = usermodeEntry image ∧
      ∃ rest, Extends root pool machine after free rest ∧
        (0 ∉ free -> 4 * (elfPhnum image + 8) ≤ free.length ->
          (TablesUsed machine.memory root -> TablesUsed after.memory root) ∧
          ∃ loaded, LoadsAll (programHeaders image) (lowerSpace machine.memory root)
              loaded ∧
            lowerSpace after.memory root = mapStackPages (List.range 8) loaded) := by
  rw [loadModule_eq owned isCr3 imageAt elf lower] at run
  obtain ⟨_, middle, loads, run⟩ := ok_of_bind run
  obtain ⟨rest, extend, spaces⟩ := loadPhdrs_ok owned isCr3 lower loads
  obtain ⟨stacked, last, maps, later, stack⟩ := mapUserStack_ok extend.kept
    (extend.sameCr3.trans isCr3)
  rw [bind_of_ok maps] at run
  cases run
  refine ⟨rfl, last, extend.trans later, ?_⟩
  intro noZero enough
  rw [programHeaders_length] at spaces
  obtain ⟨count, used, loadsAll⟩ := spaces noZero (by omega)
  obtain ⟨_, stackUsed, space⟩ :=
    stack (fun member => noZero (extend.subset 0 member)) (by omega)
  exact ⟨stackUsed ∘ used, _, loadsAll, space⟩

/-- Loading a module ends once its headers are loaded. -/
theorem loadModule_of_loads {middle : Machine}
    (owned : Owned root pool machine free) (isCr3 : machine.cr3 = root)
    (imageAt : ImageAt root pool machine header size image)
    (elf : ElfImage image size) (lower : LowerSegments image)
    (loads : (programHeaders image).forM (loadPhdr header root) machine =
      .ok () middle) :
    ∃ after, loadModule header machine = .ok (usermodeEntry image) after := by
  obtain ⟨rest, extend, _⟩ := loadPhdrs_ok owned isCr3 lower loads
  obtain ⟨after, _, maps, _⟩ := mapUserStack_ok extend.kept (extend.sameCr3.trans isCr3)
  refine ⟨after, ?_⟩
  rw [loadModule_eq owned isCr3 imageAt elf lower, bind_of_ok loads, bind_of_ok maps]
  rfl

/-- Loading a module whose segments lie in pages of their own succeeds. -/
theorem loadModule_image
    (owned : Owned root pool machine free) (isCr3 : machine.cr3 = root)
    (imageAt : ImageAt root pool machine header size image)
    (elf : ElfImage image size) (pages : SeparatePages (programHeaders image) size)
    (vacant : ∀ phdr ∈ programHeaders image, phdr.Loaded ->
      lowerSpace machine.memory root phdr.vaddr = none)
    (noZero : 0 ∉ free) (enough : 4 * (elfPhnum image + 8) ≤ free.length) :
    ∃ after rest, loadModule header machine = .ok (usermodeEntry image) after ∧
      Extends root pool machine after free rest ∧
      free.length ≤ rest.length + 4 * (elfPhnum image + 8) ∧
      lowerSpace after.memory root =
        mapStackPages (List.range 8)
          (loadAll image (programHeaders image) (lowerSpace machine.memory root)) := by
  have length := programHeaders_length image
  obtain ⟨middle, rest, loads, extend, count, space⟩ := loadPhdrs_image owned isCr3
    imageAt pages vacant noZero (by omega)
  obtain ⟨after, last, maps, later, stack⟩ := mapUserStack_ok extend.kept
    (extend.sameCr3.trans isCr3)
  obtain ⟨stackCount, _, stackSpace⟩ :=
    stack (fun member => noZero (extend.subset 0 member)) (by omega)
  refine ⟨after, last, ?_, extend.trans later, by omega, ?_⟩
  · rw [loadModule_eq owned isCr3 imageAt elf
      fun phdr member loaded => (pages.onePage phdr member loaded).lower,
      bind_of_ok loads, bind_of_ok maps]
    rfl
  · rw [stackSpace, space]

/-! ## Unmapping and lookup -/

/-- The free frames once the lower half is unmapped. -/
abbrev freeAfterUnmap (machine : Machine) (root : Nat) (free : List Nat) : List Nat :=
  (lowerTables machine.memory root).reverse ++ free

/-- At least `count` frames are free.  Physical page 0, which `vm_map` takes for
the lack of a frame, is not among them. -/
structure EnoughFrames (free : List Nat) (count : Nat) : Prop where
  noZero : 0 ∉ free
  many : count ≤ free.length

/-- Nothing is mapped. -/
def emptySpace : Space Access := fun _ => none

/-- The state in which the lookup and the load take place. -/
theorem Owned.unmapped (owned : Owned root pool machine free)
    (isCr3 : machine.cr3 = root) :
    Owned root pool (machine.unmapLowerHalf machine.cr3)
        (freeAfterUnmap machine root free) ∧
      (machine.unmapLowerHalf machine.cr3).cr3 = root ∧
      lowerSpace (machine.unmapLowerHalf machine.cr3).memory root = emptySpace := by
  subst isCr3
  refine ⟨owned.unmapLowerHalf,
    Machine.unmapLowerHalf_cr3 owned.rootFrame owned.tree, ?_⟩
  funext address
  by_cases lower : address < 2 ^ 47
  · rw [lowerSpace_eq lower, translation_eq,
      Machine.treeWalk_unmapLowerHalf_of_lower owned.rootFrame owned.tree
        (lowerPath_pagePath lower)]
    rfl
  · rw [lowerSpace_of_le (by omega)]
    rfl

/-! The lookup leaves the machine alone. -/

theorem keeps_pointerString (pointer i : Nat) : Keeps (pointerString pointer i) :=
  Kernel.keeps_loadByte _

theorem keeps_localString (bytes : List UInt8) (i : Nat) : Keeps (localString bytes i) :=
  Keeps.pure _

theorem keeps_strlenLoop {str : Nat -> Kernel UInt8} (reads : ∀ i, Keeps (str i))
    (fuel len : Nat) : Keeps (strlenLoop str fuel len) := by
  induction fuel generalizing len with
  | zero => exact Keeps.throw _
  | succ fuel inductionHypothesis =>
      exact (reads len).bind fun _ => (inductionHypothesis _).ite (Keeps.pure _)

theorem keeps_strcmpLoop {s1 s2 : Nat -> Kernel UInt8} (readsLeft : ∀ i, Keeps (s1 i))
    (readsRight : ∀ i, Keeps (s2 i)) (len1 : Int) (fuel i : Nat) :
    Keeps (strcmpLoop s1 s2 len1 fuel i) := by
  induction fuel generalizing i with
  | zero => exact Keeps.pure _
  | succ fuel inductionHypothesis =>
      refine Keeps.ite ((readsLeft i).bind fun _ => (readsRight i).bind fun _ => ?_)
        (Keeps.pure _)
      exact (inductionHypothesis _).ite ((Keeps.pure _).ite (Keeps.pure _))

theorem keeps_strcmp {s1 s2 : Nat -> Kernel UInt8} (readsLeft : ∀ i, Keeps (s1 i))
    (readsRight : ∀ i, Keeps (s2 i)) : Keeps (strcmp s1 s2) := by
  refine (keeps_strlenLoop readsLeft _ _).bind fun _ =>
    (keeps_strlenLoop readsRight _ _).bind fun _ => ?_
  exact (keeps_strcmpLoop readsLeft readsRight _ _ _).ite
    ((Keeps.pure _).ite (Keeps.pure _))

theorem keeps_findModule (name : Nat) (modules : List Stivale2Module) :
    Keeps (findModule name modules) := by
  induction modules with
  | nil => exact Keeps.pure _
  | cons ourmod rest inductionHypothesis =>
      exact (keeps_strcmp (keeps_pointerString name)
        (keeps_localString ourmod.string)).bind fun _ =>
          (Keeps.pure _).ite inductionHypothesis

/-- The lookup finds a module of the list. -/
theorem findModule_mem {modules : List Stivale2Module}
    (run : findModule name modules machine = .ok (some ourmod) after) :
    ourmod ∈ modules := by
  induction modules with
  | nil => cases run
  | cons first rest inductionHypothesis =>
      obtain ⟨ret, middle, compares, run⟩ := ok_of_bind run
      rw [(keeps_strcmp (keeps_pointerString name)
        (keeps_localString first.string)).of_ok compares] at run
      split at run
      · cases run
        exact List.mem_cons_self
      · exact List.mem_cons_of_mem _ (inductionHypothesis run)

/-- `exec_setup` enters user mode after loading the module it found. -/
theorem execSetup_entered
    (run : execSetup hdr name machine = .ok (.entered entry) after) :
    ∃ ourmod ∈ hdr.modules,
      findModule name hdr.modules (machine.unmapLowerHalf machine.cr3) =
        .ok (some ourmod) (machine.unmapLowerHalf machine.cr3) ∧
      loadModule ourmod.beginAddress (machine.unmapLowerHalf machine.cr3) =
        .ok entry after := by
  obtain ⟨_, unmapped, unmaps, run⟩ := ok_of_bind run
  obtain rfl : machine.unmapLowerHalf machine.cr3 = unmapped := by
    cases unmaps
    rfl
  obtain ⟨found, looked, finds, run⟩ := ok_of_bind run
  obtain rfl := (keeps_findModule name hdr.modules).of_ok finds
  cases found with
  | none =>
      obtain ⟨_, _, _, run⟩ := ok_of_bind run
      cases run
  | some ourmod =>
      obtain ⟨loaded, last, loads, run⟩ := ok_of_bind run
      cases run
      exact ⟨ourmod, findModule_mem finds, finds, loads⟩

/-- `exec_setup` enters user mode if the module it finds can be loaded. -/
theorem execSetup_of_loadModule
    (finds : findModule name hdr.modules (machine.unmapLowerHalf machine.cr3) =
      .ok (some ourmod) (machine.unmapLowerHalf machine.cr3))
    (loads : loadModule ourmod.beginAddress (machine.unmapLowerHalf machine.cr3) =
      .ok entry after) :
    execSetup hdr name machine = .ok (.entered entry) after := by
  rw [execSetup, bind_of_ok (modify_apply _ _)]
  change (findModule name hdr.modules >>= _) (machine.unmapLowerHalf machine.cr3) = _
  rw [bind_of_ok finds]
  change (loadModule ourmod.beginAddress >>= _)
    (machine.unmapLowerHalf machine.cr3) = _
  rw [bind_of_ok loads]
  rfl

/-! ## A name in kernel memory -/

/-- A string and its terminator in kernel memory. -/
def KernelName (root : Nat) (pool : Set Nat) (machine : Machine) (name : Nat)
    (bytes : List UInt8) : Prop :=
  ImageAt root pool machine name (bytes.length + 1) fun i => bytes.getD i 0

/-- The address space of a program before it runs. -/
def programSpace (image : Nat -> UInt8) : Space Access :=
  mapStackPages (List.range 8) (loadAll image (programHeaders image) emptySpace)

/-- The lookup of a name in kernel memory finds the first module with that name. -/
theorem findModule_kernelName
    (owned : Owned root pool machine free) (isCr3 : machine.cr3 = root)
    (kernelName : KernelName root pool machine name bytes)
    (first : hdr.modules.find? (fun ourmod => ourmod.string = bytes) = some ourmod) :
    findModule name hdr.modules (machine.unmapLowerHalf machine.cr3) =
      .ok (some ourmod) (machine.unmapLowerHalf machine.cr3) := by
  subst isCr3
  obtain ⟨unmapped, sameCr3, _⟩ := owned.unmapped rfl
  have isNamed : ourmod.string = bytes := by
    simpa using List.find?_some first
  have terminated := ourmod.terminated
  have reads := (ImageAt.unmapLowerHalf kernelName owned).readsString
    (unmapped.root_eq sameCr3) (Nat.lt_succ_self _) (fun _ _ => rfl)
  have short : bytes.length < 2 ^ 32 := by
    rw [← isNamed]
    omega
  have same : ∀ string, StrcmpEqual bytes string ↔ string = bytes :=
    fun _ => (strcmpEqual_iff_eq short).trans eq_comm
  rw [findModule_eq reads (isNamed ▸ ourmod.noNul)]
  simp only [same, first]

/-- A state in which a program in kernel memory can be executed by a name in kernel
memory: the frames have one role each, CR3 holds no flags, the name and the image lie
outside the frames of the pool, and there are frames for four times as many pages as
the program can have. -/
structure ExecReady
    (name : Nat) (bytes : List UInt8) (beginAddress size : Nat) (image : Nat -> UInt8)
    (root : Nat) (pool : Set Nat) (machine : Machine) (free : List Nat) : Prop where
  owned : Owned root pool machine free
  isCr3 : machine.cr3 = root
  kernelName : KernelName root pool machine name bytes
  imageAt : ImageAt root pool machine beginAddress size image
  enough : EnoughFrames (freeAfterUnmap machine root free) (4 * (elfPhnum image + 8))

/-- Using frames keeps the state ready as long as there are enough left. -/
theorem ExecReady.mono {beginAddress : Nat}
    (ready : ExecReady name bytes beginAddress size image root pool machine free)
    (extend : Extends root pool machine after free rest) (zeroOutside : 0 ∉ pool)
    (many : 4 * (elfPhnum image + 8) ≤ rest.length) :
    ExecReady name bytes beginAddress size image root pool after rest where
  owned := extend.kept
  isCr3 := extend.sameCr3.trans ready.isCr3
  kernelName := ImageAt.mono ready.kernelName extend
  imageAt := ready.imageAt.mono extend
  enough :=
    { noZero := fun member =>
        zeroOutside (extend.kept.unmapLowerHalf.freeInPool 0 member)
      many := by
        rw [List.length_append]
        omega }

/-- `exec_setup` of a module whose segments lie in pages of their own enters user
mode with the address space that its headers ask for. -/
theorem ExecReady.execSetup_image
    (ready : ExecReady name bytes ourmod.beginAddress size image root pool machine free)
    (first : hdr.modules.find? (fun ourmod => ourmod.string = bytes) = some ourmod)
    (elf : ElfImage image size) (pages : SeparatePages (programHeaders image) size) :
    ∃ after rest,
      execSetup hdr name machine = .ok (.entered (usermodeEntry image)) after ∧
      Extends root pool (machine.unmapLowerHalf machine.cr3) after
        (freeAfterUnmap machine root free) rest ∧
      (freeAfterUnmap machine root free).length ≤
        rest.length + 4 * (elfPhnum image + 8) ∧
      lowerSpace after.memory root = programSpace image := by
  obtain ⟨owned, isCr3, kernelName, imageAt, enough⟩ := ready
  subst isCr3
  have finds := findModule_kernelName owned rfl kernelName first
  obtain ⟨unmapped, sameCr3, empty⟩ := owned.unmapped rfl
  obtain ⟨after, rest, loads, extend, count, space⟩ := loadModule_image unmapped sameCr3
    (imageAt.unmapLowerHalf owned) elf pages (by rw [empty]; exact fun _ _ _ => rfl)
    enough.noZero enough.many
  refine ⟨after, rest, execSetup_of_loadModule finds loads, extend, count, ?_⟩
  rw [space, empty]
  rfl

end StarterKernel
