import StarterKernel.Exec.BootImage

/-!
# The boot information in memory

The bootloader passes a list of tags in kernel memory, outside the frames of the pool.
The kernel searches it anew whenever it loads a program or translates an address.  No run
of the page table editors and the programs changes the list, so each search finds the
values that the rest of this development takes for it.
-/

namespace StarterKernel

open StateError
open IntrusiveList (Chain)

variable {root start size offset count tag pointer address name value : Nat}
variable {pool : Set Nat} {free tags : List Nat} {identifier next : Nat -> Nat}
variable {machine after : Machine} {image : Nat -> UInt8} {bytes : List UInt8}
variable {hdr : Stivale2Struct} {ourmod : Stivale2Module} {modules : List Stivale2Module}

/-! ## Words and tags -/

/-- A 64-bit word of kernel memory outside the frames of the pool. -/
def WordAt (root : Nat) (pool : Set Nat) (machine : Machine) (address value : Nat) : Prop :=
  ∃ image, ImageAt root pool machine address 8 image ∧ ByteMemory.load image 0 8 = value

theorem WordAt.lt (word : WordAt root pool machine address value) : address < wordSize := by
  obtain ⟨_, imageAt, _⟩ := word
  have bound := imageAt.bound
  omega

theorem ImageAt.outsidePool (imageAt : ImageAt root pool machine start size image)
    (outside : OutsidePool root pool machine after) :
    ImageAt root pool after start size image :=
  imageAt.congr outside.upper outside.reserved

theorem WordAt.outsidePool (word : WordAt root pool machine address value)
    (outside : OutsidePool root pool machine after) : WordAt root pool after address value := by
  obtain ⟨image, imageAt, holds⟩ := word
  exact ⟨image, imageAt.outsidePool outside, holds⟩

theorem WordAt.loadField {struct : Nat}
    (word : WordAt root pool machine (struct + offset) value) (isRoot : machine.root = root) :
    loadField struct offset 8 machine = .ok value machine := by
  obtain ⟨_, imageAt, rfl⟩ := word
  exact imageAt.loadWord isRoot (Nat.le_refl (0 + 8))

/-- The first word of a structure. -/
theorem WordAt.loadFirst (word : WordAt root pool machine address value)
    (isRoot : machine.root = root) :
    StarterKernel.loadField address 0 8 machine = .ok value machine :=
  WordAt.loadField word isRoot

/-- The tags are linked, and hold their identifiers. -/
structure TagsAt
    (root : Nat) (pool : Set Nat) (machine : Machine) (head : Nat) (tags : List Nat)
    (identifier next : Nat -> Nat) : Prop where
  chain : Chain next 0 head tags
  identifiers : ∀ tag ∈ tags, WordAt root pool machine tag (identifier tag)
  links : ∀ tag ∈ tags, WordAt root pool machine (tag + 8) (next tag)

namespace TagsAt

variable {head : Nat}

theorem outsidePool (tagsAt : TagsAt root pool machine head tags identifier next)
    (outside : OutsidePool root pool machine after) :
    TagsAt root pool after head tags identifier next where
  chain := tagsAt.chain
  identifiers tag member := (tagsAt.identifiers tag member).outsidePool outside
  links tag member := (tagsAt.links tag member).outsidePool outside

theorem tail (tagsAt : TagsAt root pool machine head (tag :: tags) identifier next) :
    TagsAt root pool machine (next tag) tags identifier next where
  chain := tagsAt.chain.2.2
  identifiers _ member := tagsAt.identifiers _ (List.mem_cons_of_mem _ member)
  links _ member := tagsAt.links _ (List.mem_cons_of_mem _ member)

/-- The search finds the first tag with the identifier. -/
theorem findTagLoop_eq (tagsAt : TagsAt root pool machine head tags identifier next)
    (isRoot : machine.root = root) (id : Nat) {fuel : Nat} (enough : tags.length < fuel) :
    findTagLoop id fuel head machine =
      .ok ((tags.find? fun tag => identifier tag = id).getD 0) machine := by
  induction fuel generalizing head tags with
  | zero => omega
  | succ fuel inductionHypothesis =>
      cases tags with
      | nil =>
          rw [findTagLoop, if_pos (IntrusiveList.chain_nil.mp tagsAt.chain)]
          rfl
      | cons tag rest =>
          obtain ⟨rfl, nonNull, _⟩ := tagsAt.chain
          have first := tagsAt.identifiers head List.mem_cons_self
          have link := tagsAt.links head List.mem_cons_self
          rw [findTagLoop, if_neg nonNull, bind_of_ok (first.loadFirst isRoot)]
          by_cases found : identifier head = id
          · rw [if_pos found, List.find?_cons_of_pos (by simpa using found)]
            rfl
          · rw [if_neg found, List.find?_cons_of_neg (by simpa using found),
              bind_of_ok (link.loadField isRoot)]
            exact inductionHypothesis tagsAt.tail (Nat.lt_of_succ_lt_succ enough)

/-- The list is shorter than memory. -/
theorem length_lt (tagsAt : TagsAt root pool machine head tags identifier next) :
    tags.length < wordSize :=
  tagsAt.chain.length_lt (by decide) fun tag member => (tagsAt.identifiers tag member).lt

end TagsAt

/-! ## Modules -/

theorem ImageAt.copyString (imageAt : ImageAt root pool machine start size image)
    (isRoot : machine.root = root) (inside : offset + count ≤ size) :
    copyString ((start + offset) % wordSize) count machine =
      .ok ((List.range count).map fun i => image (offset + i)) machine := by
  have bound := imageAt.bound
  induction count generalizing offset with
  | zero => rfl
  | succ count inductionHypothesis =>
      have noWrap : (start + offset) % wordSize = start + offset :=
        Nat.mod_eq_of_lt (by omega)
      have later := inductionHypothesis (show offset + 1 + count ≤ size by omega)
      rw [← Nat.add_assoc] at later
      rw [StarterKernel.copyString, noWrap, bind_of_ok (imageAt.loadByte isRoot (by omega)),
        bind_of_ok later, List.range_succ_eq_map, List.map_cons, List.map_map]
      simp only [Function.comp_def, Nat.succ_eq_add_one, Nat.add_assoc, Nat.add_comm 1]
      rfl

/-- A `struct stivale2_module` in memory. -/
structure ModuleAt
    (root : Nat) (pool : Set Nat) (machine : Machine) (address : Nat)
    (ourmod : Stivale2Module) : Prop where
  beginWord : WordAt root pool machine address ourmod.beginAddress
  endWord : WordAt root pool machine (address + 8) ourmod.endAddress
  string : ∃ image, ImageAt root pool machine (address + 16) 128 image ∧
    ∀ i ≤ ourmod.string.length, image i = ourmod.string.getD i 0

theorem ModuleAt.outsidePool (moduleAt : ModuleAt root pool machine address ourmod)
    (outside : OutsidePool root pool machine after) :
    ModuleAt root pool after address ourmod where
  beginWord := moduleAt.beginWord.outsidePool outside
  endWord := moduleAt.endWord.outsidePool outside
  string := by
    obtain ⟨image, imageAt, holds⟩ := moduleAt.string
    exact ⟨image, imageAt.outsidePool outside, holds⟩

/-- The copy of a module has its address and the characters of its string. -/
theorem ModuleAt.copyModule (moduleAt : ModuleAt root pool machine address ourmod)
    (isRoot : machine.root = root) :
    ∃ copy, copyModule (address % wordSize) machine = .ok copy machine ∧
      copy.beginAddress = ourmod.beginAddress ∧
      ∀ i ≤ ourmod.string.length,
        moduleString copy.string i = localString ourmod.string i := by
  obtain ⟨image, imageAt, holds⟩ := moduleAt.string
  have string := imageAt.copyString isRoot (Nat.le_refl (0 + 128))
  rw [StarterKernel.copyModule, Nat.mod_eq_of_lt moduleAt.beginWord.lt,
    bind_of_ok (moduleAt.beginWord.loadFirst isRoot),
    bind_of_ok (moduleAt.endWord.loadField isRoot), bind_of_ok string]
  refine ⟨_, rfl, rfl, fun i inside => ?_⟩
  have terminated := ourmod.terminated
  have character : ((List.range 128).map fun i => image (0 + i))[i]? =
      some (ourmod.string.getD i 0) := by
    rw [List.getElem?_map, List.getElem?_range (by omega), Option.map_some, Nat.zero_add,
      holds i inside]
  rw [moduleString, character]
  rfl

/-! ## Comparing with the copied string -/

/-- The length of a string that is read everywhere. -/
theorem strlen_of_localString {str : Nat -> Kernel UInt8} (noNul : 0 ∉ bytes)
    (short : bytes.length < wordSize)
    (same : ∀ i ≤ bytes.length, str i = localString bytes i) :
    strlen str = pure bytes.length := by
  funext machine
  refine strlen_eq (fun i inside => ?_) noNul short
  rw [same i inside]
  rfl

theorem strcmpLoop_congr {s1 s2 other : Nat -> Kernel UInt8} {len1 : Int}
    (same : ∀ i : Nat, (i : Int) < len1 -> s2 i = other i) (fuel i : Nat) :
    strcmpLoop s1 s2 len1 fuel i = strcmpLoop s1 other len1 fuel i := by
  induction fuel generalizing i with
  | zero => rfl
  | succ fuel inductionHypothesis =>
      rw [strcmpLoop, strcmpLoop]
      by_cases more : (i : Int) < len1
      · rw [if_pos more, if_pos more, same i more, inductionHypothesis]
      · rw [if_neg more, if_neg more]

/-- `strcmp` reads its second string up to the terminator only. -/
theorem strcmp_localString {s1 s2 : Nat -> Kernel UInt8} (noNul : 0 ∉ bytes)
    (short : bytes.length < 2 ^ 31)
    (same : ∀ i ≤ bytes.length, s2 i = localString bytes i) :
    strcmp s1 s2 = strcmp s1 (localString bytes) := by
  have fits : bytes.length < wordSize := by
    unfold wordSize
    omega
  rw [strcmp, strcmp, strlen_of_localString noNul fits same,
    strlen_of_localString noNul fits fun _ _ => rfl]
  refine bind_congr fun len1 => ?_
  simp only [pure_bind, toInt32_of_lt short]
  by_cases sameLength : toInt32 len1 = bytes.length
  · rw [if_pos sameLength, if_pos sameLength, sameLength]
    exact strcmpLoop_congr (fun i inside => same i (by omega)) _ _
  · rw [if_neg sameLength, if_neg sameLength]

/-- The array of modules of a tag. -/
structure ModulesAt
    (root : Nat) (pool : Set Nat) (machine : Machine) (tag : Nat)
    (modules : List Stivale2Module) : Prop where
  moduleCount : WordAt root pool machine (tag + 16) modules.length
  element : ∀ i, (inside : i < modules.length) ->
    ModuleAt root pool machine (tag + (24 + 144 * i)) modules[i]
  few : modules.length < 2 ^ 31

theorem ModulesAt.outsidePool (modulesAt : ModulesAt root pool machine tag modules)
    (outside : OutsidePool root pool machine after) :
    ModulesAt root pool after tag modules where
  moduleCount := modulesAt.moduleCount.outsidePool outside
  element i inside := (modulesAt.element i inside).outsidePool outside
  few := modulesAt.few

/-- The loop over the array in memory finds the module that the lookup in the list
finds. -/
theorem ModulesAt.findModuleLoop_eq (modulesAt : ModulesAt root pool machine tag modules)
    (isRoot : machine.root = root) {fuel i : Nat} (inside : i ≤ modules.length)
    (enough : modules.length < fuel + i) :
    (Option.map ModuleCopy.beginAddress <$> findModuleLoop tag name fuel i) machine =
      (Option.map Stivale2Module.beginAddress <$>
        findModule name (modules.drop i)) machine := by
  induction fuel generalizing i with
  | zero => omega
  | succ fuel inductionHypothesis =>
      rw [findModuleLoop, map_bind, bind_of_ok (modulesAt.moduleCount.loadField isRoot)]
      by_cases more : i < modules.length
      · obtain ⟨copy, copies, sameBegin, sameString⟩ :=
          (modulesAt.element i more).copyModule isRoot
        have terminated := modules[i].terminated
        rw [if_pos more, map_bind, bind_of_ok copies,
          strcmp_localString modules[i].noNul (by omega) sameString, map_bind,
          List.drop_eq_getElem_cons more, findModule, map_bind]
        refine bind_congr_of_ok fun ret middle compares => ?_
        obtain rfl := (keeps_strcmp (keeps_pointerString name)
          (keeps_localString modules[i].string)).of_ok compares
        by_cases found : ret = 0
        · rw [if_pos found, if_pos found, map_pure, map_pure, Option.map_some, Option.map_some,
            sameBegin]
        · rw [if_neg found, if_neg found]
          exact inductionHypothesis more (by omega)
      · rw [if_neg more, List.drop_eq_nil_of_le (by omega)]
        rfl

/-- How `exec_setup` goes on with the address of the module that its lookup finds. -/
def execFound : Option Nat -> Kernel ExecOutcome
  | none => do
      modify fun machine =>
        machine.kprintf "An error occured when trying to find the module. \n"
      return .notFound
  | some beginAddress => return .entered (← loadModule beginAddress)

/-- Lookups that find the same addresses lead to the same result. -/
theorem execFound_congr {lookup : Kernel (Option ModuleCopy)}
    (same : (Option.map ModuleCopy.beginAddress <$> lookup) machine =
      (Option.map Stivale2Module.beginAddress <$> findModule name modules) machine) :
    (lookup >>= fun found => execFound (found.map ModuleCopy.beginAddress)) machine =
      (findModule name modules >>= fun found =>
        execFound (found.map Stivale2Module.beginAddress)) machine :=
  bind_congr_of_map same execFound

theorem execSetup_eq_execFound :
    execSetup hdr name = (do
      modify fun machine => machine.unmapLowerHalf machine.readCr3
      let found ← findModule name hdr.modules
      execFound (found.map Stivale2Module.beginAddress)) := by
  rw [execSetup]
  refine bind_congr fun _ => bind_congr fun found => ?_
  cases found <;> rfl

theorem execSetupAt_eq_execFound :
    execSetupAt pointer name = (do
      modify fun machine => machine.unmapLowerHalf machine.readCr3
      let moduleslist ← findTag pointer modulesId
      let found ← findModuleLoop moduleslist name (2 ^ 31) 0
      execFound (found.map ModuleCopy.beginAddress)) := by
  rw [execSetupAt]
  refine bind_congr fun _ => bind_congr fun moduleslist => bind_congr fun found => ?_
  cases found <;> rfl

/-! ## The structure of the bootloader -/

/-- What the bootloader guarantees of the structure at `pointer`: its list of tags is in
kernel memory outside the frames of the pool, and the first tags with the identifiers the
kernel asks for hold the values of `hdr`. -/
structure BootInfo
    (root : Nat) (pool : Set Nat) (machine : Machine) (pointer : Nat) (hdr : Stivale2Struct)
    (tags : List Nat) (identifier next : Nat -> Nat) : Prop where
  list : ∃ head, WordAt root pool machine (pointer + 128) head ∧
    TagsAt root pool machine head tags identifier next
  hhdm : ∃ tag, tags.find? (fun tag => identifier tag = hhdmId) = some tag ∧
    WordAt root pool machine (tag + 16) hdr.hhdm
  memmap : tags.find? (fun tag => identifier tag = memmapId) = some hdr.memmap
  modules : ∃ tag, tags.find? (fun tag => identifier tag = modulesId) = some tag ∧
    ModulesAt root pool machine tag hdr.modules

namespace BootInfo

/-- Changes within the pool leave the structure alone. -/
theorem outsidePool (info : BootInfo root pool machine pointer hdr tags identifier next)
    (outside : OutsidePool root pool machine after) :
    BootInfo root pool after pointer hdr tags identifier next where
  list := by
    obtain ⟨head, word, tagsAt⟩ := info.list
    exact ⟨head, word.outsidePool outside, tagsAt.outsidePool outside⟩
  hhdm := by
    obtain ⟨tag, found, word⟩ := info.hhdm
    exact ⟨tag, found, word.outsidePool outside⟩
  memmap := info.memmap
  modules := by
    obtain ⟨tag, found, modulesAt⟩ := info.modules
    exact ⟨tag, found, modulesAt.outsidePool outside⟩

theorem findTag_eq (info : BootInfo root pool machine pointer hdr tags identifier next)
    (isRoot : machine.root = root) (id : Nat) :
    findTag pointer id machine =
      .ok ((tags.find? fun tag => identifier tag = id).getD 0) machine := by
  obtain ⟨head, word, tagsAt⟩ := info.list
  rw [findTag, bind_of_ok (word.loadField isRoot)]
  exact tagsAt.findTagLoop_eq isRoot id tagsAt.length_lt

theorem getHhdm_eq (info : BootInfo root pool machine pointer hdr tags identifier next)
    (isRoot : machine.root = root) : getHhdm pointer machine = .ok hdr.hhdm machine := by
  obtain ⟨tag, found, word⟩ := info.hhdm
  have finds := info.findTag_eq isRoot hhdmId
  rw [found] at finds
  rw [getHhdm, bind_of_ok finds]
  exact word.loadField isRoot

/-- `mem_init` reads the memory map that the list of tags leads to. -/
theorem memInitAt_eq {start : Machine}
    (info : BootInfo root pool machine pointer hdr tags identifier next)
    (isRoot : machine.root = root) (init : machine.memInit hdr = some start) :
    memInitAt pointer machine = .ok ⟨⟩ start := by
  have based : BootInfo root pool { machine with hhdmBase := hdr.hhdm } pointer hdr tags
      identifier next :=
    info.outsidePool (.of_treeWalk rfl rfl (fun _ => rfl) fun _ _ _ => AgreeOn.refl _ _)
  have finds := based.findTag_eq isRoot memmapId
  rw [info.memmap] at finds
  rw [memInitAt, bind_of_ok (info.getHhdm_eq isRoot), bind_of_ok (modify_apply _ _),
    bind_of_ok finds, bind_of_ok (get_apply _)]
  rw [Machine.memInit] at init
  dsimp only [Option.getD_some] at init ⊢
  cases loop : ({ machine with hhdmBase := hdr.hhdm } : Machine).memInitLoop hdr.memmap
      wordSize 0 with
  | none =>
      rw [loop] at init
      cases init
  | some looped =>
      rw [loop] at init
      cases init
      rfl

/-- `exec_setup` finds the module in the array that the list of tags leads to. -/
theorem execSetupAt_eq (info : BootInfo root pool machine pointer hdr tags identifier next)
    (owned : Owned root pool machine free) (isCr3 : machine.cr3 = root) (name : Nat) :
    execSetupAt pointer name machine = execSetup hdr name machine := by
  subst isCr3
  obtain ⟨unmapped, sameCr3, _⟩ := owned.unmapped rfl
  have isRoot := unmapped.root_eq sameCr3
  have kept := info.outsidePool (owned.step_outsidePool (.unmapLowerHalf machine))
  obtain ⟨tag, found, modulesAt⟩ := kept.modules
  have finds := kept.findTag_eq isRoot modulesId
  rw [found] at finds
  rw [execSetup_eq_execFound, execSetupAt_eq_execFound, bind_of_ok (modify_apply _ _),
    bind_of_ok (modify_apply _ _)]
  change (findTag pointer modulesId >>= _) (machine.unmapLowerHalf machine.cr3) = _
  rw [bind_of_ok finds]
  exact execFound_congr (modulesAt.findModuleLoop_eq isRoot (Nat.zero_le _) modulesAt.few)

end BootInfo

/-- After `mem_init`, and in every state of every run of the page table editors and the
programs, the list of tags in memory gives the kernel what the rest of this development
takes as a value: each search for a tag ends with the first one, `get_hhdm` reads the
address of the direct map, and `exec_setup` does what it does for the list of modules. -/
theorem boot_info_stays
    (handover : Handover hdr tag machine)
    (info : BootInfo machine.cr3 (bootPool tag machine) machine pointer hdr tags identifier
      next) :
    ∃ start, memInitAt pointer machine = .ok ⟨⟩ start ∧ machine.memInit hdr = some start ∧
      ∀ later, Run machine.cr3 start later ->
        (∀ id, findTag pointer id later =
          .ok ((tags.find? fun tag => identifier tag = id).getD 0) later) ∧
        getHhdm pointer later = .ok hdr.hhdm later ∧
        ∀ name, execSetupAt pointer name later = execSetup hdr name later := by
  obtain ⟨start, free, init, initialized⟩ := handover.memInit_initialized
  refine ⟨start, info.memInitAt_eq handover.rootFrame.root_eq init, init, fun later run => ?_⟩
  have outside := initialized.outsidePool.trans (initialized.owned.run_outsidePool run)
  obtain ⟨_, owned⟩ := initialized.owned.run run
  have isRoot := owned.root_eq outside.sameCr3
  have kept := info.outsidePool outside
  exact ⟨kept.findTag_eq isRoot, kept.getHhdm_eq isRoot,
    kept.execSetupAt_eq owned outside.sameCr3⟩

/-! ## The boot information of the boot machine -/

/-- A word that the bootloader left behind its tables. -/
theorem wordAt_bootMachine {first : Nat} (image : List UInt8) (above : 0x4000 ≤ first)
    (below : first + 8 ≤ 0x100000) (holds : ByteMemory.load (bootContent image) first 8 = value) :
    WordAt bootRoot (bootPool bootTag (bootMachine (bootContent image)))
      (bootMachine (bootContent image)) (bootHhdmBase + first) value := by
  refine ⟨_, directImageAt image above below, ?_⟩
  rw [ByteMemory.load_offset]
  exact holds

/-- A structure at `0x10000` with a tag for the direct map and one for a module. -/
def bootInfoBytes : List UInt8 :=
  List.replicate 128 0 ++ wordBytes 8 (bootHhdmBase + 0x10088) ++
    (wordBytes 8 hhdmId ++ wordBytes 8 (bootHhdmBase + 0x100A0) ++ wordBytes 8 bootHhdmBase) ++
    (wordBytes 8 modulesId ++ wordBytes 8 (bootHhdmBase + bootTag) ++ wordBytes 8 1 ++
      wordBytes 8 (bootHhdmBase + 0x10148) ++ wordBytes 8 (bootHhdmBase + 0x10148) ++
      initName ++ List.replicate 124 0)

/-- The tags of its list.  The last one is the memory map. -/
def bootTags : List Nat := [bootHhdmBase + 0x10088, bootHhdmBase + 0x100A0, bootHhdmBase + 0x8000]

def bootIdentifier (tag : Nat) : Nat :=
  if tag = bootHhdmBase + 0x10088 then hhdmId
  else if tag = bootHhdmBase + 0x100A0 then modulesId
  else memmapId

def bootNext (tag : Nat) : Nat :=
  if tag = bootHhdmBase + 0x10088 then bootHhdmBase + 0x100A0
  else if tag = bootHhdmBase + 0x100A0 then bootHhdmBase + 0x8000
  else 0

/-- Its module is empty. -/
def bootModules : List Stivale2Module :=
  [initModule (bootHhdmBase + 0x10148) (bootHhdmBase + 0x10148)]

theorem tagsAt_bootMachine :
    TagsAt bootRoot (bootPool bootTag (bootMachine (bootContent bootInfoBytes)))
      (bootMachine (bootContent bootInfoBytes)) (bootHhdmBase + 0x10088) bootTags bootIdentifier
      bootNext where
  chain := ⟨rfl, by decide, rfl, by decide, rfl, by decide, rfl⟩
  identifiers tag member := by
    rcases List.mem_cons.mp member with rfl | member
    · exact wordAt_bootMachine _ (by decide) (by decide) (by decide +kernel)
    rcases List.mem_cons.mp member with rfl | member
    · exact wordAt_bootMachine _ (by decide) (by decide) (by decide +kernel)
    · obtain rfl := List.mem_singleton.mp member
      exact wordAt_bootMachine _ (by decide) (by decide) (by decide +kernel)
  links tag member := by
    rcases List.mem_cons.mp member with rfl | member
    · exact @wordAt_bootMachine _ 0x10090 _ (by decide) (by decide) (by decide +kernel)
    rcases List.mem_cons.mp member with rfl | member
    · exact @wordAt_bootMachine _ 0x100A8 _ (by decide) (by decide) (by decide +kernel)
    · obtain rfl := List.mem_singleton.mp member
      exact @wordAt_bootMachine _ 0x8008 _ (by decide) (by decide) (by decide +kernel)

theorem moduleAt_bootMachine :
    ModuleAt bootRoot (bootPool bootTag (bootMachine (bootContent bootInfoBytes)))
      (bootMachine (bootContent bootInfoBytes)) (bootHhdmBase + 0x100B8)
      (initModule (bootHhdmBase + 0x10148) (bootHhdmBase + 0x10148)) where
  beginWord := wordAt_bootMachine _ (by decide) (by decide) (by decide +kernel)
  endWord := @wordAt_bootMachine _ 0x100C0 _ (by decide) (by decide) (by decide +kernel)
  string := by
    refine ⟨_, @directImageAt bootInfoBytes 0x100C8 128 (by decide) (by decide), ?_⟩
    have length : initName.length = 4 := by decide
    rw [show (initModule (bootHhdmBase + 0x10148) (bootHhdmBase + 0x10148)).string = initName
      from rfl, length]
    decide +kernel

theorem bootInfo_bootMachine :
    BootInfo bootRoot (bootPool bootTag (bootMachine (bootContent bootInfoBytes)))
      (bootMachine (bootContent bootInfoBytes)) bootImageBase (bootHdr bootModules) bootTags
      bootIdentifier bootNext where
  list := ⟨_, @wordAt_bootMachine _ 0x10080 _ (by decide) (by decide) (by decide +kernel),
    tagsAt_bootMachine⟩
  hhdm := ⟨_, rfl, @wordAt_bootMachine _ 0x10098 _ (by decide) (by decide) (by decide +kernel)⟩
  memmap := rfl
  modules :=
    ⟨_, rfl, @wordAt_bootMachine _ 0x100B0 _ (by decide) (by decide) (by decide +kernel), by
      rintro i inside
      obtain rfl : i = 0 := Nat.lt_one_iff.mp inside
      exact moduleAt_bootMachine, by decide⟩

/-- The kernel finds its direct map and its module in what the bootloader left. -/
theorem boot_info_stays_bootMachine :
    ∃ start, memInitAt bootImageBase (bootMachine (bootContent bootInfoBytes)) = .ok ⟨⟩ start ∧
      findTag bootImageBase memmapId start = .ok (bootHhdmBase + bootTag) start ∧
      getHhdm bootImageBase start = .ok bootHhdmBase start ∧
      ∀ name, execSetupAt bootImageBase name start =
        execSetup (bootHdr bootModules) name start := by
  obtain ⟨start, init, _, reads⟩ := boot_info_stays (handover_bootMachine bootInfoBytes bootModules)
    bootInfo_bootMachine
  obtain ⟨finds, hhdm, lookup⟩ := reads start .refl
  exact ⟨start, init, finds memmapId, hhdm, lookup⟩

end StarterKernel
