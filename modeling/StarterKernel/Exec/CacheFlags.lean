import StarterKernel.Exec.Untouched
import StarterKernel.Exec.BootImage
import StarterKernel.Paging.LargePages

/-!
# The flags of CR3

`exec_setup` hands CR3 to `vm_map` without its low bits, and to `unmap_lower_half` and
`vm_protect` as it is.  So a flag in CR3 moves the table these two work on, and what
`exec_setup` changes depends on the flags.
-/

namespace StarterKernel

open Kernel StateError

/-! ## The root tables of the editors -/

/-- The root tables that `exec_setup` hands to `unmap_lower_half`, to `vm_map` for the
segments, to `vm_protect`, and to `vm_map` for the user stack. -/
structure EditorRoots where
  unmap : Nat
  segments : Nat
  protect : Nat
  stack : Nat

/-- They come from CR3, with or without its flags. -/
def editorRoots (cr3 : Nat) : EditorRoots where
  unmap := cr3
  segments := cr3 &&& cr3Mask
  protect := cr3
  stack := cr3 &&& cr3Mask

/-- All editors work on one table. -/
structure OneRoot (roots : EditorRoots) : Prop where
  segments : roots.segments = roots.unmap
  protect : roots.protect = roots.unmap
  stack : roots.stack = roots.unmap

section Loader

variable (roots : EditorRoots)

/-- `loadSegment` with given root tables. -/
def loadSegmentOn (header phEntry : Nat) : Kernel Unit := do
  let type ← loadField phEntry 0 4
  if type = ptLoad then
    let filesz ← loadField phEntry 32 8
    if 0 < filesz then
      let vaddr ← loadField phEntry 16 8
      let _ ← modifyGet fun machine => machine.vmMap roots.segments vaddr true true false
      let offset ← loadField phEntry 8 8
      let size ← loadField phEntry (if filesz = 0 then 32 else 40) 8
      memcpy vaddr ((header + offset) % wordSize) size
      let flags ← loadField phEntry 4 4
      let executable := decide (0 < flags &&& 1)
      let writable := decide (0 < flags &&& 2)
      let _ ← modifyGet fun machine =>
        machine.vmProtect roots.protect vaddr true writable executable

/-- The loop over the program headers with given root tables. -/
def programHeaderLoopOn (header : Nat) : (fuel i phEntry : Nat) -> Kernel Unit
  | 0, _, _ => return ()
  | fuel + 1, i, phEntry => do
      let phnum ← loadField header 56 2
      if i < phnum then
        loadSegmentOn roots header phEntry
        programHeaderLoopOn header fuel (i + 1) ((phEntry + 56) % wordSize)

/-- Mapping the user stack under a given root table. -/
def mapUserStackOn : Kernel Unit :=
  (List.range (userStackSize / 0x1000)).forM fun page => do
    let _ ← modifyGet fun machine =>
      machine.vmMap roots.stack (userStack + 0x1000 * page) true true false

/-- Loading a module with given root tables. -/
def loadModuleOn (header : Nat) : Kernel UsermodeEntry := do
  let phoff ← loadField header 32 8
  programHeaderLoopOn roots header (2 ^ 16) 0 ((header + phoff) % wordSize)
  mapUserStackOn roots
  let entry ← loadField header 24 8
  return {
    dataSel := userDataSelector ||| 0x3
    stackPtr := userStack + userStackSize - 8
    codeSel := userCodeSelector ||| 0x3
    instructionPtr := entry }

/-- `exec_setup` with given root tables. -/
def execSetupOn (hdr : Stivale2Struct) (modulename : Nat) : Kernel ExecOutcome := do
  modify fun machine => machine.unmapLowerHalf roots.unmap
  match ← findModule modulename hdr.modules with
  | none =>
      modify fun machine =>
        machine.kprintf "An error occured when trying to find the module. \n"
      return .notFound
  | some ourmod => return .entered (← loadModuleOn roots ourmod.beginAddress)

end Loader

variable {cr3 header phEntry fuel i name : Nat} {machine first second : Machine}
variable {hdr : Stivale2Struct}

/-- The editors leave CR3 alone. -/
theorem outsideEditors_cr3 : Machine.OutsideEditors Machine.cr3 := fun _ _ _ _ _ => rfl

theorem loadSegment_on : SameWhere Machine.cr3 cr3
    (loadSegment header (cr3 &&& cr3Mask) phEntry)
    (loadSegmentOn (editorRoots cr3) header phEntry) := by
  have field (struct offset count : Nat) :
      KeepsPart Machine.cr3 (loadField struct offset count) :=
    KeepsPart.of_keeps (keeps_loadField _ _ _)
  have mapped (vaddr : Nat) : KeepsPart Machine.cr3
      (modifyGet fun machine =>
        machine.vmMap (cr3 &&& cr3Mask) vaddr true true false : Kernel Bool) :=
    KeepsPart.modifyGet fun machine => outsideEditors_cr3.vmMap machine
  have permitted (vaddr : Nat) (writable executable : Bool) :
      SameWhere Machine.cr3 cr3
        (modifyGet fun machine =>
          machine.vmProtect machine.readCr3 vaddr true writable executable : Kernel Bool)
        (modifyGet fun machine =>
          machine.vmProtect (editorRoots cr3).protect vaddr true writable executable) := by
    intro machine same
    rw [modifyGet_apply, modifyGet_apply, Machine.readCr3, same]
    rfl
  refine SameWhere.refl.bind (field _ _ _) fun type => .ite ?_ .refl
  refine SameWhere.refl.bind (field _ _ _) fun filesz => .ite ?_ .refl
  refine SameWhere.refl.bind (field _ _ _) fun vaddr => ?_
  refine SameWhere.refl.bind (mapped vaddr) fun _ => ?_
  refine SameWhere.refl.bind (field _ _ _) fun offset => ?_
  refine SameWhere.refl.bind (field _ _ _) fun size => ?_
  refine SameWhere.refl.bind (keepsPart_memcpyLoop outsideEditors_cr3 _ _ _ _ _) fun _ => ?_
  refine SameWhere.refl.bind (field _ _ _) fun flags => ?_
  exact (permitted _ _ _).bind (KeepsPart.modifyGet fun machine =>
    outsideEditors_cr3.vmProtect machine) fun _ => .refl

theorem programHeaderLoop_on : SameWhere Machine.cr3 cr3
    (programHeaderLoop header (cr3 &&& cr3Mask) fuel i phEntry)
    (programHeaderLoopOn (editorRoots cr3) header fuel i phEntry) := by
  induction fuel generalizing i phEntry with
  | zero => exact .refl
  | succ fuel inductionHypothesis =>
      rw [programHeaderLoop, programHeaderLoopOn]
      refine SameWhere.refl.bind (KeepsPart.of_keeps (keeps_loadField _ _ _))
        fun phnum => .ite ?_ .refl
      exact loadSegment_on.bind (keepsPart_loadSegment outsideEditors_cr3 _ _ _)
        fun _ => inductionHypothesis

theorem mapUserStack_on :
    SameWhere Machine.cr3 cr3 mapUserStack (mapUserStackOn (editorRoots cr3)) := by
  have mapped (page : Nat) : SameWhere Machine.cr3 cr3
      (modifyGet fun machine =>
        machine.vmMap (machine.readCr3 &&& cr3Mask) (userStack + 0x1000 * page) true true
          false : Kernel Bool)
      (modifyGet fun machine =>
        machine.vmMap (editorRoots cr3).stack (userStack + 0x1000 * page) true true
          false) := by
    intro machine same
    rw [modifyGet_apply, modifyGet_apply, Machine.readCr3, same]
    rfl
  have keeps (page : Nat) : KeepsPart Machine.cr3
      (modifyGet fun machine =>
        machine.vmMap (machine.readCr3 &&& cr3Mask) (userStack + 0x1000 * page) true true
          false : Kernel Bool) :=
    KeepsPart.modifyGet fun machine => outsideEditors_cr3.vmMap machine
  exact SameWhere.forM (fun page => (mapped page).bind (keeps page) fun _ => .refl)
    (fun page => (keeps page).bind fun _ => KeepsPart.of_keeps (Keeps.pure _)) _

theorem loadModule_on : SameWhere Machine.cr3 cr3
    (loadModule header) (loadModuleOn (editorRoots cr3) header) := by
  rw [loadModule, loadModuleOn]
  refine SameWhere.refl.bind (KeepsPart.of_keeps (keeps_loadField _ _ _)) fun phoff => ?_
  intro machine same
  rw [bind_of_ok (get_apply machine), Machine.readCr3, same]
  refine SameWhere.bind programHeaderLoop_on
    (keepsPart_programHeaderLoop outsideEditors_cr3 _ _ _ _ _) (fun _ => ?_) machine same
  exact mapUserStack_on.bind (keepsPart_mapUserStack outsideEditors_cr3) fun _ => .refl

/-- `exec_setup` hands its editors the root tables that CR3 gives. -/
theorem execSetup_on : SameWhere Machine.cr3 cr3
    (execSetup hdr name) (execSetupOn (editorRoots cr3) hdr name) := by
  have unmapped : SameWhere Machine.cr3 cr3
      (modify fun machine => machine.unmapLowerHalf machine.readCr3 : Kernel Unit)
      (modify fun machine => machine.unmapLowerHalf (editorRoots cr3).unmap) := by
    intro machine same
    rw [modify_apply, modify_apply, Machine.readCr3, same]
    rfl
  rw [execSetup, execSetupOn]
  refine unmapped.bind (KeepsPart.modify fun machine =>
    outsideEditors_cr3.unmapLowerHalf machine _) fun _ => ?_
  refine SameWhere.refl.bind (KeepsPart.of_keeps (keeps_findModule _ _)) fun found => ?_
  cases found with
  | none => exact .refl
  | some ourmod =>
      exact loadModule_on.bind (keepsPart_loadModule outsideEditors_cr3 _) fun _ => .refl

/-! ## What the flags change -/

/-- `exec_setup` makes the same changes to memory and to the freelist in both states. -/
structure SameChanges (hdr : Stivale2Struct) (name : Nat) (first second : Machine) :
    Prop where
  memory : (finalState (execSetup hdr name first)).memory =
    (finalState (execSetup hdr name second)).memory
  freelist : (finalState (execSetup hdr name first)).freelist =
    (finalState (execSetup hdr name second)).freelist
  counter : (finalState (execSetup hdr name first)).freePageCounter =
    (finalState (execSetup hdr name second)).freePageCounter

theorem oneRoot_iff (word : cr3 < wordSize) :
    OneRoot (editorRoots cr3) ↔ cr3 % 4096 = 0 := by
  have masked := and_cr3Mask word
  constructor
  · intro oneRoot
    have same : cr3 &&& cr3Mask = cr3 := oneRoot.segments
    omega
  · intro clear
    have same : cr3 &&& cr3Mask = cr3 := by omega
    exact ⟨same, rfl, same⟩

/-! ### What `unmap_lower_half` frees -/

section Counter

open Machine

variable {table : Nat} {indices : List Nat}

/-- Between `least` and `most` pages are freed. -/
def Frees (least most : Nat) (machine after : Machine) : Prop :=
  ∃ freed, least ≤ freed ∧ freed ≤ most ∧
    after.freePageCounter = machine.freePageCounter + .ofNat freed

namespace Frees

variable {least most fewer more : Nat} {after later : Machine}

theorem refl (machine : Machine) : Frees 0 most machine machine :=
  ⟨0, le_refl _, Nat.zero_le _, (Int32.add_zero _).symm⟩

theorem trans (first : Frees least most machine after) (second : Frees fewer more after later) :
    Frees (least + fewer) (most + more) machine later := by
  obtain ⟨freed, above, below, counter⟩ := first
  obtain ⟨others, aboveOthers, belowOthers, counterLater⟩ := second
  refine ⟨freed + others, by omega, by omega, ?_⟩
  rw [counterLater, counter, Int32.ofNat_add, Int32.add_assoc]

theorem pmemFree (frees : Frees least most machine after) (frame : Nat) :
    Frees (least + 1) (most + 1) machine (after.pmemFree frame) :=
  frees.trans ⟨1, le_refl _, le_refl _, rfl⟩

theorem least_zero (frees : Frees least most machine after) : Frees 0 most machine after := by
  obtain ⟨freed, _, below, counter⟩ := frees
  exact ⟨freed, Nat.zero_le _, below, counter⟩

theorem foldl {body : Machine -> Nat -> Machine}
    (frees : ∀ machine index, Frees 0 most machine (body machine index)) :
    Frees 0 (most * indices.length) machine (indices.foldl body machine) := by
  induction indices generalizing machine with
  | nil => exact refl machine
  | cons index indices inductionHypothesis =>
      rw [List.length_cons, Nat.mul_succ, Nat.add_comm]
      exact (frees machine index).trans inductionHypothesis

theorem foldl_range {body : Machine -> Nat -> Machine} (count : Nat)
    (frees : ∀ machine index, Frees 0 most machine (body machine index)) :
    Frees 0 (most * count) machine ((List.range count).foldl body machine) := by
  have loop := @foldl machine (List.range count) most body frees
  rwa [List.length_range] at loop

/-- The counter cannot wrap so far. -/
theorem counter_ne (frees : Frees 1 most machine after) (few : most < 2 ^ 32) :
    after.freePageCounter ≠ machine.freePageCounter := by
  obtain ⟨freed, above, below, counter⟩ := frees
  intro same
  rw [counter] at same
  have zero : (Int32.toUInt32 0).toNat = 0 := rfl
  have wraps := congrArg (fun word : Int32 => word.toUInt32.toNat) (Int32.add_eq_left.mp same)
  rw [Int32.toUInt32_ofNat', UInt32.toNat_ofNat', zero] at wraps
  omega

end Frees

theorem unmapL2Entry_frees (table : Nat) (machine : Machine) (index : Nat) :
    Frees 0 1 machine (unmapL2Entry table machine index) := by
  unfold unmapL2Entry
  dsimp only
  split
  next => exact ((Frees.refl machine).pmemFree _).least_zero
  next => exact .refl machine

theorem unmapL3Entry_frees (table : Nat) (machine : Machine) (index : Nat) :
    Frees 0 513 machine (unmapL3Entry table machine index) := by
  unfold unmapL3Entry
  dsimp only
  split
  next => exact ((Frees.foldl_range 512 (unmapL2Entry_frees _)).pmemFree _).least_zero
  next => exact .refl machine

/-- The most pages that are freed for an entry of level 4. -/
def l4Frees : Nat := 513 * 512 + 1

/-- For a present entry of level 4 at least one page is freed. -/
theorem unmapL4Entry_frees {index : Nat}
    (present : (machine.loadEntry (table + 8 * index)).present = true) :
    Frees 1 l4Frees machine (unmapL4Entry table machine index) := by
  unfold unmapL4Entry
  rw [if_pos present]
  have cleared : Frees 0 0 machine (machine.modifyEntry (table + 8 * index)
      fun entry => { entry with present := false }) :=
    ⟨0, le_refl _, le_refl _, (Int32.add_zero _).symm⟩
  have loop (l3Table : Nat) :=
    cleared.trans (Frees.foldl_range 512 (unmapL3Entry_frees l3Table))
  simp only [Nat.zero_add] at loop
  exact (loop _).pmemFree _

theorem unmapL4Entry_absent {index : Nat}
    (absent : (machine.loadEntry (table + 8 * index)).present = false) :
    unmapL4Entry table machine index = machine := by
  unfold unmapL4Entry
  exact if_neg (by simp [absent])

theorem unmapL4Entry_frees_most (table : Nat) (machine : Machine) (index : Nat) :
    Frees 0 l4Frees machine (unmapL4Entry table machine index) := by
  cases present : (machine.loadEntry (table + 8 * index)).present with
  | true => exact (unmapL4Entry_frees present).least_zero
  | false =>
      rw [unmapL4Entry_absent present]
      exact .refl machine

theorem foldl_unmapL4Entry_absent
    (absent : ∀ index ∈ indices, (machine.loadEntry (table + 8 * index)).present = false) :
    indices.foldl (unmapL4Entry table) machine = machine := by
  induction indices with
  | nil => rfl
  | cons index indices inductionHypothesis =>
      rw [List.foldl_cons, unmapL4Entry_absent (absent index (List.mem_cons_self ..))]
      exact inductionHypothesis fun other member => absent other (List.mem_cons_of_mem _ member)

theorem foldl_unmapL4Entry_frees {index : Nat} (member : index ∈ indices)
    (present : (machine.loadEntry (table + 8 * index)).present = true) :
    Frees 1 (l4Frees * indices.length) machine (indices.foldl (unmapL4Entry table) machine) := by
  induction indices with
  | nil => cases member
  | cons first indices inductionHypothesis =>
      rw [List.foldl_cons, List.length_cons, Nat.mul_succ, Nat.add_comm]
      cases here : (machine.loadEntry (table + 8 * first)).present with
      | true => exact (unmapL4Entry_frees here).trans (Frees.foldl (unmapL4Entry_frees_most _))
      | false =>
          rcases List.mem_cons.mp member with rfl | later
          · rw [present] at here
            cases here
          · rw [unmapL4Entry_absent here, Nat.add_comm]
            exact (inductionHypothesis later).trans (.refl _)

end Counter

/-- The word that a walk from `root` on takes for an entry of level 4. -/
def rootEntry (memory : Nat -> UInt8) (root index : Nat) : PtEntry :=
  .decode (ByteMemory.load memory (root + 8 * index) 8)

theorem loadEntry_root {root index : Nat} (bound : root + 8 * index < wordSize) :
    machine.loadEntry (machine.ptov root + 8 * index) = rootEntry machine.memory root index := by
  rw [Machine.loadEntry, Machine.loadDirect, Machine.physicalOf_ptov_add _ bound]
  rfl

/-- `unmap_lower_half` leaves the machine alone where it sees no present entry. -/
theorem unmapLowerHalf_absent {root : Nat} (bound : root + 2048 ≤ wordSize)
    (absent : ∀ index < 256, (rootEntry machine.memory root index).present = false) :
    machine.unmapLowerHalf root = machine := by
  have same := @foldl_unmapL4Entry_absent machine (machine.ptov root) (List.range 256)
    fun index member => by
      have small := List.mem_range.mp member
      rw [loadEntry_root (by omega)]
      exact absent index small
  rw [Machine.unmapLowerHalf, same, Machine.writeCr3_readCr3]

/-- It frees a page where it sees one. -/
theorem unmapLowerHalf_frees {root index : Nat} (bound : root + 2048 ≤ wordSize)
    (small : index < 256) (present : (rootEntry machine.memory root index).present = true) :
    (machine.unmapLowerHalf root).freePageCounter ≠ machine.freePageCounter := by
  rw [Machine.unmapLowerHalf, Machine.writeCr3_readCr3]
  refine (foldl_unmapL4Entry_frees (List.mem_range.mpr small) ?_).counter_ne ?_
  · rw [loadEntry_root (by omega)]
    exact present
  · rw [List.length_range]
    decide

/-- Without modules `exec_setup` unmaps the lower half and prints a message. -/
theorem execSetup_noModules (none : hdr.modules = []) (name : Nat) (machine : Machine) :
    finalState (execSetup hdr name machine) =
      (machine.unmapLowerHalf machine.readCr3).kprintf
        "An error occured when trying to find the module. \n" := by
  rw [execSetup, none, bind_of_ok (modify_apply _ machine)]
  rfl

/-! ### Two states that differ in the flags -/

/-- The machine with a root table and flags in CR3. -/
def Machine.withCr3 (machine : Machine) (root flags : Nat) : Machine :=
  { machine with cr3 := root + flags }

variable {root left right small large : Nat}

/-- `unmap_lower_half` distinguishes the states, so `exec_setup` does. -/
theorem execSetup_counter_ne {idle busy : Nat} (none : hdr.modules = [])
    (bound : root + 4096 ≤ 2 ^ 52) (busyFlags : busy < 4096) (idleFlags : idle < 4096)
    (absent : ∀ index < 256, (rootEntry machine.memory (root + idle) index).present = false)
    {index : Nat} (inHalf : index < 256)
    (present : (rootEntry machine.memory (root + busy) index).present = true) :
    (finalState (execSetup hdr name (machine.withCr3 root busy))).freePageCounter ≠
      (finalState (execSetup hdr name (machine.withCr3 root idle))).freePageCounter := by
  have word : 2 ^ 52 + 2048 ≤ wordSize := by decide
  have frees : ((machine.withCr3 root busy).unmapLowerHalf (root + busy)).freePageCounter ≠
      (machine.withCr3 root busy).freePageCounter :=
    unmapLowerHalf_frees (by omega) inHalf present
  have same : (machine.withCr3 root idle).unmapLowerHalf (root + idle) =
      machine.withCr3 root idle :=
    unmapLowerHalf_absent (by omega) absent
  have readCr3 (flags : Nat) : (machine.withCr3 root flags).readCr3 = root + flags := rfl
  rw [execSetup_noModules none, execSetup_noModules none, Machine.kprintf_freePageCounter,
    Machine.kprintf_freePageCounter, readCr3, readCr3, same]
  exact frees

/-- Memory with one byte that is not zero. -/
def markedMemory (mark position : Nat) : UInt8 := if position = mark then 1 else 0

theorem rootEntry_mark (mark : Nat) :
    (rootEntry (markedMemory mark) mark 0).present = true := by
  have rest : ByteMemory.load (markedMemory mark) (mark + 1) 7 = 0 := by
    apply ByteMemory.load_eq_zero
    intro offset _
    exact if_neg (by omega)
  have word : ByteMemory.load (markedMemory mark) mark 8 = 1 := by
    rw [ByteMemory.load_succ, rest, markedMemory, if_pos rfl]
    rfl
  rw [rootEntry, Nat.mul_zero, Nat.add_zero, word]
  decide

theorem rootEntry_above {mark : Nat} (above : mark < root) (index : Nat) :
    (rootEntry (markedMemory mark) root index).present = false := by
  have word : ByteMemory.load (markedMemory mark) (root + 8 * index) 8 = 0 := by
    apply ByteMemory.load_eq_zero
    intro offset _
    exact if_neg (by omega)
  rw [rootEntry, word]
  exact decode_zero_present

/-- The machine with one byte that is not zero in memory. -/
def markedMachine (mark : Nat) : Machine where
  memory := markedMemory mark
  cr3 := 0
  writeProtect := true
  hhdmBase := bootHhdmBase
  freelist := 0
  freePageCounter := 0
  terminal := []
  ring := .initial
  callerAccesses := []

/-- Different flags are distinguished by some state. -/
theorem flags_distinguished (order : small < large) (flags : large < 4096) :
    (finalState (execSetup (bootHdr []) 0
        ((markedMachine (bootRoot + small)).withCr3 bootRoot small))).freePageCounter ≠
      (finalState (execSetup (bootHdr []) 0
        ((markedMachine (bootRoot + small)).withCr3 bootRoot large))).freePageCounter := by
  have mark := rootEntry_mark (bootRoot + small)
  exact execSetup_counter_ne rfl (by decide) (by omega) flags
    (fun index _ => rootEntry_above (by omega) index) (by decide) mark

/-- The flags of CR3 do not matter exactly where there are none: then the editors work on
one root table.  Two settings of the flags lead to the same changes in all states only if
they are the same. -/
theorem exec_setup_ignores_flags_iff {left right : Nat} (leftFlags : left < 4096)
    (rightFlags : right < 4096) :
    (∀ (hdr : Stivale2Struct) (name : Nat) (machine : Machine) (root : Nat), IsFrame root ->
      (SameChanges hdr name (machine.withCr3 root left) (machine.withCr3 root right) ∧
          OneRoot (editorRoots (machine.withCr3 root left).cr3) ∧
          OneRoot (editorRoots (machine.withCr3 root right).cr3) ↔
        left = 0 ∧ right = 0)) ∧
    ((∀ (hdr : Stivale2Struct) (name : Nat) (machine : Machine) (root : Nat), IsFrame root ->
        SameChanges hdr name (machine.withCr3 root left) (machine.withCr3 root right)) ↔
      left = right) ∧
    ∀ (hdr : Stivale2Struct) (name : Nat) (machine : Machine),
      execSetup hdr name machine = execSetupOn (editorRoots machine.cr3) hdr name machine := by
  have flagsOf : ∀ {root flags : Nat}, IsFrame root -> flags < 4096 ->
      (OneRoot (editorRoots (root + flags)) ↔ flags = 0) := by
    intro root flags isFrame small
    have aligned := isFrame.aligned
    have bound := isFrame.bound
    rw [oneRoot_iff (by unfold wordSize; omega)]
    omega
  refine ⟨?_, ⟨?_, ?_⟩, fun hdr name machine => execSetup_on machine rfl⟩
  · intro hdr name machine root isFrame
    constructor
    · rintro ⟨_, leftRoot, rightRoot⟩
      exact ⟨(flagsOf isFrame leftFlags).mp leftRoot, (flagsOf isFrame rightFlags).mp rightRoot⟩
    · rintro ⟨rfl, rfl⟩
      exact ⟨⟨rfl, rfl, rfl⟩, (flagsOf isFrame leftFlags).mpr rfl,
        (flagsOf isFrame rightFlags).mpr rfl⟩
  · intro same
    rcases Nat.lt_trichotomy left right with less | equal | greater
    · exact absurd (same _ 0 _ _ isFrame_bootRoot).counter
        (flags_distinguished less rightFlags)
    · exact equal
    · exact absurd (same _ 0 _ _ isFrame_bootRoot).counter
        (flags_distinguished greater leftFlags).symm
  · rintro rfl
    exact fun _ _ _ _ _ => ⟨rfl, rfl, rfl⟩

/-- Without flags `exec_setup` works on one root table after boot. -/
theorem exec_setup_ignores_flags_bootMachine :
    SameChanges (bootHdr []) 0 ((bootMachine (bootContent [])).withCr3 bootRoot 0)
        ((bootMachine (bootContent [])).withCr3 bootRoot 0) ∧
      OneRoot (editorRoots bootRoot) := by
  obtain ⟨same, oneRoot, _⟩ := ((exec_setup_ignores_flags_iff (by decide) (by decide)).1
    (bootHdr []) 0 (bootMachine (bootContent [])) bootRoot isFrame_bootRoot).mpr ⟨rfl, rfl⟩
  exact ⟨same, oneRoot⟩

/-- With the write-through flag set, `exec_setup` takes the kernel's first entry of the
level 4 table for one of the lower half and frees its tables. -/
theorem write_through_frees_kernel_tables :
    ∃ start free, (bootMachine (bootContent [])).memInit (bootHdr []) = some start ∧
      start.FreelistIs free ∧ start = start.withCr3 bootRoot 0 ∧
      ¬SameChanges (bootHdr []) 0 (start.withCr3 bootRoot 0) (start.withCr3 bootRoot 8) := by
  obtain ⟨start, free, init, initialized, _⟩ := boot_initialized [] []
  have cr3 : start.cr3 = bootRoot := initialized.sameCr3
  refine ⟨start, free, init, initialized.owned.freelist, ?_, ?_⟩
  · rw [Machine.withCr3, Nat.add_zero, ← cr3]
  · intro same
    have entry : ∀ index < 512, rootEntry start.memory bootRoot index =
        entryAt start.memory bootRoot index := fun index small => (if_pos small).symm
    have atRoot : treeWalk start.memory bootRoot [] = .table bootRoot [] := rfl
    have absent : ∀ index < 256,
        (rootEntry start.memory (bootRoot + 0) index).present = false := by
      intro index small
      have fault : treeWalk start.memory bootRoot [index] = .fault :=
        initialized.lower [index] (lowerPath_singleton.mpr small)
      rw [Nat.add_zero, entry index (by omega)]
      cases present : (entryAt start.memory bootRoot index).present with
      | false => rfl
      | true =>
          rw [treeWalk_cons, atRoot, RadixTree.Walk.step,
            classify_of_table present (by simp)] at fault
          cases fault
    have present : (rootEntry start.memory (bootRoot + 8) 255).present = true := by
      have upper : treeWalk start.memory bootRoot [256] =
          treeWalk (bootMemory (bootContent [])) bootRoot [256] :=
        initialized.upper [256] (by simp [LowerPath])
      rw [(treeWalk_bootMemory_upper (bootContent [])).1] at upper
      obtain ⟨table, reached, denotes⟩ := RadixTree.tableAt_cons.mp (tableAt_of_treeWalk upper)
      obtain rfl : bootRoot = table := Option.some.inj reached
      have shifted : rootEntry start.memory (bootRoot + 8) 255 =
          rootEntry start.memory bootRoot 256 := rfl
      rw [shifted, entry 256 (by decide)]
      exact (table_of_classify denotes).1
    exact execSetup_counter_ne rfl (by decide) (by decide) (by decide) absent (by decide) present
      same.counter.symm

end StarterKernel
