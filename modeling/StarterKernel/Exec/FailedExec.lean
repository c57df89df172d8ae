import StarterKernel.Kernel.SystemCalls
import StarterKernel.Exec.BootImage
import StarterKernel.Paging.WellFormed

/-!
# An `exec` that fails

`exec_setup` unmaps the lower half before it looks the module up, so a call that does
not find it returns to a program that is gone.  The caller stays as it was only if
there was nothing to unmap.
-/

namespace StarterKernel

open RadixTree (Slot Walk)
open StateError

variable {root name arg1 arg2 : Nat} {machine after : Machine} {free : List Nat}
variable {hdr : Stivale2Struct} {interrupts : Nat -> Kernel Unit} {bytes : List UInt8}

/-! ## Unmapping nothing -/

/-- No entry of the lower half of the level 4 table is present. -/
def NothingMapped (memory : Nat -> UInt8) (root : Nat) : Prop :=
  ∀ index < 256, (entryAt memory root index).present = false

/-- A loop whose rounds do nothing does nothing. -/
theorem foldl_fixed {α β : Type} {body : α -> β -> α} {state : α} {items : List β}
    (fixed : ∀ item ∈ items, body state item = state) :
    items.foldl body state = state := by
  induction items with
  | nil => rfl
  | cons item items inductionHypothesis =>
      simp only [List.mem_cons, forall_eq_or_imp] at fixed
      rw [List.foldl_cons, fixed.1, inductionHypothesis fixed.2]

/-- `unmap_lower_half` changes nothing if nothing is mapped. -/
theorem Machine.unmapLowerHalf_of_nothing (rootFrame : IsFrame root)
    (nothing : NothingMapped machine.memory root) :
    machine.unmapLowerHalf root = machine := by
  have loop : (List.range 256).foldl (unmapL4Entry (machine.ptov root)) machine =
      machine := by
    apply foldl_fixed
    intro index member
    have small := List.mem_range.mp member
    rw [unmapL4Entry, loadEntry_eq rootFrame (by omega), if_neg (by
      simp [nothing index small])]
  rw [unmapLowerHalf, loop, writeCr3_readCr3]

/-- After `unmap_lower_half` nothing is mapped. -/
theorem nothingMapped_of_same_walks (rootFrame : IsFrame root)
    (tree : IsTree machine.memory root)
    (same : ∀ path, treeWalk (machine.unmapLowerHalf root).memory root path =
      treeWalk machine.memory root path) :
    NothingMapped machine.memory root := by
  intro index small
  have fault : treeWalk machine.memory root [index] = .fault := by
    rw [← same]
    exact Machine.treeWalk_unmapLowerHalf_of_lower rootFrame tree
      (lowerPath_singleton.mpr small)
  have atRoot : treeWalk machine.memory root [] = .table root [] := rfl
  cases present : (entryAt machine.memory root index).present with
  | false => rfl
  | true =>
      have slot : classify ([] : List Nat).length (entryAt machine.memory root index) =
          .table (entryAt machine.memory root index).frame :=
        classify_of_table present (by simp)
      rw [treeWalk_cons, atRoot] at fault
      simp only [RadixTree.Walk.step, slot] at fault
      cases fault

/-! ## The system call -/

/-- What `exec_setup` does when it does not find the module. -/
theorem execSetup_notFound_iff :
    execSetup hdr name machine = .ok .notFound after ↔
      findModule name hdr.modules (machine.unmapLowerHalf machine.cr3) =
          .ok none (machine.unmapLowerHalf machine.cr3) ∧
        after = (machine.unmapLowerHalf machine.cr3).kprintf
          "An error occured when trying to find the module. \n" := by
  rw [execSetup, bind_of_ok (modify_apply _ _)]
  constructor
  · intro run
    obtain ⟨found, looked, finds, run⟩ := ok_of_bind run
    obtain rfl := (keeps_findModule name hdr.modules).of_ok finds
    cases found with
    | none =>
        cases run
        exact ⟨finds, rfl⟩
    | some ourmod =>
        obtain ⟨_, _, _, run⟩ := ok_of_bind run
        cases run
  · rintro ⟨finds, rfl⟩
    exact bind_of_ok finds

/-- `SYS_EXEC` returns exactly when the module is not found. -/
theorem syscallHandler_exec_iff :
    Kernel.syscallHandler hdr interrupts sysExec name arg1 arg2 machine =
        .ok (.returned (-1)) after ↔
      execSetup hdr name machine = .ok .notFound after := by
  rw [Kernel.syscallHandler, if_neg (by decide), if_neg (by decide), if_pos rfl]
  constructor
  · intro run
    obtain ⟨outcome, ended, executes, run⟩ := ok_of_bind run
    cases outcome with
    | notFound =>
        cases run
        exact executes
    | entered entry => cases run
  · intro run
    rw [bind_of_ok run]
    rfl

/-- A failed `SYS_EXEC` returns -1 and leaves the page tables, the lower half and the
freelist as they were if and only if nothing was mapped in the lower half (and no
module has a string that `strcmp` takes for the name). -/
theorem failed_exec_keeps_caller_iff
    {hdr : Stivale2Struct} {interrupts : Nat -> Kernel Unit} {machine : Machine}
    {free : List Nat} {name : Nat} {bytes : List UInt8} (arg1 arg2 : Nat)
    (wellFormed : WellFormed machine.cr3 machine free)
    (reads : ReadsString (pointerString name) machine bytes) (noNul : 0 ∉ bytes) :
    (∃ after, Kernel.syscallHandler hdr interrupts sysExec name arg1 arg2 machine =
        .ok (.returned (-1)) after ∧
      (∀ path, treeWalk after.memory machine.cr3 path =
        treeWalk machine.memory machine.cr3 path) ∧
      (∀ address, LowerHalf address -> translation after.memory machine.cr3 address =
        translation machine.memory machine.cr3 address) ∧
      after.FreelistIs free) ↔
    NothingMapped machine.memory machine.cr3 ∧
      ∀ ourmod ∈ hdr.modules, ¬StrcmpEqual bytes ourmod.string := by
  simp only [syscallHandler_exec_iff, execSetup_notFound_iff]
  constructor
  · rintro ⟨after, ⟨finds, rfl⟩, sameWalks, -, -⟩
    have nothing := nothingMapped_of_same_walks wellFormed.rootFrame wellFormed.tree
      sameWalks
    rw [Machine.unmapLowerHalf_of_nothing wellFormed.rootFrame nothing,
      findModule_eq reads noNul] at finds
    injection finds with isNone
    refine ⟨nothing, fun ourmod member => ?_⟩
    simpa using List.find?_eq_none.mp isNone ourmod member
  · rintro ⟨nothing, unlike⟩
    have isNone : (hdr.modules.find? fun ourmod => StrcmpEqual bytes ourmod.string) =
        none := List.find?_eq_none.mpr (by simpa using unlike)
    rw [Machine.unmapLowerHalf_of_nothing wellFormed.rootFrame nothing,
      findModule_eq reads noNul, isNone]
    exact ⟨_, ⟨rfl, rfl⟩, fun _ => rfl, fun _ _ => rfl,
      (wellFormed.congr rfl rfl rfl).freelist⟩

/-! ## A name that no module has -/

/-- The name `x`. -/
def strangeName : List UInt8 := [120]

/-- After boot the kernel can read the name `x`, also once a page is mapped. -/
theorem boot_strangeName (modules : List Stivale2Module) :
    let pool := bootPool bootTag (bootMachine (bootContent (strangeName ++ [0])))
    ∃ start free rest,
      (bootMachine (bootContent (strangeName ++ [0]))).memInit (bootHdr modules) =
        some start ∧
      start.cr3 = bootRoot ∧ Owned bootRoot pool start free ∧
      ImageAt bootRoot pool start bootImageBase 2
        (fun i => (strangeName ++ [0]).getD i 0) ∧
      NothingMapped start.memory bootRoot ∧
      Extends bootRoot pool start
        (start.vmMap bootRoot 0x400000 true true false).2 free rest ∧
      ∃ mapped, translation (start.vmMap bootRoot 0x400000 true true false).2.memory
        bootRoot 0x400000 = some mapped := by
  intro pool
  have lower : LowerHalf 0x400000 := by decide
  obtain ⟨start, free, init, initialized, noZero, many⟩ :=
    boot_initialized (strangeName ++ [0]) modules
  have owned : Owned bootRoot pool start free := initialized.owned
  have fault : ∀ path, LowerPath path -> treeWalk start.memory bootRoot path = .fault :=
    initialized.lower
  obtain ⟨rest, extend, _⟩ := owned.vmMap_extends true true false lower
  have bounds := framesNeeded_bounds start.memory bootRoot 0x400000
  obtain ⟨after, taken, last, succeeds, _, kept, _, mapped⟩ :=
    owned.vmMap_succeeds true true false lower
      (fault _ ((lowerPath_walkPath _ 3).mpr lower)) noZero (by omega)
  obtain ⟨frame, _, translates, _⟩ := mapped.translation_eq kept lower
  refine ⟨start, free, rest, init, initialized.sameCr3, owned,
    initialized.imageAt (by decide), ?_, extend, _, by rw [succeeds]; exact translates⟩
  apply nothingMapped_of_same_walks owned.rootFrame owned.tree
  intro path
  by_cases lowerPath : LowerPath path
  · rw [Machine.treeWalk_unmapLowerHalf_of_lower owned.rootFrame owned.tree lowerPath,
      fault path lowerPath]
  · exact Machine.treeWalk_unmapLowerHalf_of_upper owned.rootFrame owned.tree lowerPath

theorem ImageAt.readsStrangeName {pool : Set Nat}
    (imageAt : ImageAt root pool machine bootImageBase 2
      fun i => (strangeName ++ [0]).getD i 0) (isRoot : machine.root = root) :
    ReadsString (pointerString bootImageBase) machine strangeName := by
  apply imageAt.readsString isRoot (by decide)
  decide

/-- A failed `exec` before any program was loaded. -/
theorem failed_exec_keeps_caller_iff_bootMachine :
    ∃ start, (bootMachine (bootContent (strangeName ++ [0]))).memInit
        (bootHdr [initModule 0 0]) = some start ∧
      ∃ after, Kernel.syscallHandler (bootHdr [initModule 0 0]) (fun _ => pure ()) sysExec
          bootImageBase 0 0 start = .ok (.returned (-1)) after ∧
        ∀ address, LowerHalf address -> translation after.memory start.cr3 address =
          translation start.memory start.cr3 address := by
  obtain ⟨start, free, rest, init, isCr3, owned, imageAt, nothing, _⟩ :=
    boot_strangeName [initModule 0 0]
  have reads := imageAt.readsStrangeName (owned.root_eq isCr3)
  have wellFormed : WellFormed start.cr3 start free := isCr3 ▸ owned.wellFormed
  have unlike : ∀ ourmod ∈ (bootHdr [initModule 0 0]).modules,
      ¬StrcmpEqual strangeName ourmod.string := by decide
  obtain ⟨after, fails, _, same, _⟩ := (failed_exec_keeps_caller_iff 0 0 wellFormed reads
    (by decide)).mpr ⟨isCr3 ▸ nothing, unlike⟩
  exact ⟨start, init, after, fails, same⟩

/-- With a page mapped in the lower half a failed `exec` returns -1 and the page is
gone. -/
theorem failed_exec_unmaps_caller :
    ∃ start, (bootMachine (bootContent (strangeName ++ [0]))).memInit
        (bootHdr [initModule 0 0]) = some start ∧
      let caller := (start.vmMap bootRoot 0x400000 true true false).2
      ReadsString (pointerString bootImageBase) caller strangeName ∧
      (∀ ourmod ∈ (bootHdr [initModule 0 0]).modules, ourmod.string ≠ strangeName) ∧
      translation caller.memory bootRoot 0x400000 ≠ none ∧
      ∃ after, Kernel.syscallHandler (bootHdr [initModule 0 0]) (fun _ => pure ()) sysExec
          bootImageBase 0 0 caller = .ok (.returned (-1)) after ∧
        translation after.memory bootRoot 0x400000 = none := by
  obtain ⟨start, free, rest, init, isCr3, owned, imageAt, _, extend, mapped, translates⟩ :=
    boot_strangeName [initModule 0 0]
  have kept := extend.kept
  have callerCr3 := extend.sameCr3.trans isCr3
  have lower : LowerPath (pagePath 0x400000) :=
    (lowerPath_walkPath _ 3).mpr (by decide)
  obtain ⟨unmapped, unmappedCr3, _⟩ := kept.unmapped callerCr3
  rw [callerCr3] at unmapped unmappedCr3
  have reads := ((imageAt.mono extend).unmapLowerHalf kept).readsStrangeName
    (unmapped.root_eq unmappedCr3)
  have finds : findModule bootImageBase (bootHdr [initModule 0 0]).modules
      ((start.vmMap bootRoot 0x400000 true true false).2.unmapLowerHalf
        (start.vmMap bootRoot 0x400000 true true false).2.cr3) =
      .ok none ((start.vmMap bootRoot 0x400000 true true false).2.unmapLowerHalf
        (start.vmMap bootRoot 0x400000 true true false).2.cr3) := by
    rw [callerCr3, findModule_eq reads (by decide)]
    rfl
  have notFound := execSetup_notFound_iff.mpr ⟨finds, rfl⟩
  refine ⟨start, init, (imageAt.mono extend).readsStrangeName (kept.root_eq callerCr3),
    by decide, by rw [translates]; simp, _, syscallHandler_exec_iff.mpr notFound, ?_⟩
  rw [callerCr3, Machine.kprintf_memory, translation_eq,
    Machine.treeWalk_unmapLowerHalf_of_lower kept.rootFrame kept.tree lower]
  rfl

end StarterKernel
