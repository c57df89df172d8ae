import StarterKernel.Exec.FailedExec
import StarterKernel.SystemCalls.RoundTrip

/-!
# The call of `exec` in `_start`

`_start` makes its system call in the code segment of the bootloader, for which the tables
of the kernel have no descriptor.  The call reaches its handler, but nothing can return
from it.
-/

namespace StarterKernel

variable {root name : Nat} {pool : Set Nat} {machine : Machine} {free : List Nat}
variable {hdr : Stivale2Struct} {bytes : List UInt8} {image : KernelImage} {cpu : Cpu}

/-- The name that `_start` passes to `exec`. -/
def startName : List UInt8 := [115, 108, 101, 101, 112]

/-- The strings of the modules in `limine.cfg`. -/
def limineStrings : List (List UInt8) :=
  [[105, 110, 105, 116], [101, 99, 104, 111], [119, 97, 105, 116]]

example : startName ∉ limineStrings := by decide

/-- What `exec_setup` prints if it does not find the module. -/
def notFoundMessage : String := "An error occured when trying to find the module. \n"

/-- A lookup of a name in kernel memory that no module has. -/
theorem findModule_missing
    (owned : Owned root pool machine free) (isCr3 : machine.cr3 = root)
    (kernelName : KernelName root pool machine name bytes) (noNul : 0 ∉ bytes)
    (short : bytes.length < 2 ^ 32) (missing : ∀ ourmod ∈ hdr.modules, ourmod.string ≠ bytes) :
    findModule name hdr.modules (machine.unmapLowerHalf machine.cr3) =
      .ok none (machine.unmapLowerHalf machine.cr3) := by
  subst isCr3
  obtain ⟨unmapped, sameCr3, _⟩ := owned.unmapped rfl
  have reads := (ImageAt.unmapLowerHalf kernelName owned).readsString
    (unmapped.root_eq sameCr3) (Nat.lt_succ_self _) (fun _ _ => rfl)
  have isNone : (hdr.modules.find? fun ourmod => StrcmpEqual bytes ourmod.string) = none := by
    refine List.find?_eq_none.mpr fun ourmod member => ?_
    rw [decide_eq_true_iff, strcmpEqual_iff_eq short]
    exact (missing ourmod member).symm
  rw [findModule_eq reads noNul, isNone]

/-- A fault leads to the handler of its vector, whatever the error code. -/
theorem Cpu.Loaded.enterHandler_errorCode (loaded : cpu.Loaded image) {call : IdtCall}
    (member : call ∈ bootCalls image.handlers) (errorCode : Option UInt64) :
    ∃ entered, cpu.enterHandler call.index false errorCode = .ok entered ∧
      entered.rip = call.fn ∧ entered.cpl = 0 := by
  have selector : call.gate.selector = kernelCodeSelector := rfl
  have offset : UInt64.ofNat call.gate.offset = call.fn := UInt64.ofNat_toNat
  have level : (kernelCodeSelector / 4 * 4 + 0) % 4 = 0 := rfl
  rw [enterHandler, loaded.gateFault_eq member]
  simp only [loaded.gate_of member, selector, loaded.handlerCpl_eq, offset]
  exact ⟨_, rfl, rfl, level⟩

theorem generalProtectionIndex_lt : 12 < exceptionCount := by decide

/-- The place of the handler of general protection faults. -/
def generalProtectionIndex : Fin exceptionCount := ⟨12, generalProtectionIndex_lt⟩

/-- Code of the kernel that was entered with another code selector cannot be resumed. -/
theorem not_resumable {rip : UInt64} (kernel : cpu.cpl = 0)
    (foreign : cpu.cs ≠ kernelCodeSelector) : ¬Resumable rip cpu.cs cpu.ss := by
  have user : (userCodeSelector ||| 3) % 4 = 3 := rfl
  rintro ⟨_, ⟨isKernel, _⟩ | ⟨isUser, _⟩⟩
  · exact foreign isKernel
  · rw [Cpu.cpl, isUser, user] at kernel
    cases kernel

/-- The `exec` of `_start`, for a name that no module has, in a code segment that is not
the one of the kernel.  `exec_setup` unmaps the lower half, reports that it found no
module, and `syscall_handler` returns -1; but `_start` never gets this result: however the
handler returns, `syscall_entry` comes to an `iretq` that is a general protection fault,
and the processor ends in the handler of that exception. -/
theorem start_exec_faults
    {root name : Nat} {pool : Set Nat} {machine : Machine} {free : List Nat}
    {hdr : Stivale2Struct} {bytes : List UInt8} (interrupts : Nat -> Kernel Unit)
    (arg1 arg2 : Nat) (owned : Owned root pool machine free) (isCr3 : machine.cr3 = root)
    (kernelName : KernelName root pool machine name bytes) (noNul : 0 ∉ bytes)
    (short : bytes.length < 2 ^ 32) (missing : ∀ ourmod ∈ hdr.modules, ourmod.string ≠ bytes)
    (image : KernelImage) (code : Code) (cpu : Cpu) (loaded : cpu.Loaded image)
    (kernel : cpu.cpl = 0) (foreign : cpu.cs ≠ kernelCodeSelector)
    (selectors : cpu.cs < 2 ^ 16 ∧ cpu.ss < 2 ^ 16)
    (free : image.Free (cpu.frameTop image) 56) (stub : code.Places cpu.rip syscallRoutine)
    (entry : code.Places image.handlers.syscallEntry
      (syscallEntryRoutine image.syscallHandler)) :
    (∃ after, Kernel.syscallHandler hdr interrupts sysExec name arg1 arg2 machine =
        .ok (.returned (-1)) after ∧
      after = (machine.unmapLowerHalf root).kprintf notFoundMessage ∧
      lowerSpace after.memory root = emptySpace) ∧
    ∃ called, code.Run cpu called ∧ called.rip = image.syscallHandler ∧ called.cpl = 0 ∧
      (∀ register ∈ argumentRegisters, called.registers register = cpu.registers register) ∧
      ∀ returned, CallReturns image called returned ->
        ∃ leaving next, code.Run returned leaving ∧
          code leaving.rip = some (.iretq, next) ∧
          leaving.execute .iretq next = .error .generalProtection ∧
          ∀ errorCode, ∃ entered,
            leaving.enterHandler 13 false (some errorCode) = .ok entered ∧
              entered.rip = image.handlers.handler generalProtectionIndex ∧ entered.cpl = 0 := by
  subst isCr3
  refine ⟨?_, ?_⟩
  · have finds := findModule_missing owned rfl kernelName noNul short missing
    obtain ⟨_, _, empty⟩ := owned.unmapped rfl
    refine ⟨_, syscallHandler_exec_iff.mpr (execSetup_notFound_iff.mpr ⟨finds, rfl⟩), rfl, ?_⟩
    rw [Machine.kprintf_memory, empty]
  · have own : cpu.OwnData := fun _ user => absurd kernel (Nat.ne_of_gt user)
    obtain ⟨_, next, back, _, _, rest, run⟩ := run_called loaded stub entry
    have isHandler := @inHandler image cpu next back loaded free
    have isKernel : (cpu.called image next back).cs = 8 := rfl
    refine ⟨cpu.called image next back, run, rfl, ?_,
      fun register argument => isHandler.registers register ?_ ?_, fun returned returns => ?_⟩
    · rw [Cpu.cpl, isKernel]
    · rintro rfl
      exact absurd argument (by decide)
    · rintro rfl
      exact absurd argument (by decide)
    · obtain ⟨leaving, after, runs, leaves, _, tables, executed⟩ :=
        isHandler.run_leaving free loaded own selectors rest returns
      rw [if_neg (not_resumable kernel foreign)] at executed
      refine ⟨leaving, after, runs, leaves, executed, fun errorCode => ?_⟩
      have member : exceptionCall image.handlers generalProtectionIndex ∈
          bootCalls image.handlers :=
        List.mem_append_left _ (List.mem_map_of_mem (List.mem_finRange generalProtectionIndex))
      exact tables.enterHandler_errorCode member (some errorCode)

theorem limineStrings_strings :
    ∀ string ∈ limineStrings, string.length < 128 ∧ 0 ∉ string ∧ string ≠ startName := by
  decide

/-- The modules that the bootloader loads. -/
def limineModules : List Stivale2Module :=
  limineStrings.attach.map fun string =>
    { beginAddress := 0
      endAddress := 0
      string := string.1
      terminated := (limineStrings_strings _ string.2).1
      noNul := (limineStrings_strings _ string.2).2.1 }

theorem limineModules_missing (ourmod : Stivale2Module) (member : ourmod ∈ limineModules) :
    ourmod.string ≠ startName := by
  obtain ⟨string, _, rfl⟩ := List.mem_map.mp member
  exact (limineStrings_strings _ string.2).2.2

/-- A string reads as zero behind its end, with its terminator or without. -/
theorem getD_terminated : (fun i => (bytes ++ [0]).getD i 0) = fun i => bytes.getD i 0 := by
  funext i
  by_cases inside : i < bytes.length
  · rw [List.getD_append _ _ _ _ inside]
  · have outside : bytes.length ≤ i := Nat.le_of_not_lt inside
    rw [List.getD_append_right _ _ _ _ outside, List.getD_eq_default _ _ outside]
    cases i - bytes.length <;> rfl

/-- The processor in `_start`, with the selectors of the bootloader. -/
def startCpu : Cpu :=
  { sampleCpu with
    registers := fun register => if register = .rsp then 0x20000 else 0
    cs := 0x28
    ss := 0x30
    data := fun _ => 0x30 }

theorem startCpu_loaded : startCpu.Loaded sampleImage :=
  sampleCpu_loaded.congr rfl rfl rfl fun _ _ => rfl

theorem startCpu_free : sampleImage.Free (startCpu.frameTop sampleImage) 56 := by
  have top : (startCpu.frameTop sampleImage).toNat = 0x20000 := by decide
  have gdt : sampleImage.gdt.gdt.toNat + maxGdtSize = 0x1100 := rfl
  have tss : sampleImage.gdt.tss.toNat + tssSize = 0x2068 := rfl
  have idt : sampleImage.idt.toNat + idtSize = 0x4000 := rfl
  refine ⟨by omega, fun position above below => ?_⟩
  unfold KernelImage.InTable
  omega

/-- The kernel as it boots. -/
theorem start_exec_faults_bootMachine :
    ∃ start, (bootMachine (bootContent (startName ++ [0]))).memInit (bootHdr limineModules) =
        some start ∧
      (∃ after, Kernel.syscallHandler (bootHdr limineModules) (fun _ => pure ()) sysExec
        bootImageBase 0 0 start = .ok (.returned (-1)) after) ∧
      ∃ called, sampleCode.Run startCpu called ∧ called.rip = 0x403000 := by
  obtain ⟨start, free, init, initialized, _, _⟩ := boot_initialized (startName ++ [0]) limineModules
  have owned : Owned bootRoot (bootPool bootTag (bootMachine (bootContent (startName ++ [0]))))
    start free := initialized.owned
  have kernelName : KernelName bootRoot
      (bootPool bootTag (bootMachine (bootContent (startName ++ [0])))) start bootImageBase
      startName := by
    rw [KernelName, ← getD_terminated]
    exact initialized.imageAt (by decide)
  obtain ⟨⟨after, returns, _⟩, called, run, rip, _⟩ :=
    start_exec_faults (fun _ => pure ()) 0 0 owned initialized.sameCr3
      kernelName (by decide) (by decide)
      (show ∀ ourmod ∈ (bootHdr limineModules).modules, ourmod.string ≠ startName from
        limineModules_missing)
      sampleImage sampleCode startCpu startCpu_loaded rfl (by decide)
      ⟨by decide, by decide⟩ startCpu_free
      ⟨_, rfl, _, rfl, _, rfl, trivial⟩ ⟨_, rfl, _, rfl, _, rfl, _, rfl, trivial⟩
  exact ⟨start, init, ⟨after, returns⟩, called, run, rip⟩

end StarterKernel
