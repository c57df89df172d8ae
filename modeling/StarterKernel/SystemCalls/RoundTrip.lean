import StarterKernel.Kernel.EntryPoints
import StarterKernel.Processor.Returns

/-!
# The way of a system call

A program calls `syscall`, which interrupts itself; `syscall_entry` calls the handler with
the arguments of the program and returns with its result.
-/

namespace StarterKernel

/-- The registers of the first arguments of a function. -/
def argumentRegisters : List Register := [.rdi, .rsi, .rdx, .rcx, .r8, .r9]

/-- The registers that a function leaves as they were. -/
def calleeSaved : List Register := [.rbx, .rbp, .r12, .r13, .r14, .r15]

/-- A function of the kernel that was called has returned.  It leaves the frame that lies
above its seventh argument alone. -/
structure CallReturns (image : KernelImage) (called returned : Cpu) : Prop where
  rip : returned.rip = called.loadWord called.rsp
  rsp : returned.rsp = called.rsp + 8
  saved : ∀ register ∈ calleeSaved, returned.registers register = called.registers register
  cs : returned.cs = called.cs
  data : returned.data = called.data
  task : returned.task = called.task
  loaded : returned.Loaded image
  frame : ∀ position, called.rsp.toNat + 16 ≤ position -> position < called.rsp.toNat + 56 ->
    returned.memory position = called.memory position

variable {code : Code} {image : KernelImage} {cpu : Cpu} {next : UInt64}

namespace Cpu

/-- A program in `int 0x80`, with its last argument in `rax`. -/
def calling (cpu : Cpu) (next : UInt64) : Cpu :=
  { cpu.setRegister .rax (cpu.loadWord (cpu.rsp + 8)) with rip := next }

/-- The kernel at the first instruction of the handler of system calls. -/
def called (cpu : Cpu) (image : KernelImage) (next back : UInt64) : Cpu :=
  let entered := (cpu.calling next).entered image (syscallCall image.handlers)
  { entered.pushAll [cpu.loadWord (cpu.rsp + 8), back] with rip := image.syscallHandler }

end Cpu

/-- `syscall_entry` gets to the handler, with `rax` as an argument on the stack. -/
theorem run_syscallEntry {handler : UInt64}
    (entry : code.Places cpu.rip (syscallEntryRoutine handler)) :
    ∃ back, code.Places back [.add 8 .rsp, .iretq] ∧
      code.Run cpu { cpu.pushAll [cpu.registers .rax, back] with rip := handler } := by
  obtain ⟨next, pushes, back, calls, rest⟩ := entry
  refine ⟨back, rest, ?_⟩
  refine Code.Run.head pushes rfl ?_
  exact Code.Run.head calls rfl Relation.ReflTransGen.refl

/-- The program gets to the handler. -/
theorem run_called (loaded : cpu.Loaded image)
    (stub : code.Places cpu.rip syscallRoutine)
    (entry : code.Places image.handlers.syscallEntry
      (syscallEntryRoutine image.syscallHandler)) :
    ∃ first next back, code first = some (.int 0x80, next) ∧ code.Places next [.ret] ∧
      code.Places back [.add 8 .rsp, .iretq] ∧ code.Run cpu (cpu.called image next back) := by
  obtain ⟨first, here, next, interrupts, returns⟩ := stub
  have atInt : (cpu.calling next).Loaded image := loaded.congr rfl rfl rfl fun _ _ => rfl
  have argument : ((cpu.calling next).entered image (syscallCall image.handlers)).registers .rax =
      cpu.loadWord (cpu.rsp + 8) := by
    rw [Cpu.registers_entered (by decide)]
    exact @Cpu.registers_setRegister_self cpu (cpu.loadWord (cpu.rsp + 8)) .rax
  obtain ⟨back, rest, run⟩ := @run_syscallEntry code
    ((cpu.calling next).entered image (syscallCall image.handlers)) image.syscallHandler entry
  rw [argument] at run
  refine ⟨first, next, back, interrupts, returns, rest, ?_⟩
  refine Code.Run.head here rfl ?_
  exact Code.Run.head interrupts (atInt.enterHandler_eq (syscallCall_mem _) true) run

/-! ## In the handler -/

/-- What the handler of system calls finds. -/
structure InHandler (cpu : Cpu) (image : KernelImage) (next back : UInt64) : Prop where
  rsp : (cpu.called image next back).rsp.toNat = (cpu.frameTop image).toNat - 56
  stacked : Stacked (cpu.called image next back).memory (cpu.called image next back).rsp
    [back, cpu.loadWord (cpu.rsp + 8), next, UInt64.ofNat cpu.cs, cpu.rflags, cpu.rsp,
      UInt64.ofNat cpu.ss]
  registers : ∀ register, register ≠ .rax -> register ≠ .rsp ->
    (cpu.called image next back).registers register = cpu.registers register
  memory : ∀ position,
    position + 56 < (cpu.frameTop image).toNat ∨ (cpu.frameTop image).toNat ≤ position ->
      image.KeepsByte cpu.memory (cpu.called image next back).memory position
  task : (cpu.called image next back).task = cpu.task
  loaded : (cpu.called image next back).Loaded image

theorem inHandler {back : UInt64} (loaded : cpu.Loaded image)
    (free : image.Free (cpu.frameTop image) 56) : InHandler cpu image next back := by
  have top : (cpu.calling next).frameTop image = cpu.frameTop image := rfl
  have fits := (cpu.frameTop image).toNat_lt
  have room : 40 ≤ (cpu.frameTop image).toNat := le_trans (by decide) free.1
  have atInt : (cpu.calling next).Loaded image := loaded.congr rfl rfl rfl fun _ _ => rfl
  have frame := @Cpu.stacked_entered (cpu.calling next) image (syscallCall image.handlers) atInt
  have bottom := @Cpu.rsp_entered (cpu.calling next) image (syscallCall image.handlers)
  have outside (position : Nat) := @Cpu.keepsByte_entered (cpu.calling next) image
    (syscallCall image.handlers) atInt position
  have others (register : Register) := @Cpu.registers_entered (cpu.calling next) image
    (syscallCall image.handlers) register
  have gdtr : (cpu.called image next back).gdtr = cpu.gdtr := rfl
  have task : (cpu.called image next back).task = cpu.task := rfl
  have idtr : (cpu.called image next back).idtr = cpu.idtr := rfl
  rw [top] at bottom outside frame
  specialize bottom room
  specialize frame (free.mono (by decide))
  -- Two more words follow the frame.
  have isCalled : cpu.called image next back =
      { ((cpu.calling next).entered image (syscallCall image.handlers)).pushAll
          [cpu.loadWord (cpu.rsp + 8), back] with
        rip := image.syscallHandler } := rfl
  generalize (cpu.calling next).entered image (syscallCall image.handlers) = entered at *
  have size : 8 * [cpu.loadWord (cpu.rsp + 8), back].length = 16 := rfl
  have pushedRsp := @Cpu.rsp_pushAll entered [cpu.loadWord (cpu.rsp + 8), back] (by
    have := free.1
    omega)
  have pushedMemory (position : Nat) :=
    @Cpu.memory_pushAll entered [cpu.loadWord (cpu.rsp + 8), back] position (by
      have := free.1
      omega)
  have pushed := @Cpu.stacked_pushAll _ entered [cpu.loadWord (cpu.rsp + 8), back] frame (by
    have := free.1
    omega) (by
    have : (cpu.calling next).frame.reverse.length = 5 := rfl
    omega)
  have memory (position : Nat)
      (apart : position + 56 < (cpu.frameTop image).toNat ∨ (cpu.frameTop image).toNat ≤ position) :
      image.KeepsByte cpu.memory (cpu.called image next back).memory position := by
    rw [isCalled]
    exact KernelImage.KeepsByte.trans (outside position room (by omega))
      (Or.inl (pushedMemory position (by omega)))
  rw [size] at pushedRsp
  refine ⟨?_, ?_, fun register notResult notStack => ?_, memory, task, ?_⟩
  · rw [isCalled]
    refine pushedRsp.trans ?_
    omega
  · rw [isCalled]
    exact pushed
  · have same := @Cpu.registers_pushAll entered [cpu.loadWord (cpu.rsp + 8), back] _ notStack
    rw [isCalled]
    exact same.trans ((others register notStack).trans (Cpu.registers_setRegister notResult))
  · refine loaded.kept gdtr task idtr fun position inTable => memory position ?_
    by_contra inStack
    exact free.2 position (by omega) (by omega) inTable

/-! ## Back to the program -/

/-- The frame is found again when the handler has returned. -/
theorem InHandler.stacked_returned {next back : UInt64} {returned : Cpu}
    (isHandler : InHandler cpu image next back) (free : image.Free (cpu.frameTop image) 56)
    (returns : CallReturns image (cpu.called image next back) returned) :
    Stacked returned.memory (returned.rsp + 8)
      [next, UInt64.ofNat cpu.cs, cpu.rflags, cpu.rsp, UInt64.ofNat cpu.ss] := by
  have fits := (cpu.frameTop image).toNat_lt
  have room := free.1
  have bottom := isHandler.rsp
  have up := @toNat_add_eight (cpu.called image next back).rsp (by omega)
  have above := @toNat_add_eight ((cpu.called image next back).rsp + 8) (by omega)
  have length : 8 * [next, UInt64.ofNat cpu.cs, cpu.rflags, cpu.rsp,
    UInt64.ofNat cpu.ss].length = 40 := rfl
  rw [returns.rsp]
  exact isHandler.stacked.2.2.congr (by omega) fun position low high =>
    returns.frame position (by omega) (by omega)

/-- The kernel at its `iretq`. -/
def Cpu.leavingHandler (returned : Cpu) (rip flags : UInt64) : Cpu :=
  { returned with
    registers := Function.update returned.registers .rsp (returned.rsp + 8)
    rip := rip
    rflags := flags }

/-- `iretq` restores the caller if it can be resumed. -/
theorem InHandler.returnFromHandler_eq {next back rip flags : UInt64} {returned : Cpu}
    (isHandler : InHandler cpu image next back) (free : image.Free (cpu.frameTop image) 56)
    (loaded : cpu.Loaded image) (own : cpu.OwnData) (selectors : cpu.cs < 2 ^ 16 ∧ cpu.ss < 2 ^ 16)
    (returns : CallReturns image (cpu.called image next back) returned) :
    (returned.leavingHandler rip flags).returnFromHandler =
      if Resumable next cpu.cs cpu.ss then
        .ok { cpu.resumed returned with
          registers := Function.update returned.registers .rsp cpu.rsp
          rip := next }
      else .error .generalProtection := by
  have tables : (returned.leavingHandler rip flags).Loaded image :=
    returns.loaded.congr rfl rfl rfl fun _ _ => rfl
  have kernel : (returned.leavingHandler rip flags).cpl = 0 := by
    have isKernel : (cpu.called image next back).cs = 8 := rfl
    have same : (returned.leavingHandler rip flags).cs = returned.cs := rfl
    rw [Cpu.cpl, same, returns.cs, isKernel]
  have isRsp : (returned.leavingHandler rip flags).rsp = returned.rsp + 8 :=
    @Cpu.rsp_setRegister returned (returned.rsp + 8)
  have stacked := isHandler.stacked_returned free returns
  rw [← isRsp] at stacked
  have task : (returned.leavingHandler rip flags).task = cpu.task :=
    returns.task.trans isHandler.task
  rw [tables.returnFromHandler_eq kernel stacked, Cpu.toNat_selector selectors.1,
    Cpu.toNat_selector selectors.2,
    Cpu.returnedTo_eq_resumed loaded tables own task returns.data]
  refine if_congr Iff.rfl (congrArg Except.ok ?_) rfl
  simp only [Cpu.leavingHandler, Cpu.resumed, Cpu.markAccessed, Function.update_idem]

/-- What is left of `syscall_entry` comes to `iretq`. -/
theorem InHandler.run_leaving {next back : UInt64} {returned : Cpu}
    (isHandler : InHandler cpu image next back) (free : image.Free (cpu.frameTop image) 56)
    (loaded : cpu.Loaded image) (own : cpu.OwnData) (selectors : cpu.cs < 2 ^ 16 ∧ cpu.ss < 2 ^ 16)
    (rest : code.Places back [.add 8 .rsp, .iretq])
    (returns : CallReturns image (cpu.called image next back) returned) :
    ∃ leaving after, code.Run returned leaving ∧ code leaving.rip = some (.iretq, after) ∧
      leaving.cpl = 0 ∧ leaving.Loaded image ∧
      leaving.execute .iretq after =
        if Resumable next cpu.cs cpu.ss then
          .ok { cpu.resumed returned with
            registers := Function.update returned.registers .rsp cpu.rsp
            rip := next }
        else .error .generalProtection := by
  obtain ⟨second, adds, third, leaves, _⟩ := rest
  have atBack : returned.rip = back :=
    returns.rip.trans (Cpu.loadWord_eq isHandler.stacked)
  rw [← atBack] at adds
  have isKernel : (cpu.called image next back).cs = 8 := rfl
  refine ⟨returned.leavingHandler second _, third,
    Code.Run.head adds rfl Relation.ReflTransGen.refl, leaves, ?_, ?_,
    isHandler.returnFromHandler_eq free loaded own selectors returns⟩
  · exact (congrArg (· % 4) (returns.cs.trans isKernel))
  · exact returns.loaded.congr rfl rfl rfl fun _ _ => rfl

/-- The caller goes on behind its call. -/
theorem InHandler.run_back {next back : UInt64} {returned : Cpu}
    (isHandler : InHandler cpu image next back) (free : image.Free (cpu.frameTop image) 56)
    (loaded : cpu.Loaded image) (own : cpu.OwnData) (selectors : cpu.cs < 2 ^ 16 ∧ cpu.ss < 2 ^ 16)
    (resumable : Resumable next cpu.cs cpu.ss)
    (rest : code.Places back [.add 8 .rsp, .iretq]) (last : code.Places next [.ret])
    (returns : CallReturns image (cpu.called image next back) returned) :
    code.Run returned { cpu.resumed returned with
      registers := Function.update returned.registers .rsp (cpu.rsp + 8)
      rip := (cpu.resumed returned).loadWord cpu.rsp } := by
  obtain ⟨leaving, after, runs, leaves, _, _, executed⟩ :=
    isHandler.run_leaving free loaded own selectors rest returns
  rw [if_pos resumable] at executed
  obtain ⟨fourth, ends, _⟩ := last
  refine runs.trans (Code.Run.head leaves executed ?_)
  refine Code.Run.head ends (congrArg Except.ok ?_) Relation.ReflTransGen.refl
  simp only [Cpu.setRegister, Cpu.rsp, Cpu.loadWord, Function.update_self, Function.update_idem]

/-- A program that calls `syscall` gets into the handler in the kernel with the number and
the six arguments where a C function looks for them, on an aligned interrupt stack, with
the interrupt flag as it was.  Once the handler has returned, the program goes on behind
its call with the result, its stack pointer, flags and segments, and every register that a
function must leave alone. -/
theorem syscall_round_trip (image : KernelImage) (code : Code) (cpu : Cpu)
    (loaded : cpu.Loaded image) (program : cpu.InProgram)
    (stub : code.Places cpu.rip syscallRoutine)
    (entry : code.Places image.handlers.syscallEntry
      (syscallEntryRoutine image.syscallHandler))
    (canonical : ∀ address instruction next, code address = some (instruction, next) ->
      Canonical next.toNat) :
    ∃ called, code.Run cpu called ∧ called.rip = image.syscallHandler ∧ called.cpl = 0 ∧
      called.rsp.toNat = image.stackTop.toNat - 56 ∧ called.rsp.toNat % 16 = 8 ∧
      called.rflags &&& 0x200 = cpu.rflags &&& 0x200 ∧
      (∀ register ∈ argumentRegisters, called.registers register = cpu.registers register) ∧
      called.loadWord (called.rsp + 8) = cpu.loadWord (cpu.rsp + 8) ∧
      (∀ position,
        position + 56 < image.stackTop.toNat ∨ image.stackTop.toNat ≤ position ->
          image.KeepsByte cpu.memory called.memory position) ∧
      called.Loaded image ∧
      ∀ returned, CallReturns image called returned ->
        code.Run returned { cpu.resumed returned with
          registers := Function.update returned.registers .rsp (cpu.rsp + 8)
          rip := (cpu.resumed returned).loadWord cpu.rsp } ∧
        (∀ position,
          image.KeepsByte returned.memory (cpu.resumed returned).memory position) ∧
        ∀ register ∈ calleeSaved, returned.registers register = cpu.registers register := by
  obtain ⟨_, next, back, interrupts, last, rest, run⟩ := run_called loaded stub entry
  have isTop : cpu.frameTop image = image.stackTop := program.frameTop_eq
  have free : image.Free (cpu.frameTop image) 56 := isTop ▸ Cpu.free_stackTop (by decide)
  have isHandler := @inHandler image cpu next back loaded free
  have top := @Cpu.stackTop_toNat image
  have bottom := isHandler.rsp
  have memory := isHandler.memory
  rw [isTop] at bottom memory
  have flags : (cpu.called image next back).rflags = cpu.rflags &&& ~~~0x34100 := rfl
  have isKernel : (cpu.called image next back).cs = 8 := rfl
  refine ⟨cpu.called image next back, run, rfl, ?_, bottom, by omega, ?_,
    fun register argument => isHandler.registers register ?_ ?_, ?_, memory,
    isHandler.loaded, fun returned returns => ⟨?_, fun position =>
      Cpu.keepsByte_resumed returns.loaded
        (program.resumable (canonical _ _ _ interrupts)), fun register saved => ?_⟩⟩
  · rw [Cpu.cpl, isKernel]
  · have mask : ~~~(0x34100 : UInt64) &&& 0x200 = 0x200 := by decide
    rw [flags, UInt64.and_assoc, mask]
  · rintro rfl
    exact absurd argument (by decide)
  · rintro rfl
    exact absurd argument (by decide)
  · exact Cpu.loadWord_eq isHandler.stacked.2
  · exact isHandler.run_back free loaded (program.ownData loaded) program.selectors
      (program.resumable (canonical _ _ _ interrupts)) rest last returns
  · rw [returns.saved register saved]
    refine isHandler.registers register ?_ ?_
    · rintro rfl
      exact absurd saved (by decide)
    · rintro rfl
      exact absurd saved (by decide)

/-- Sample addresses of the two routines. -/
def sampleLines : List (UInt64 × Instruction × UInt64) :=
  [(0x500000, .load 8 .rsp .rax, 0x500005), (0x500005, .int 0x80, 0x500007),
    (0x500007, .ret, 0x500008), (0x401000, .push .rax, 0x401001),
    (0x401001, .call 0x403000, 0x401006), (0x401006, .add 8 .rsp, 0x40100A),
    (0x40100A, .iretq, 0x40100C)]

def sampleCode : Code := fun address => sampleLines.lookup address

theorem sampleCode_canonical (address : UInt64) (instruction : Instruction) (next : UInt64)
    (here : sampleCode address = some (instruction, next)) : Canonical next.toNat := by
  obtain ⟨before, after, isList, _⟩ := List.lookup_eq_some_iff.mp here
  have member : (address, instruction, next) ∈ sampleLines := by
    rw [isList]
    exact List.mem_append_right _ (List.mem_cons_self ..)
  have lines : ∀ line ∈ sampleLines, Canonical line.2.2.toNat := by decide
  exact lines _ member

/-- A program makes a system call. -/
theorem syscall_round_trip_sample :
    ∃ called, sampleCode.Run sampleCpu called ∧ called.rip = 0x403000 ∧ called.cpl = 0 := by
  obtain ⟨called, run, rip, cpl, _⟩ := syscall_round_trip sampleImage sampleCode sampleCpu
    sampleCpu_loaded sampleCpu_inProgram
    ⟨_, rfl, _, rfl, _, rfl, trivial⟩ ⟨_, rfl, _, rfl, _, rfl, _, rfl, trivial⟩
    sampleCode_canonical
  exact ⟨called, run, rip, cpl⟩

end StarterKernel
