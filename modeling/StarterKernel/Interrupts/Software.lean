import StarterKernel.Processor.Returns

/-!
# Interrupts by programs

Every gate that the kernel sets may be used at the level of programs, so `int` takes a
program to the handler of any vector that has one.
-/

namespace StarterKernel

variable {image : KernelImage} {cpu : Cpu} {v : UInt8}

/-- A vector that the kernel did not set has no gate. -/
theorem Cpu.Loaded.gateFault_unset (loaded : cpu.Loaded image) (software : Bool)
    (unset : ∀ call ∈ bootCalls image.handlers, call.index ≠ v) :
    cpu.gateFault v software = some .generalProtection := by
  have small := v.toNat_lt
  have others : v ∉ (bootCalls image.handlers).map IdtCall.index := fun member => by
    obtain ⟨call, isCall, isVector⟩ := List.mem_map.mp member
    exact unset call isCall isVector
  have zero := (holds_cleared image.idtBytes v).installs_other others
  rw [← bootIdt_eq] at zero
  have flags : ByteMemory.load (bootIdt image.handlers image.idtBytes) (16 * v.toNat + 5) 1 = 0 :=
    ByteMemory.load_eq_zero fun offset bound => by
      rw [Nat.add_assoc]
      exact zero _ (by omega)
  have type : (cpu.gate v).type = 0 := by
    rw [loaded.gate_eq, Gate.decode, flags]
    exact Nat.zero_mod _
  have inTable : ¬idtSize < 16 * v.toNat + 15 := by unfold idtSize; omega
  rw [Cpu.gateFault, loaded.idtr, if_neg inTable, type]
  exact if_pos (by decide)

/-- What `int` does in a program, for every vector.  A vector of the kernel leads to its
handler at level 0 on the interrupt stack, where the handlers of exceptions with an error
code find the address of the next instruction of the program instead.  Any other vector is
a general protection fault. -/
theorem program_interrupts (image : KernelImage) (cpu : Cpu) (loaded : cpu.Loaded image)
    (program : cpu.InProgram) (v : UInt8) (next : UInt64) :
    (∀ call ∈ bootCalls image.handlers, call.index = v ->
      ∃ entered, cpu.execute (.int v) next = .ok entered ∧ entered.rip = call.fn ∧
        entered.cpl = 0 ∧ entered.rsp.toNat = image.stackTop.toNat - 40 ∧
        entered.loadWord entered.rsp = next ∧ entered.Loaded image) ∧
    ((∀ call ∈ bootCalls image.handlers, call.index ≠ v) ->
      cpu.execute (.int v) next = .error .generalProtection) := by
  have atNext := loaded.jump next
  have top : (cpu.jump next).frameTop image = image.stackTop :=
    Cpu.InProgram.frameTop_eq ⟨program.cs, program.ss, program.data⟩
  have free : image.Free ((cpu.jump next).frameTop image) 40 :=
    top ▸ Cpu.free_stackTop (by decide)
  constructor
  · rintro call member rfl
    refine ⟨(cpu.jump next).entered image call, atNext.enterHandler_eq member true, rfl,
      Cpu.cpl_entered, ?_, ?_, atNext.entered free⟩
    · rw [Cpu.rsp_entered free.1, top]
    · exact Cpu.loadWord_eq (Cpu.stacked_entered atNext free)
  · intro unset
    have fault := atNext.gateFault_unset true unset
    have executed : cpu.execute (.int v) next =
        (cpu.jump next).enterHandler v true none := rfl
    rw [executed, Cpu.enterHandler, fault]

/-- A program asks for the divide error, which has no handler. -/
theorem program_interrupts_sample :
    sampleCpu.execute (.int 0) 0x500002 = .error .generalProtection :=
  (program_interrupts sampleImage sampleCpu sampleCpu_loaded sampleCpu_inProgram 0
    0x500002).2 fun call member isVector => by
      have indices : call.index ∈ (bootCalls sampleImage.handlers).map IdtCall.index :=
        List.mem_map_of_mem member
      rw [bootCalls_indices, isVector] at indices
      exact absurd indices (by decide)

end StarterKernel
