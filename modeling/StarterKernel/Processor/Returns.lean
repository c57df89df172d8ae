import StarterKernel.Processor.Loaded

/-!
# Returning from handlers

With the tables of the kernel `iretq` goes back to exactly the code that runs with the
selectors of those tables.
-/

namespace StarterKernel

/-- The code that a handler can return to. -/
def Resumable (rip : UInt64) (cs ss : Nat) : Prop :=
  Canonical rip.toNat ∧
    (cs = kernelCodeSelector ∧ (ss < 4 ∨ ss = kernelDataSelector) ∨
      cs = userCodeSelector ||| 3 ∧ ss = userDataSelector ||| 3)

instance instDecidableResumable (rip : UInt64) (cs ss : Nat) :
    Decidable (Resumable rip cs ss) :=
  inferInstanceAs (Decidable (_ ∧ _))

namespace Cpu

variable {cpu : Cpu} {image : KernelImage}

/-- The ordinary segments of the table, and that there is no other. -/
theorem Loaded.segmentAt_cases (loaded : cpu.Loaded image) (selector : Nat) :
    (selector / 4 = 2 ∧ cpu.segmentAt selector = some (.ofAccess 0 0 0x9A 0x2)) ∨
    (selector / 4 = 4 ∧ cpu.segmentAt selector = some (.ofAccess 0 0 0x92 0)) ∨
    (selector / 4 = 6 ∧ cpu.segmentAt selector = some (.ofAccess 0 0 0xFA 0x2)) ∨
    (selector / 4 = 8 ∧ cpu.segmentAt selector = some (.ofAccess 0 0 0xF2 0)) ∨
    (selector / 4 ∉ [2, 4, 6, 8] ∧ (isNull selector = true ∨ cpu.segmentAt selector = none ∨
      ∃ segment, cpu.segmentAt selector = some segment ∧ segment.ordinary = false)) := by
  obtain ⟨kernelCode, kernelData, userCode, userData⟩ :=
    @GdtState.gdtSetup_segments image.gdtState image.gdt
  have listed : selector / 4 ∈ [2, 4, 6, 8] ↔
      selector / 4 = 2 ∨ selector / 4 = 4 ∨ selector / 4 = 6 ∨ selector / 4 = 8 := by
    simp only [List.mem_cons, List.not_mem_nil, or_false]
  rw [loaded.segmentAt_eq, listed]
  by_cases inTable : selector / 4 % 2 = 0 ∧ selector / 8 < 7
  · rw [if_pos inTable]
    have index : selector / 8 = 1 ∨ selector / 8 = 2 ∨ selector / 8 = 3 ∨ selector / 8 = 4 ∨
        selector / 8 = 0 ∨ selector / 8 = 5 ∨ selector / 8 = 6 := by omega
    rcases index with one | two | three | four | null | five | six
    · rw [one]
      exact Or.inl ⟨by omega, congrArg some kernelCode⟩
    · rw [two]
      exact Or.inr (Or.inl ⟨by omega, congrArg some kernelData⟩)
    · rw [three]
      exact Or.inr (Or.inr (Or.inl ⟨by omega, congrArg some userCode⟩))
    · rw [four]
      exact Or.inr (Or.inr (Or.inr (Or.inl ⟨by omega, congrArg some userData⟩)))
    · exact Or.inr (Or.inr (Or.inr (Or.inr
        ⟨by omega, Or.inl (decide_eq_true (by omega))⟩)))
    · rw [five]
      exact Or.inr (Or.inr (Or.inr (Or.inr
        ⟨by omega, Or.inr (Or.inr ⟨_, rfl, GdtState.gdtSetup_system.1⟩)⟩)))
    · rw [six]
      exact Or.inr (Or.inr (Or.inr (Or.inr
        ⟨by omega, Or.inr (Or.inr ⟨_, rfl, GdtState.gdtSetup_system.2⟩)⟩)))
  · rw [if_neg inTable]
    exact Or.inr (Or.inr (Or.inr (Or.inr ⟨by omega, Or.inr (Or.inl rfl)⟩)))

/-- A selector of no ordinary segment is no code selector. -/
theorem codeFault_of_none {selector : Nat} (allowed : Segment -> Bool)
    (none : isNull selector = true ∨ cpu.segmentAt selector = none ∨
      ∃ segment, cpu.segmentAt selector = some segment ∧ segment.ordinary = false) :
    cpu.codeFault selector allowed = some .generalProtection := by
  rw [codeFault]
  rcases none with null | none | ⟨segment, isSome, system⟩
  · rw [if_pos null]
  · rw [none, ite_self]
  · rw [isSome]
    simp only [system, Bool.false_and, if_true, ite_self]

theorem stackFault_of_none {selector newCpl : Nat} (notNull : isNull selector = false)
    (none : isNull selector = true ∨ cpu.segmentAt selector = none ∨
      ∃ segment, cpu.segmentAt selector = some segment ∧ segment.ordinary = false) :
    cpu.stackFault newCpl selector = some .generalProtection := by
  rw [stackFault, notNull, if_neg Bool.false_ne_true]
  rcases none with null | none | ⟨segment, isSome, system⟩
  · exact absurd null (by rw [notNull]; decide)
  · rw [none]
  · rw [isSome]
    simp only [system, Bool.false_and, if_true]

/-- The code selectors that a return to their level may load. -/
theorem Loaded.codeFault_return (loaded : cpu.Loaded image) (cs : Nat) :
    (cpu.codeFault cs fun segment =>
      if segment.conforming then segment.dpl ≤ cs % 4 else segment.dpl = cs % 4) =
      if cs = kernelCodeSelector ∨ cs = userCodeSelector ||| 3 then none
      else some .generalProtection := by
  have kernelCode : kernelCodeSelector = 8 := rfl
  have userCode : userCodeSelector ||| 3 = 27 := rfl
  rw [kernelCode, userCode]
  rcases loaded.segmentAt_cases cs with ⟨is, isSome⟩ | ⟨is, isSome⟩ | ⟨is, isSome⟩ |
    ⟨is, isSome⟩ | ⟨not, isNone⟩
  · have notNull : isNull cs = false := decide_eq_false (by omega)
    rw [codeFault, notNull, isSome]
    by_cases isCode : cs = 8
    · subst isCode
      rfl
    · have level : 0 ≠ cs % 4 := by omega
      have other : ¬(cs = 8 ∨ cs = 27) := by omega
      rw [if_neg other]
      simp [Segment.ofAccess, Nat.testBit, level]
  · have notNull : isNull cs = false := decide_eq_false (by omega)
    have other : ¬(cs = 8 ∨ cs = 27) := by omega
    rw [codeFault, notNull, isSome, if_neg other]
    rfl
  · have notNull : isNull cs = false := decide_eq_false (by omega)
    rw [codeFault, notNull, isSome]
    by_cases isCode : cs = 27
    · subst isCode
      rfl
    · have level : 3 ≠ cs % 4 := by omega
      have other : ¬(cs = 8 ∨ cs = 27) := by omega
      rw [if_neg other]
      simp [Segment.ofAccess, Nat.testBit, level]
  · have notNull : isNull cs = false := decide_eq_false (by omega)
    have other : ¬(cs = 8 ∨ cs = 27) := by omega
    rw [codeFault, notNull, isSome, if_neg other]
    rfl
  · have other : ¬(cs = 8 ∨ cs = 27) := fun isCode =>
      not (by rcases isCode with rfl | rfl <;> decide)
    rw [codeFault_of_none _ isNone, if_neg other]

/-- The stack selectors that a return may load. -/
theorem Loaded.stackFault_return (loaded : cpu.Loaded image) (newCpl ss : Nat) :
    cpu.stackFault newCpl ss =
      if newCpl ≠ 3 ∧ ss < 4 ∨ newCpl = 0 ∧ ss = kernelDataSelector ∨
          newCpl = 3 ∧ ss = userDataSelector ||| 3 then none
      else some .generalProtection := by
  have kernelData : kernelDataSelector = 16 := rfl
  have userData : userDataSelector ||| 3 = 35 := rfl
  rw [kernelData, userData]
  by_cases null : ss < 4
  · have isNull : isNull ss = true := decide_eq_true (by omega)
    rw [stackFault, if_pos isNull]
    by_cases user : newCpl = 3
    · have lost : ¬(newCpl ≠ 3 ∧ ss < 4 ∨ newCpl = 0 ∧ ss = 16 ∨ newCpl = 3 ∧ ss = 35) := by
        omega
      rw [if_pos user, if_neg lost]
    · rw [if_neg user, if_pos (Or.inl ⟨user, null⟩)]
  · have notNull : isNull ss = false := decide_eq_false (by omega)
    have exact (other : ¬(newCpl = 0 ∧ ss = 16 ∨ newCpl = 3 ∧ ss = 35)) :
        ¬(newCpl ≠ 3 ∧ ss < 4 ∨ newCpl = 0 ∧ ss = 16 ∨ newCpl = 3 ∧ ss = 35) := by omega
    rcases loaded.segmentAt_cases ss with ⟨is, isSome⟩ | ⟨is, isSome⟩ | ⟨is, isSome⟩ |
      ⟨is, isSome⟩ | ⟨not, isNone⟩
    · rw [stackFault, notNull, isSome, if_neg (exact (by omega))]
      rfl
    · rw [stackFault, notNull, isSome]
      by_cases isData : newCpl = 0 ∧ ss = 16
      · obtain ⟨rfl, rfl⟩ := isData
        rfl
      · rw [if_neg (exact (by omega))]
        have level : ¬(0 = newCpl ∧ ss % 4 = newCpl) := by omega
        simp [Segment.ofAccess, Nat.testBit, level]
    · rw [stackFault, notNull, isSome, if_neg (exact (by omega))]
      rfl
    · rw [stackFault, notNull, isSome]
      by_cases isData : newCpl = 3 ∧ ss = 35
      · obtain ⟨rfl, rfl⟩ := isData
        rfl
      · rw [if_neg (exact (by omega))]
        have level : ¬(3 = newCpl ∧ ss % 4 = newCpl) := by omega
        simp [Segment.ofAccess, Nat.testBit, level]
    · rw [stackFault_of_none notNull isNone, if_neg (exact fun isData =>
        not (by rcases isData with ⟨_, rfl⟩ | ⟨_, rfl⟩ <;> decide))]

theorem fault_or {p q : Prop} [Decidable p] [Decidable q] {fault : Fault} :
    (if p then none else some fault).or (if q then none else some fault) =
      if p ∧ q then none else some fault := by
  by_cases left : p
  · rw [if_pos left, Option.none_or]
    exact if_congr (by simp only [left, true_and]) rfl rfl
  · rw [if_neg left, Option.some_or, if_neg fun both => left both.1]

/-- From the kernel `iretq` goes back to exactly the code that can be resumed. -/
theorem Loaded.returnFault_eq (loaded : cpu.Loaded image) (kernel : cpu.cpl = 0) (rip : UInt64)
    (cs ss : Nat) :
    cpu.returnFault rip cs ss =
      if Resumable rip cs ss then none else some .generalProtection := by
  rw [returnFault, kernel, if_neg (Nat.not_lt_zero _), loaded.codeFault_return,
    loaded.stackFault_return, fault_or, fault_or]
  refine if_congr ?_ rfl rfl
  have kernelCode : kernelCodeSelector = 8 := rfl
  have userCode : userCodeSelector ||| 3 = 27 := rfl
  rw [Resumable, kernelCode, userCode, ← and_assoc, and_comm]
  exact and_congr_right fun _ => by omega

/-- The processor after a return with these values. -/
def returnedTo (cpu : Cpu) (rip : UInt64) (cs : Nat) (flags rsp : UInt64) (ss : Nat) : Cpu :=
  { ((cpu.setRegister .rsp rsp).markAccessed cs).markAccessed ss with
    rip := rip
    rflags := flags
    cs := cs
    ss := ss
    data := fun name =>
      if 0 < cs % 4 ∧ cpu.isLost (cs % 4) (cpu.data name) = true then 0 else cpu.data name }

/-- What `iretq` does in the kernel with a frame on the stack. -/
theorem Loaded.returnFromHandler_eq (loaded : cpu.Loaded image) (kernel : cpu.cpl = 0)
    {rip cs flags rsp ss : UInt64}
    (stacked : Stacked cpu.memory cpu.rsp [rip, cs, flags, rsp, ss]) :
    cpu.returnFromHandler =
      if Resumable rip (cs.toNat % 2 ^ 16) (ss.toNat % 2 ^ 16) then
        .ok (cpu.returnedTo rip (cs.toNat % 2 ^ 16) flags rsp (ss.toNat % 2 ^ 16))
      else .error .generalProtection := by
  have kept : cpu.keptFlags = 0 := if_pos kernel
  have same : (flags &&& ~~~(0 : UInt64)) ||| (cpu.rflags &&& 0) = flags := by simp
  rw [returnFromHandler]
  simp only [loadWord_eq stacked, loadWord_eq stacked.2, loadWord_eq stacked.2.2,
    loadWord_eq stacked.2.2.2, loadWord_eq stacked.2.2.2.2, loaded.returnFault_eq kernel, kept,
    same, kernel]
  by_cases resumable : Resumable rip (cs.toNat % 2 ^ 16) (ss.toNat % 2 ^ 16)
  · simp only [if_pos resumable]
    rfl
  · simp only [if_neg resumable]

/-- A selector is pushed whole. -/
theorem toNat_selector {selector : Nat} (small : selector < 2 ^ 16) :
    (UInt64.ofNat selector).toNat % 2 ^ 16 = selector := by
  rw [UInt64.toNat_ofNat']
  omega

/-- The segments that code can be resumed with have their accessed bits in the table. -/
theorem accessBytes_of_resumable {rip : UInt64} {cs ss : Nat} (resumable : Resumable rip cs ss) :
    cs / 8 * 8 + 5 ∈ accessBytes ∧ (isNull ss = true ∨ ss / 8 * 8 + 5 ∈ accessBytes) := by
  rcases resumable.2 with ⟨rfl, null | rfl⟩ | ⟨rfl, rfl⟩
  · exact ⟨by decide, Or.inl (decide_eq_true (by omega))⟩
  · exact ⟨by decide, Or.inr (by decide)⟩
  · exact ⟨by decide, Or.inr (by decide)⟩

/-- A return writes no memory but accessed bits. -/
theorem keepsByte_returnedTo (loaded : cpu.Loaded image) {rip flags rsp : UInt64} {cs ss : Nat}
    {position : Nat} (resumable : Resumable rip cs ss) :
    image.KeepsByte cpu.memory (cpu.returnedTo rip cs flags rsp ss).memory position := by
  obtain ⟨code, stack⟩ := accessBytes_of_resumable resumable
  have isGdt : cpu.gdtr.2 = image.gdt.gdt.toNat := congrArg Prod.snd loaded.gdtr_eq
  exact KernelImage.KeepsByte.trans (keepsByte_markAccessed isGdt (Or.inr code))
    (@keepsByte_markAccessed (cpu.markAccessed cs) _ _ _ isGdt stack)

/-- What the body of a handler of an interrupt leaves as it was: the registers, the tables
and the frame. -/
structure Handled (image : KernelImage) (entered handled : Cpu) : Prop where
  registers : handled.registers = entered.registers
  cs : handled.cs = entered.cs
  data : handled.data = entered.data
  task : handled.task = entered.task
  loaded : handled.Loaded image
  frame : ∀ position, entered.rsp.toNat ≤ position -> position < entered.rsp.toNat + 40 ->
    handled.memory position = entered.memory position

/-- The segments of the code are of its own level. -/
def OwnData (cpu : Cpu) : Prop :=
  ∀ name, 0 < cpu.cpl -> cpu.isLost cpu.cpl (cpu.data name) = false

theorem InProgram.ownData (program : cpu.InProgram) (loaded : cpu.Loaded image) :
    cpu.OwnData := fun name _ => by
  rw [program.cpl_eq, program.data]
  exact loaded.isLost_userData

theorem InProgram.selectors (program : cpu.InProgram) : cpu.cs < 2 ^ 16 ∧ cpu.ss < 2 ^ 16 := by
  rw [program.cs, program.ss]
  decide

theorem InProgram.resumable (program : cpu.InProgram) {rip : UInt64}
    (canonical : Canonical rip.toNat) : Resumable rip cpu.cs cpu.ss :=
  ⟨canonical, Or.inr ⟨program.cs, program.ss⟩⟩

theorem Loaded.isLost_eq {other : Cpu} (loaded : cpu.Loaded image)
    (otherLoaded : other.Loaded image) (newCpl selector : Nat) :
    other.isLost newCpl selector = cpu.isLost newCpl selector := by
  rw [isLost, isLost, otherLoaded.segmentAt_eq, loaded.segmentAt_eq]

theorem task_entered {call : IdtCall} : (cpu.entered image call).task = cpu.task :=
  (@tables_pushAll (cpu.setRegister .rsp (cpu.frameTop image)) cpu.frame).2.1

theorem cpl_entered {call : IdtCall} : (cpu.entered image call).cpl = 0 := by
  have isKernel : (cpu.entered image call).cs = 8 := rfl
  rw [cpl, isKernel]

/-- The code goes on where it was, with the memory that the handler leaves.  Its code and
stack segments have been loaded. -/
def resumed (cpu handled : Cpu) : Cpu :=
  { cpu with memory := ((handled.markAccessed cpu.cs).markAccessed cpu.ss).memory }

theorem keepsByte_resumed {handled : Cpu} {rip : UInt64} {position : Nat}
    (loaded : handled.Loaded image) (resumable : Resumable rip cpu.cs cpu.ss) :
    image.KeepsByte handled.memory (cpu.resumed handled).memory position :=
  @keepsByte_returnedTo handled image loaded rip cpu.rflags cpu.rsp _ _ position resumable

/-- A return to code with its own segments resumes it. -/
theorem returnedTo_eq_resumed {handled : Cpu} {rip rsp : UInt64} (loaded : cpu.Loaded image)
    (handledLoaded : handled.Loaded image) (own : cpu.OwnData)
    (task : handled.task = cpu.task) (data : handled.data = cpu.data) :
    handled.returnedTo rip cpu.cs cpu.rflags rsp cpu.ss =
      { cpu.resumed handled with
        registers := Function.update handled.registers .rsp rsp
        rip := rip } := by
  have gdtr : handled.gdtr = cpu.gdtr := handledLoaded.gdtr_eq.trans loaded.gdtr_eq.symm
  have idtr : handled.idtr = cpu.idtr := handledLoaded.idtr.trans loaded.idtr.symm
  simp only [returnedTo, resumed, markAccessed, setRegister, Cpu.mk.injEq, true_and, gdtr, idtr,
    task, and_true]
  funext name
  rw [congrFun data name, loaded.isLost_eq handledLoaded]
  exact if_neg fun lost => Bool.false_ne_true ((own name lost.1).symm.trans lost.2)

/-- Returning with the values that were pushed restores the code. -/
theorem returnedTo_entered {call : IdtCall} {handled : Cpu}
    (isHandled : Handled image (cpu.entered image call) handled) (loaded : cpu.Loaded image)
    (own : cpu.OwnData) :
    handled.returnedTo cpu.rip cpu.cs cpu.rflags cpu.rsp cpu.ss = cpu.resumed handled := by
  have registers : Function.update handled.registers .rsp cpu.rsp = cpu.registers := by
    funext register
    by_cases stack : register = .rsp
    · rw [stack, Function.update_self, rsp]
    · rw [Function.update_of_ne stack, isHandled.registers, registers_entered stack]
  rw [returnedTo_eq_resumed loaded isHandled.loaded own (isHandled.task.trans task_entered)
    isHandled.data, registers]
  rfl

end Cpu

open Cpu in
/-- Whatever code an interrupt through a gate of the kernel comes to, it reaches the
handler, and when the handler returns the code goes on exactly as before if it can be
resumed; otherwise the return raises a general protection fault in the kernel.  Entering
and returning write no memory but the frame and the accessed bits of segments. -/
theorem interrupt_resumes (image : KernelImage) (cpu : Cpu) (call : IdtCall)
    (member : call ∈ bootCalls image.handlers) (loaded : cpu.Loaded image)
    (free : image.Free (cpu.frameTop image) 40) (own : cpu.OwnData)
    (selectors : cpu.cs < 2 ^ 16 ∧ cpu.ss < 2 ^ 16) :
    cpu.enterHandler call.index false none = .ok (cpu.entered image call) ∧
      (cpu.entered image call).rip = call.fn ∧ (cpu.entered image call).cpl = 0 ∧
      (cpu.entered image call).Loaded image ∧
      (∀ position, position + 40 < (cpu.frameTop image).toNat ∨
          (cpu.frameTop image).toNat ≤ position ->
        image.KeepsByte cpu.memory (cpu.entered image call).memory position) ∧
      ∀ handled, Handled image (cpu.entered image call) handled ->
        handled.returnFromHandler =
          (if Resumable cpu.rip cpu.cs cpu.ss then .ok (cpu.resumed handled)
          else .error .generalProtection) ∧
        (Resumable cpu.rip cpu.cs cpu.ss -> ∀ position,
          image.KeepsByte handled.memory (cpu.resumed handled).memory position) := by
  refine ⟨loaded.enterHandler_eq member false, rfl, cpl_entered, loaded.entered free,
    fun position outside => keepsByte_entered loaded free.1 outside,
    fun handled isHandled => ⟨?_, fun resumable position =>
      keepsByte_resumed isHandled.loaded resumable⟩⟩
  have sameRsp : handled.rsp = (cpu.entered image call).rsp := congrFun isHandled.registers .rsp
  have length : cpu.frame.reverse.length = 5 := rfl
  have bottom := @rsp_entered cpu image call free.1
  have fits := (cpu.frameTop image).toNat_lt
  have room := free.1
  have stacked : Stacked handled.memory handled.rsp
      [cpu.rip, UInt64.ofNat cpu.cs, cpu.rflags, cpu.rsp, UInt64.ofNat cpu.ss] := by
    rw [sameRsp]
    refine (stacked_entered loaded free).congr ?_ fun position above below =>
      isHandled.frame position above ?_
    · rw [length]
      omega
    · rw [length] at below
      exact below
  have kernel : handled.cpl = 0 := (congrArg (· % 4) isHandled.cs).trans cpl_entered
  rw [isHandled.loaded.returnFromHandler_eq kernel stacked, toNat_selector selectors.1,
    toNat_selector selectors.2, returnedTo_entered isHandled loaded own]

/-- The keyboard interrupts a program. -/
theorem interrupt_resumes_keyboard :
    sampleCpu.enterHandler 0x21 false none =
      .ok (sampleCpu.entered sampleImage (keyboardCall sampleImage.handlers)) :=
  (interrupt_resumes sampleImage sampleCpu (keyboardCall sampleImage.handlers)
    (keyboardCall_mem _) sampleCpu_loaded
    (sampleCpu_inProgram.frameTop_eq ▸ Cpu.free_stackTop (by decide))
    (sampleCpu_inProgram.ownData sampleCpu_loaded) sampleCpu_inProgram.selectors).1

/-- `_start` still runs with the selector of the bootloader, which is in the descriptor of
the task by then. -/
example (rip : UInt64) (ss : Nat) : ¬Resumable rip 0x28 ss := by
  rintro ⟨_, ⟨kernel, _⟩ | ⟨program, _⟩⟩
  · exact absurd kernel (by decide)
  · exact absurd program (by decide)

end StarterKernel
