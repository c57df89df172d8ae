import StarterKernel.Processor.Stack
import StarterKernel.Processor.Vectors

/-!
# The processor with the tables of the kernel

Once `_start` has loaded its tables the processor finds the kernel's segments, gates and
interrupt stack, as long as the tables stay in memory.
-/

namespace StarterKernel

open ByteMemory

/-- Where the linker puts the variables and the routines of the kernel, and what the
variables hold before `_start`.  They are apart from each other. -/
structure KernelImage where
  gdt : GdtSymbols
  gdtState : GdtState
  gdtSize : gdtState.gdtSize = 0
  idt : UInt64
  idtBytes : Idt
  handlers : HandlerSymbols
  syscallHandler : UInt64
  stackFits : gdt.interruptStack.toNat + 0x8000 ≤ 2 ^ 64
  stackApart : ∀ position, gdt.interruptStack.toNat ≤ position ->
    position < gdt.interruptStack.toNat + 0x8000 ->
      (position < gdt.gdt.toNat ∨ gdt.gdt.toNat + maxGdtSize ≤ position) ∧
        (position < gdt.tss.toNat ∨ gdt.tss.toNat + tssSize ≤ position) ∧
          (position < idt.toNat ∨ idt.toNat + idtSize ≤ position)
  gdtApart : ∀ position, gdt.gdt.toNat ≤ position -> position < gdt.gdt.toNat + maxGdtSize ->
    (position < gdt.tss.toNat ∨ gdt.tss.toNat + tssSize ≤ position) ∧
      (position < idt.toNat ∨ idt.toNat + idtSize ≤ position)

namespace KernelImage

/-- The variables of `gdt.c` after `gdt_setup`. -/
def gdtAfter (image : KernelImage) : GdtState := image.gdtState.gdtSetup image.gdt

/-- The bytes of the tables. -/
def InTable (image : KernelImage) (position : Nat) : Prop :=
  (image.gdt.gdt.toNat ≤ position ∧ position < image.gdt.gdt.toNat + maxGdtSize) ∨
    (image.gdt.tss.toNat ≤ position ∧ position < image.gdt.tss.toNat + tssSize) ∨
      (image.idt.toNat ≤ position ∧ position < image.idt.toNat + idtSize)

/-- A byte of memory is as before, or it holds the accessed bit of a segment, which has
been set. -/
def KeepsByte (image : KernelImage) (memory other : Nat -> UInt8) (position : Nat) : Prop :=
  other position = memory position ∨
    (∃ byte ∈ accessBytes, position = image.gdt.gdt.toNat + byte) ∧
      other position = memory position ||| 1

/-- The end of the interrupt stack, where the frames begin. -/
def stackTop (image : KernelImage) : UInt64 :=
  UInt64.ofNat ((image.gdt.interruptStack + 0x7FF8).toNat / 16 * 16)

/-- Some bytes below a stack pointer are outside the tables. -/
def Free (image : KernelImage) (stack : UInt64) (size : Nat) : Prop :=
  size ≤ stack.toNat ∧ ∀ position, stack.toNat ≤ position + size -> position < stack.toNat ->
    ¬image.InTable position

variable {image : KernelImage} {memory other : Nat -> UInt8} {position : Nat}

theorem Free.mono {stack : UInt64} {size smaller : Nat} (free : image.Free stack size)
    (less : smaller ≤ size) : image.Free stack smaller :=
  ⟨le_trans less free.1, fun position above below => free.2 position (by omega) below⟩

theorem accessBytes_lt {byte : Nat} (member : byte ∈ accessBytes) : byte < maxGdtSize := by
  revert byte
  decide

theorem or_one_or_one (byte : UInt8) : byte ||| 1 ||| 1 = byte ||| 1 := by
  rw [UInt8.or_assoc, UInt8.or_self]

theorem KeepsByte.trans {last : Nat -> UInt8} (first : image.KeepsByte memory other position)
    (second : image.KeepsByte other last position) : image.KeepsByte memory last position := by
  rcases first with same | ⟨listed, accessed⟩
  · rwa [KeepsByte, same] at second
  · refine Or.inr ⟨listed, ?_⟩
    rcases second with same | ⟨_, again⟩
    · rw [same, accessed]
    · rw [again, accessed, or_one_or_one]

/-- Accessed bits are in the table. -/
theorem KeepsByte.eq_of_outside (keeps : image.KeepsByte memory other position)
    (outside : position < image.gdt.gdt.toNat ∨ image.gdt.gdt.toNat + maxGdtSize ≤ position) :
    other position = memory position := by
  refine keeps.resolve_right fun accessed => ?_
  obtain ⟨byte, member, rfl⟩ := accessed.1
  have inside := accessBytes_lt member
  omega

theorem KeepsByte.eq_of_not_inTable (keeps : image.KeepsByte memory other position)
    (outside : ¬image.InTable position) : other position = memory position := by
  refine keeps.eq_of_outside ?_
  by_contra inGdt
  exact outside (Or.inl (by omega))

end KernelImage

/-- The tables are in memory and in use.  The accessed bits of the segments may be set. -/
structure Cpu.Loaded (cpu : Cpu) (image : KernelImage) : Prop where
  gdtr : cpu.gdtr = image.gdtAfter.gdtr
  taskBase : cpu.task.base = image.gdt.tss.toNat
  taskLimit : cpu.task.limit = tssSize
  idtr : cpu.idtr = (idtSize, image.idt.toNat)
  gdt : ∀ position < maxGdtSize,
    cpu.memory (image.gdt.gdt.toNat + position) = image.gdtAfter.gdt position ∨
      position ∈ accessBytes ∧
        cpu.memory (image.gdt.gdt.toNat + position) = image.gdtAfter.gdt position ||| 1
  tss : ∀ position < tssSize,
    cpu.memory (image.gdt.tss.toNat + position) = image.gdtAfter.tss position
  idt : ∀ position < idtSize,
    cpu.memory (image.idt.toNat + position) = bootIdt image.handlers image.idtBytes position

namespace Cpu

variable {cpu other : Cpu} {image : KernelImage}

/-- The tables are in use when `_start` has set them up. -/
theorem loaded_of_setup (gdtr : cpu.gdtr = image.gdtAfter.gdtr)
    (task : cpu.task = .decode image.gdtAfter.gdt image.gdtAfter.tr)
    (idtr : cpu.idtr = (idtSize, image.idt.toNat))
    (gdt : ∀ position < maxGdtSize,
      cpu.memory (image.gdt.gdt.toNat + position) = image.gdtAfter.gdt position)
    (tss : ∀ position < tssSize,
      cpu.memory (image.gdt.tss.toNat + position) = image.gdtAfter.tss position)
    (idt : ∀ position < idtSize,
      cpu.memory (image.idt.toNat + position) =
        bootIdt image.handlers image.idtBytes position) :
    cpu.Loaded image where
  gdtr := gdtr
  taskBase := (congrArg TaskSegment.base task).trans
    (congrArg TaskSegment.base GdtState.gdtSetup_task)
  taskLimit := (congrArg TaskSegment.limit task).trans
    (congrArg TaskSegment.limit GdtState.gdtSetup_task)
  idtr := idtr
  gdt position inside := Or.inl (gdt position inside)
  tss := tss
  idt := idt

/-- Setting accessed bits and writing elsewhere keeps the tables. -/
theorem Loaded.kept (loaded : cpu.Loaded image) (gdtr : other.gdtr = cpu.gdtr)
    (task : other.task = cpu.task) (idtr : other.idtr = cpu.idtr)
    (keeps : ∀ position, image.InTable position ->
      image.KeepsByte cpu.memory other.memory position) :
    other.Loaded image where
  gdtr := gdtr.trans loaded.gdtr
  taskBase := task ▸ loaded.taskBase
  taskLimit := task ▸ loaded.taskLimit
  idtr := idtr.trans loaded.idtr
  gdt position inside := by
    have before := loaded.gdt position inside
    rcases keeps _ (Or.inl ⟨Nat.le_add_right _ _, Nat.add_lt_add_left inside _⟩) with
      same | ⟨⟨byte, member, isByte⟩, accessed⟩
    · rwa [same]
    · obtain rfl := Nat.add_left_cancel isByte
      refine Or.inr ⟨member, ?_⟩
      rw [accessed]
      rcases before with table | ⟨_, table⟩
      · rw [table]
      · rw [table, KernelImage.or_one_or_one]
  tss position inside := by
    have byte := keeps (image.gdt.tss.toNat + position)
      (Or.inr (Or.inl ⟨Nat.le_add_right _ _, Nat.add_lt_add_left inside _⟩))
    refine (byte.eq_of_outside ?_).trans (loaded.tss position inside)
    by_contra inGdt
    obtain ⟨apart, _⟩ := image.gdtApart (image.gdt.tss.toNat + position) (by omega) (by omega)
    omega
  idt position inside := by
    have byte := keeps (image.idt.toNat + position)
      (Or.inr (Or.inr ⟨Nat.le_add_right _ _, Nat.add_lt_add_left inside _⟩))
    refine (byte.eq_of_outside ?_).trans (loaded.idt position inside)
    by_contra inGdt
    obtain ⟨_, apart⟩ := image.gdtApart (image.idt.toNat + position) (by omega) (by omega)
    omega

/-- Writing elsewhere keeps the tables. -/
theorem Loaded.congr (loaded : cpu.Loaded image) (gdtr : other.gdtr = cpu.gdtr)
    (task : other.task = cpu.task) (idtr : other.idtr = cpu.idtr)
    (same : ∀ position, image.InTable position -> other.memory position = cpu.memory position) :
    other.Loaded image :=
  loaded.kept gdtr task idtr fun position inTable => Or.inl (same position inTable)

theorem Loaded.jump (loaded : cpu.Loaded image) (rip : UInt64) : (cpu.jump rip).Loaded image :=
  loaded.congr rfl rfl rfl fun _ _ => rfl

theorem tables_pushAll {values : List UInt64} :
    (cpu.pushAll values).gdtr = cpu.gdtr ∧
      (cpu.pushAll values).task = cpu.task ∧ (cpu.pushAll values).idtr = cpu.idtr := by
  rw [pushAll_eq]
  exact ⟨rfl, rfl, rfl⟩

/-- Pushing words into free memory keeps the tables. -/
theorem Loaded.pushAll (loaded : cpu.Loaded image) {values : List UInt64}
    (free : image.Free cpu.rsp (8 * values.length)) : (cpu.pushAll values).Loaded image := by
  have tables := @tables_pushAll cpu values
  refine loaded.congr tables.1 tables.2.1 tables.2.2 fun position inTable =>
    memory_pushAll free.1 ?_
  by_contra pushed
  exact free.2 position (by omega) (by omega) inTable

/-! ## Segments -/

theorem Loaded.gdtr_eq (loaded : cpu.Loaded image) :
    cpu.gdtr = (0x37, image.gdt.gdt.toNat) := by
  rw [loaded.gdtr, KernelImage.gdtAfter, GdtState.gdtSetup_gdtSize, image.gdtSize]
  rfl

theorem decode_offset {memory : Nat -> UInt8} {base address : Nat} :
    Segment.decode (fun position => memory (base + position)) address =
      Segment.decode memory (base + address) := by
  simp only [Segment.decode, load_offset, Nat.add_assoc]

/-- The segment of a selector is that of the kernel's table. -/
theorem Loaded.segmentAt_eq (loaded : cpu.Loaded image) (selector : Nat) :
    cpu.segmentAt selector =
      if selector / 4 % 2 = 0 ∧ selector / 8 < 7 then
        some (Segment.decode image.gdtAfter.gdt (selector / 8 * 8))
      else none := by
  rw [segmentAt, loaded.gdtr_eq]
  refine if_ctx_congr (and_congr_right fun _ => by omega) (fun inTable => ?_) fun _ => rfl
  rw [← decode_offset, Nat.mul_comm, @Segment.decode_accessed image.gdtAfter.gdt]
  intro position above below
  exact loaded.gdt _ (by unfold maxGdtSize; omega)

theorem Loaded.segmentAt_of (loaded : cpu.Loaded image) {selector index : Nat}
    (isIndex : selector / 8 = index) (table : selector / 4 % 2 = 0) (inside : index < 7) :
    cpu.segmentAt selector = some (Segment.decode image.gdtAfter.gdt (index * 8)) := by
  rw [loaded.segmentAt_eq, if_pos ⟨table, isIndex ▸ inside⟩, isIndex]

theorem Loaded.kernelCode (loaded : cpu.Loaded image) :
    cpu.segmentAt kernelCodeSelector = some (.ofAccess 0 0 0x9A 0x2) :=
  (@Loaded.segmentAt_of _ _ loaded _ 1 rfl rfl (by decide)).trans
    (congrArg some GdtState.gdtSetup_segments.1)

theorem Loaded.userData (loaded : cpu.Loaded image) :
    cpu.segmentAt (userDataSelector ||| 3) = some (.ofAccess 0 0 0xF2 0) :=
  (@Loaded.segmentAt_of _ _ loaded _ 4 rfl rfl (by decide)).trans
    (congrArg some GdtState.gdtSetup_segments.2.2.2)

/-- Programs may keep their data segment. -/
theorem Loaded.isLost_userData (loaded : cpu.Loaded image) :
    cpu.isLost 3 (userDataSelector ||| 3) = false := by
  rw [isLost, loaded.userData]
  rfl

/-! ## Gates -/

theorem gate_offset {memory : Nat -> UInt8} {base address : Nat} :
    Gate.decode (fun position => memory (base + position)) address =
      Gate.decode memory (base + address) := by
  simp only [Gate.decode, load_offset, Nat.add_assoc]

/-- The gate of a vector is that of the kernel's table. -/
theorem Loaded.gate_eq (loaded : cpu.Loaded image) (v : UInt8) :
    cpu.gate v = Gate.decode (bootIdt image.handlers image.idtBytes) (16 * v.toNat) := by
  have small := v.toNat_lt
  rw [gate, loaded.idtr, ← gate_offset,
    @Gate.decode_congr (bootIdt image.handlers image.idtBytes)]
  exact fun offset inside => loaded.idt _ (by unfold idtSize; omega)

/-- No gate names an entry of the interrupt stack table. -/
theorem Loaded.gateStack_eq (loaded : cpu.Loaded image) (v : UInt8) : cpu.gateStack v = 0 := by
  have small := v.toNat_lt
  have same : load cpu.memory (image.idt.toNat + (16 * v.toNat + 4)) 1 =
      load (bootIdt image.handlers image.idtBytes) (16 * v.toNat + 4) 1 := by
    rw [← load_offset]
    exact load_congr fun offset inside => loaded.idt _ (by unfold idtSize; omega)
  rw [gateStack, loaded.idtr, Nat.add_assoc, same, bootIdt_stack]

theorem Loaded.gate_of (loaded : cpu.Loaded image) {call : IdtCall}
    (member : call ∈ bootCalls image.handlers) : cpu.gate call.index = call.gate :=
  (loaded.gate_eq _).trans (bootIdt_decode member)

/-- A gate that the kernel set may be used at any level. -/
theorem Loaded.gateFault_eq (loaded : cpu.Loaded image) {call : IdtCall}
    (member : call ∈ bootCalls image.handlers) (software : Bool) :
    cpu.gateFault call.index software = none := by
  have small := call.index.toNat_lt
  have level : cpu.cpl < 4 := Nat.mod_lt _ (by decide)
  have inTable : ¬idtSize < 16 * call.index.toNat + 15 := by unfold idtSize; omega
  have type : ¬(call.gate.type ≠ 0xE ∧ call.gate.type ≠ 0xF) := fun other =>
    (bootCalls_type member).elim other.1 other.2
  have dpl : call.gate.dpl = 3 := rfl
  have allowed : ¬(software = true ∧ call.gate.dpl < cpu.cpl) := by omega
  have code : cpu.codeFault kernelCodeSelector (fun segment => segment.dpl ≤ cpu.cpl) = none := by
    rw [codeFault, loaded.kernelCode]
    simp [isNull, kernelCodeSelector, Segment.ofAccess, Nat.testBit]
  rw [gateFault, loaded.idtr, if_neg inTable, loaded.gate_of member, if_neg type,
    if_neg allowed, if_neg (Bool.noConfusion : ¬call.gate.present = false)]
  exact code

/-- The handlers run at level 0. -/
theorem Loaded.handlerCpl_eq (loaded : cpu.Loaded image) :
    cpu.handlerCpl kernelCodeSelector = 0 := by
  rw [handlerCpl, loaded.kernelCode]
  rfl

/-- Where the frame of a handler begins. -/
def frameTop (cpu : Cpu) (image : KernelImage) : UInt64 :=
  if cpu.cpl = 0 then UInt64.ofNat (cpu.rsp.toNat / 16 * 16) else image.stackTop

theorem Loaded.entryStack_eq (loaded : cpu.Loaded image) :
    UInt64.ofNat ((cpu.entryStack 0 0).toNat / 16 * 16) = cpu.frameTop image := by
  have rsp0 : load cpu.memory (image.gdt.tss.toNat + 4) 8 =
      (image.gdt.interruptStack + 0x7FF8).toNat := by
    rw [← load_offset, ← GdtState.gdtSetup_tss.1]
    exact load_congr fun offset inside => loaded.tss _ (by unfold tssSize; omega)
  rw [entryStack, if_neg (by decide), frameTop]
  by_cases kernel : cpu.cpl = 0
  · rw [if_pos kernel.symm, if_pos kernel]
  · rw [if_neg (Ne.symm kernel), if_neg kernel, loaded.taskBase, Nat.mul_zero, Nat.add_zero, rsp0,
      UInt64.ofNat_toNat, KernelImage.stackTop]

/-- What the processor pushes for a handler. -/
def frame (cpu : Cpu) : List UInt64 :=
  [UInt64.ofNat cpu.ss, cpu.rsp, cpu.rflags, UInt64.ofNat cpu.cs, cpu.rip]

/-- The processor at the first instruction of a handler. -/
def entered (cpu : Cpu) (image : KernelImage) (call : IdtCall) : Cpu :=
  { ((cpu.setRegister .rsp (cpu.frameTop image)).pushAll cpu.frame).markAccessed
      kernelCodeSelector with
    rip := call.fn
    rflags := cpu.rflags &&& ~~~entryFlags call.type.toNat
    cs := kernelCodeSelector
    ss := if cpu.cpl = 0 then cpu.ss else 0 }

/-- Every gate that the kernel set leads to its handler. -/
theorem Loaded.enterHandler_eq (loaded : cpu.Loaded image) {call : IdtCall}
    (member : call ∈ bootCalls image.handlers) (software : Bool) :
    cpu.enterHandler call.index software none = .ok (cpu.entered image call) := by
  have selector : call.gate.selector = kernelCodeSelector := rfl
  have offset : UInt64.ofNat call.gate.offset = call.fn := UInt64.ofNat_toNat
  have back : kernelCodeSelector / 4 * 4 + 0 = kernelCodeSelector := rfl
  have stackSegment : (if 0 = cpu.cpl then cpu.ss else 0) = if cpu.cpl = 0 then cpu.ss else 0 :=
    if_congr eq_comm rfl rfl
  rw [enterHandler, loaded.gateFault_eq member]
  simp only [loaded.gate_of member, loaded.gateStack_eq, selector, loaded.handlerCpl_eq,
    loaded.entryStack_eq, offset, back, stackSegment]
  rw [Cpu.entered]
  rfl

/-- A program runs with the segments for programs. -/
structure InProgram (cpu : Cpu) : Prop where
  cs : cpu.cs = userCodeSelector ||| 3
  ss : cpu.ss = userDataSelector ||| 3
  data : ∀ name, cpu.data name = userDataSelector ||| 3

theorem InProgram.cpl_eq (program : cpu.InProgram) : cpu.cpl = 3 := by
  rw [cpl, program.cs]
  rfl

/-- The frames for programs begin at the top of the interrupt stack. -/
theorem InProgram.frameTop_eq (program : cpu.InProgram) :
    cpu.frameTop image = image.stackTop :=
  if_neg (by rw [program.cpl_eq]; decide)

/-! ## Inside a handler -/

theorem stackTop_toNat : image.stackTop.toNat =
    (image.gdt.interruptStack.toNat + 0x7FF8) / 16 * 16 := by
  have fits := image.stackFits
  have rsp0 : (image.gdt.interruptStack + 0x7FF8).toNat =
      image.gdt.interruptStack.toNat + 0x7FF8 := by
    rw [UInt64.toNat_add]
    exact Nat.mod_eq_of_lt (Nat.lt_of_lt_of_le (Nat.add_lt_add_left (by decide) _) fits)
  rw [KernelImage.stackTop, rsp0, UInt64.toNat_ofNat']
  omega

/-- The interrupt stack is free below the top. -/
theorem free_stackTop {size : Nat} (small : size ≤ 0x7FE0) :
    image.Free image.stackTop size := by
  have top := @stackTop_toNat image
  refine ⟨by omega, fun position above below => ?_⟩
  obtain ⟨gdt, tss, idt⟩ := image.stackApart position (by omega) (by omega)
  unfold KernelImage.InTable
  omega

/-- Loading a segment of the table sets its accessed bit at most. -/
theorem keepsByte_markAccessed {selector position : Nat}
    (gdtr : cpu.gdtr.2 = image.gdt.gdt.toNat)
    (listed : isNull selector = true ∨ selector / 8 * 8 + 5 ∈ accessBytes) :
    image.KeepsByte cpu.memory (cpu.markAccessed selector).memory position := by
  cases null : isNull selector with
  | true => exact Or.inl (congrFun (if_pos null) position)
  | false =>
      have marked : (cpu.markAccessed selector).memory =
          Function.update cpu.memory (image.gdt.gdt.toNat + selector / 8 * 8 + 5)
            (cpu.memory (image.gdt.gdt.toNat + selector / 8 * 8 + 5) ||| 1) := by
        rw [markAccessed, gdtr]
        exact if_neg (Bool.eq_false_iff.mp null)
      rw [KernelImage.KeepsByte, marked]
      by_cases access : position = image.gdt.gdt.toNat + selector / 8 * 8 + 5
      · subst access
        have inTable := listed.resolve_left (Bool.eq_false_iff.mp null)
        exact Or.inr ⟨⟨_, inTable, Nat.add_assoc _ _ _⟩, Function.update_self _ _ _⟩
      · exact Or.inl (Function.update_of_ne access _ _)

theorem Loaded.markAccessed (loaded : cpu.Loaded image) {selector : Nat}
    (listed : isNull selector = true ∨ selector / 8 * 8 + 5 ∈ accessBytes) :
    (cpu.markAccessed selector).Loaded image :=
  loaded.kept rfl rfl rfl fun _ _ =>
    keepsByte_markAccessed (congrArg Prod.snd loaded.gdtr_eq) listed

/-- Marking a segment again does nothing. -/
theorem markAccessed_markAccessed {selector : Nat} :
    (cpu.markAccessed selector).markAccessed selector = cpu.markAccessed selector := by
  cases null : isNull selector with
  | true => simp only [markAccessed, null, if_true]
  | false =>
      simp only [markAccessed, null, Bool.false_eq_true, if_false, Function.update_self,
        Function.update_idem, KernelImage.or_one_or_one]

/-- The code segment of the kernel is marked when a handler is entered. -/
theorem Loaded.keepsByte_handler (loaded : cpu.Loaded image) {rsp : UInt64}
    {values : List UInt64} {position : Nat} :
    image.KeepsByte ((cpu.setRegister .rsp rsp).pushAll values).memory
      (((cpu.setRegister .rsp rsp).pushAll values).markAccessed kernelCodeSelector).memory
      position := by
  refine keepsByte_markAccessed ?_ (Or.inr (by decide))
  rw [tables_pushAll.1]
  exact congrArg Prod.snd loaded.gdtr_eq

section Entered

variable {call : IdtCall}

theorem rsp_entered (room : 40 ≤ (cpu.frameTop image).toNat) :
    (cpu.entered image call).rsp.toNat = (cpu.frameTop image).toNat - 40 := by
  have pushed := @rsp_pushAll (cpu.setRegister .rsp (cpu.frameTop image)) cpu.frame
    (by rw [rsp_setRegister]; exact room)
  rw [rsp_setRegister] at pushed
  exact pushed

/-- The bytes outside the frame are as before, but for an accessed bit. -/
theorem keepsByte_entered (loaded : cpu.Loaded image) {position : Nat}
    (room : 40 ≤ (cpu.frameTop image).toNat)
    (outside : position + 40 < (cpu.frameTop image).toNat ∨
      (cpu.frameTop image).toNat ≤ position) :
    image.KeepsByte cpu.memory (cpu.entered image call).memory position := by
  have length : 8 * cpu.frame.length = 40 := rfl
  have pushed := @memory_pushAll (cpu.setRegister .rsp (cpu.frameTop image)) cpu.frame position
    (by rw [rsp_setRegister, length]; exact room) (by rw [rsp_setRegister, length]; omega)
  exact KernelImage.KeepsByte.trans (Or.inl pushed) loaded.keepsByte_handler

/-- The frame is on the stack of the handler. -/
theorem stacked_entered (loaded : cpu.Loaded image)
    (free : image.Free (cpu.frameTop image) 40) :
    Stacked (cpu.entered image call).memory (cpu.entered image call).rsp cpu.frame.reverse := by
  have fits := (cpu.frameTop image).toNat_lt
  have room := free.1
  have length : 8 * cpu.frame.reverse.length = 40 := rfl
  have bottom := @rsp_entered cpu image call room
  have pushed := @stacked_pushAll [] (cpu.setRegister .rsp (cpu.frameTop image)) cpu.frame
    trivial (by rw [rsp_setRegister]; exact room)
    (by rw [rsp_setRegister]; exact Nat.le_of_lt fits)
  rw [List.append_nil] at pushed
  -- Marking the code segment as accessed does not get at the frame.
  refine pushed.congr ?_ fun position above below => ?_
  · exact le_of_eq_of_le (congrArg₂ (· + ·) bottom length) (by omega)
  · have inFrame : (cpu.frameTop image).toNat ≤ position + 40 ∧
        position < (cpu.frameTop image).toNat := by
      have above : (cpu.entered image call).rsp.toNat ≤ position := above
      have below : position < (cpu.entered image call).rsp.toNat +
        8 * cpu.frame.reverse.length := below
      omega
    exact loaded.keepsByte_handler.eq_of_not_inTable (free.2 position inFrame.1 inFrame.2)

theorem registers_entered {register : Register} (other : register ≠ .rsp) :
    (cpu.entered image call).registers register = cpu.registers register := by
  have pushed : (cpu.entered image call).registers =
      ((cpu.setRegister .rsp (cpu.frameTop image)).pushAll cpu.frame).registers := rfl
  rw [pushed, registers_pushAll other, registers_setRegister other]

/-- The tables stay while the frame is pushed. -/
theorem Loaded.entered (loaded : cpu.Loaded image) (free : image.Free (cpu.frameTop image) 40) :
    (cpu.entered image call).Loaded image := by
  have tables := @tables_pushAll (cpu.setRegister .rsp (cpu.frameTop image)) cpu.frame
  refine loaded.kept tables.1 tables.2.1 tables.2.2 fun position inTable =>
    keepsByte_entered loaded free.1 ?_
  by_contra inFrame
  exact free.2 position (by omega) (by omega) inTable

end Entered
end Cpu

/-! ## A sample processor -/

/-- Sample addresses of the variables. -/
def sampleGdt : GdtSymbols := ⟨0x1000, 0x2000, 0x8000⟩

theorem sampleGdt_fits : sampleGdt.interruptStack.toNat + 0x8000 ≤ 2 ^ 64 := by decide

theorem sampleGdt_apart (position : Nat) (above : sampleGdt.interruptStack.toNat ≤ position) :
    (position < sampleGdt.gdt.toNat ∨ sampleGdt.gdt.toNat + maxGdtSize ≤ position) ∧
      (position < sampleGdt.tss.toNat ∨ sampleGdt.tss.toNat + tssSize ≤ position) ∧
        (position < (0x3000 : UInt64).toNat ∨ (0x3000 : UInt64).toNat + idtSize ≤ position) :=
  ⟨Or.inr (le_trans (by decide) above), Or.inr (le_trans (by decide) above),
    Or.inr (le_trans (by decide) above)⟩

theorem sampleGdt_gdtApart (position : Nat) (_ : sampleGdt.gdt.toNat ≤ position)
    (below : position < sampleGdt.gdt.toNat + maxGdtSize) :
    (position < sampleGdt.tss.toNat ∨ sampleGdt.tss.toNat + tssSize ≤ position) ∧
      (position < (0x3000 : UInt64).toNat ∨ (0x3000 : UInt64).toNat + idtSize ≤ position) :=
  ⟨Or.inl (Nat.lt_of_lt_of_le below (by decide)), Or.inl (Nat.lt_of_lt_of_le below (by decide))⟩

/-- A sample kernel. -/
def sampleImage : KernelImage where
  gdt := sampleGdt
  gdtState := ⟨fun _ => 0, 0, fun _ => 0, (0, 0), 0⟩
  gdtSize := rfl
  idt := 0x3000
  idtBytes := fun _ => 0
  handlers := ⟨fun _ => 0x400000, 0x401000, 0x402000⟩
  syscallHandler := 0x403000
  stackFits := sampleGdt_fits
  stackApart position above _ := sampleGdt_apart position above
  gdtApart := sampleGdt_gdtApart

/-- Its tables in memory. -/
def sampleMemory (position : Nat) : UInt8 :=
  if 0x1000 ≤ position ∧ position < 0x1000 + maxGdtSize then
    sampleImage.gdtAfter.gdt (position - 0x1000)
  else if 0x2000 ≤ position ∧ position < 0x2000 + tssSize then
    sampleImage.gdtAfter.tss (position - 0x2000)
  else if 0x3000 ≤ position ∧ position < 0x3000 + idtSize then
    bootIdt sampleImage.handlers sampleImage.idtBytes (position - 0x3000)
  else 0

/-- The processor while a program runs. -/
def sampleCpu : Cpu where
  registers := fun register => if register = .rsp then 0x70000007FF8 else 0
  rip := 0x500000
  rflags := 0x202
  cs := userCodeSelector ||| 3
  ss := userDataSelector ||| 3
  data := fun _ => userDataSelector ||| 3
  gdtr := sampleImage.gdtAfter.gdtr
  idtr := (idtSize, sampleImage.idt.toNat)
  task := TaskSegment.decode sampleImage.gdtAfter.gdt sampleImage.gdtAfter.tr
  memory := sampleMemory

theorem sampleCpu_loaded : sampleCpu.Loaded sampleImage := by
  have memory : sampleCpu.memory = sampleMemory := rfl
  have gdtSize : maxGdtSize = 256 := rfl
  have size : tssSize = 104 := rfl
  refine Cpu.loaded_of_setup rfl rfl rfl (fun position inside => ?_) (fun position inside => ?_)
    fun position inside => ?_
  · have address : sampleImage.gdt.gdt.toNat = 0x1000 := rfl
    rw [memory, sampleMemory, address, if_pos (by omega), Nat.add_sub_cancel_left]
  · have address : sampleImage.gdt.tss.toNat = 0x2000 := rfl
    rw [memory, sampleMemory, address, if_neg (by omega), if_pos (by omega),
      Nat.add_sub_cancel_left]
  · have address : sampleImage.idt.toNat = 0x3000 := rfl
    rw [memory, sampleMemory, address, if_neg (by omega), if_neg (by omega),
      if_pos (by omega), Nat.add_sub_cancel_left]

theorem sampleCpu_inProgram : sampleCpu.InProgram := ⟨rfl, rfl, fun _ => rfl⟩

end StarterKernel
