import StarterKernel.Exec.Coverage
import StarterKernel.Kernel.EntryPoints
import StarterKernel.Processor.Returns

/-!
# Entering a program

`exec_setup` ends in `usermode_entry`, which leaves the kernel with the values it is given.
-/

namespace StarterKernel

open StateError

variable {code : Code} {image : KernelImage} {cpu after final : Cpu}
variable {instruction : Instruction} {next selector : UInt64}

/-! ## What `exec_setup` asks for -/

theorem loadWord_lt {address count value : Nat} {machine after : Machine}
    (run : Kernel.loadWord address count machine = .ok value after) : value < 256 ^ count := by
  induction count generalizing address value machine with
  | zero =>
      cases run
      exact Nat.one_pos
  | succ count inductionHypothesis =>
      obtain ⟨low, middle, _, rest⟩ := ok_of_bind run
      obtain ⟨high, last, isHigh, isValue⟩ := ok_of_bind rest
      cases isValue
      have small := low.toNat_lt
      have bound := inductionHypothesis isHigh
      rw [pow_succ]
      omega

/-- The values are the same for every program but for the first instruction. -/
theorem execSetup_entry {hdr : Stivale2Struct} {name : Nat} {machine after : Machine}
    {entry : UsermodeEntry}
    (run : execSetup hdr name machine = .ok (.entered entry) after) :
    entry.dataSel = userDataSelector ||| 3 ∧ entry.stackPtr = userStack + userStackSize - 8 ∧
      entry.codeSel = userCodeSelector ||| 3 ∧ entry.instructionPtr < 2 ^ 64 := by
  obtain ⟨_, unmapped, _, rest⟩ := ok_of_bind run
  obtain ⟨found, looked, _, rest⟩ := ok_of_bind rest
  cases found with
  | none =>
      obtain ⟨_, _, _, done⟩ := ok_of_bind rest
      cases done
  | some ourmod =>
      obtain ⟨loaded, _, isLoaded, done⟩ := ok_of_bind rest
      cases done
      obtain ⟨_, _, _, rest⟩ := ok_of_bind isLoaded
      obtain ⟨_, _, _, rest⟩ := ok_of_bind rest
      obtain ⟨_, _, _, rest⟩ := ok_of_bind rest
      obtain ⟨_, _, _, rest⟩ := ok_of_bind rest
      obtain ⟨_, _, isEntry, done⟩ := ok_of_bind rest
      cases done
      exact ⟨rfl, rfl, rfl, loadWord_lt isEntry⟩

/-! ## The routine -/

/-- Any data segment register takes the selector for programs. -/
theorem Cpu.Loaded.loadSegment_userData (loaded : cpu.Loaded image) (target : DataSegment) :
    cpu.loadSegment target (userDataSelector ||| 3) =
      .ok { cpu.markAccessed (userDataSelector ||| 3) with
        data := Function.update cpu.data target (userDataSelector ||| 3) } := by
  have notNull : isNull (userDataSelector ||| 3) = false := by decide
  have level : cpu.cpl < 4 := Nat.mod_lt _ (by decide)
  have allowed : ¬(3 < cpu.cpl ∨ 3 < (userDataSelector ||| 3) % 4) := by
    have : (userDataSelector ||| 3) % 4 = 3 := rfl
    omega
  rw [Cpu.loadSegment, notNull, loaded.userData]
  simp only [Segment.ofAccess, Nat.testBit, Bool.false_eq_true, if_false]
  exact (if_neg fun fault => fault.elim (by decide) fun fault =>
    fault.elim (by decide) fun fault => allowed fault.2).trans (if_neg (by decide))

/-- The processor after a data segment register was loaded with the selector for
programs. -/
def Cpu.withUserSegment (cpu : Cpu) (target : DataSegment) (next : UInt64) : Cpu :=
  { cpu.markAccessed (userDataSelector ||| 3) with
    rip := next
    data := Function.update cpu.data target (userDataSelector ||| 3) }

theorem Cpu.Loaded.withUserSegment (loaded : cpu.Loaded image) {target : DataSegment} :
    (cpu.withUserSegment target next).Loaded image :=
  (@Cpu.Loaded.markAccessed _ _ loaded (userDataSelector ||| 3) (Or.inr (by decide))).congr
    rfl rfl rfl fun _ _ => rfl

theorem execute_movSegment {target : DataSegment} (loaded : cpu.Loaded image)
    (isSelector : (cpu.registers .rdi).toNat % 2 ^ 16 = userDataSelector ||| 3) :
    cpu.execute (.movSegment .rdi target) next = .ok (cpu.withUserSegment target next) := by
  refine Eq.trans ?_ ((loaded.jump next).loadSegment_userData target)
  rw [← isSelector]
  rfl

/-- The processor with the data segments of programs. -/
def Cpu.withUserData (cpu : Cpu) : Cpu :=
  { cpu.markAccessed (userDataSelector ||| 3) with data := fun _ => userDataSelector ||| 3 }

/-- The accessed bit is set once. -/
theorem Cpu.withUserSegment_all {ds es fs gs : UInt64} :
    (((cpu.withUserSegment .ds ds).withUserSegment .es es).withUserSegment .fs
      fs).withUserSegment .gs gs = cpu.withUserData.jump gs := by
  have again {memory : Nat -> UInt8} := @Cpu.markAccessed_markAccessed
    { cpu with memory := memory } (userDataSelector ||| 3)
  simp only [markAccessed, Cpu.mk.injEq, true_and] at again
  have all : (fun _ => userDataSelector ||| 3) =
      Function.update (Function.update (Function.update (Function.update cpu.data
        .ds (userDataSelector ||| 3)) .es (userDataSelector ||| 3))
          .fs (userDataSelector ||| 3)) .gs (userDataSelector ||| 3) := by
    funext name
    cases name <;> rfl
  simp only [withUserSegment, withUserData, jump, markAccessed, again, all]

/-- The data segments come first. -/
theorem run_segments {rest : List Instruction} (loaded : cpu.Loaded image)
    (isSelector : (cpu.registers .rdi).toNat % 2 ^ 16 = userDataSelector ||| 3)
    (routine : code.Places cpu.rip
      ([.movSegment .rdi .ds, .movSegment .rdi .es, .movSegment .rdi .fs,
        .movSegment .rdi .gs] ++ rest)) :
    ∃ next, code.Places next rest ∧
      code.Run cpu (cpu.withUserData.jump next) := by
  obtain ⟨_, ds, _, es, _, fs, next, gs, places⟩ := routine
  refine ⟨next, places, ?_⟩
  rw [← Cpu.withUserSegment_all]
  refine Code.Run.head ds (execute_movSegment loaded isSelector) ?_
  refine Code.Run.head es (execute_movSegment loaded.withUserSegment isSelector) ?_
  refine Code.Run.head fs
    (execute_movSegment loaded.withUserSegment.withUserSegment isSelector) ?_
  exact Code.Run.head gs
    (execute_movSegment loaded.withUserSegment.withUserSegment.withUserSegment isSelector)
    Relation.ReflTransGen.refl

/-- What the routine pushes. -/
def Cpu.entryFrame (cpu : Cpu) : List UInt64 :=
  [cpu.registers .rdi, cpu.registers .rsi, cpu.rflags, cpu.registers .rdx, cpu.registers .rcx]

/-- The values for `iretq` are pushed. -/
theorem run_pushes {rest : List Instruction}
    (routine : code.Places cpu.rip
      ([.push .rdi, .push .rsi, .pushf, .push .rdx, .push .rcx] ++ rest)) :
    ∃ next, code.Places next rest ∧
      code.Run cpu ((cpu.pushAll cpu.entryFrame).jump next) := by
  obtain ⟨_, rdi, _, rsi, _, flags, _, rdx, next, rcx, places⟩ := routine
  refine ⟨next, places, ?_⟩
  refine Code.Run.head rdi rfl ?_
  refine Code.Run.head rsi rfl ?_
  refine Code.Run.head flags rfl ?_
  refine Code.Run.head rdx rfl ?_
  refine Code.Run.head rcx rfl ?_
  exact Relation.ReflTransGen.refl

/-- The registers of the program: its arguments follow those of `usermode_entry`. -/
def Cpu.shifted (cpu : Cpu) : Register -> UInt64
  | .rdi => cpu.registers .r8
  | .rsi => cpu.registers .r9
  | .rdx => cpu.loadWord (cpu.rsp + 48)
  | .rcx => cpu.loadWord (cpu.rsp + 56)
  | .r8 => cpu.loadWord (cpu.rsp + 64)
  | .r9 => cpu.loadWord (cpu.rsp + 72)
  | register => cpu.registers register

/-- The processor with the registers of the program. -/
def Cpu.withArguments (cpu : Cpu) : Cpu := { cpu with registers := cpu.shifted }

theorem Cpu.withArguments_jump {rip : UInt64} :
    (cpu.jump rip).withArguments = cpu.withArguments.jump rip := by
  have same : (cpu.jump rip).shifted = cpu.shifted := by
    funext register
    cases register <;> rfl
  rw [withArguments, same]
  rfl

/-- The arguments are shifted. -/
theorem run_shifts {rest : List Instruction}
    (routine : code.Places cpu.rip
      ([.mov .r8 .rdi, .mov .r9 .rsi, .load 48 .rsp .rdx, .load 56 .rsp .rcx,
        .load 64 .rsp .r8, .load 72 .rsp .r9] ++ rest)) :
    ∃ next, code.Places next rest ∧
      code.Run cpu (cpu.withArguments.jump next) := by
  obtain ⟨_, rdi, _, rsi, _, rdx, _, rcx, _, r8, next, r9, places⟩ := routine
  refine ⟨next, places, ?_⟩
  refine Code.Run.head rdi rfl ?_
  refine Code.Run.head rsi rfl ?_
  refine Code.Run.head rdx rfl ?_
  refine Code.Run.head rcx rfl ?_
  refine Code.Run.head r8 rfl ?_
  refine Code.Run.head r9 (congrArg Except.ok ?_) Relation.ReflTransGen.refl
  simp only [Cpu.setRegister, Cpu.withArguments, Cpu.jump, Cpu.mk.injEq, and_true]
  funext register
  cases register <;> rfl

/-! ## Before the return -/

/-- The processor before `iretq`. -/
def Cpu.leaving (cpu : Cpu) (next : UInt64) : Cpu :=
  (cpu.withUserData.pushAll cpu.entryFrame).withArguments.jump next

/-- The routine gets to `iretq`. -/
theorem run_leaving (loaded : cpu.Loaded image)
    (isSelector : (cpu.registers .rdi).toNat % 2 ^ 16 = userDataSelector ||| 3)
    (routine : code.Places cpu.rip usermodeEntryRoutine) :
    ∃ here next, code here = some (.iretq, next) ∧ code.Run cpu (cpu.leaving here) := by
  obtain ⟨first, routine, segments⟩ := run_segments loaded isSelector routine
  obtain ⟨second, routine, pushes⟩ :=
    @run_pushes code (cpu.withUserData.jump first) _ routine
  have sameFrame : (cpu.withUserData.jump first).entryFrame = cpu.entryFrame := rfl
  rw [sameFrame, Cpu.pushAll_jump, Cpu.jump_jump] at pushes
  obtain ⟨here, ⟨next, leaves, _⟩, shifts⟩ := @run_shifts code
    ((cpu.withUserData.pushAll cpu.entryFrame).jump second) [.iretq] routine
  rw [Cpu.withArguments_jump, Cpu.jump_jump] at shifts
  exact ⟨here, next, leaves, segments.trans (pushes.trans shifts)⟩

theorem cpl_leaving {here : UInt64} : (cpu.leaving here).cpl = cpu.cpl := by
  have cs : (cpu.leaving here).cs = cpu.cs := by
    rw [Cpu.leaving, Cpu.pushAll_eq]
    rfl
  rw [Cpu.cpl, cs, Cpu.cpl]

/-- What `iretq` finds. -/
structure Leaving (cpu : Cpu) (image : KernelImage) (next : UInt64) : Prop where
  stacked : Stacked (cpu.leaving next).memory (cpu.leaving next).rsp cpu.entryFrame.reverse
  memory : ∀ position, position + 40 < cpu.rsp.toNat ∨ cpu.rsp.toNat ≤ position ->
    image.KeepsByte cpu.memory (cpu.leaving next).memory position
  loaded : (cpu.leaving next).Loaded image

theorem leaving_of (loaded : cpu.Loaded image) (free : image.Free cpu.rsp 40) :
    Leaving cpu image next := by
  have fits := cpu.rsp.toNat_lt
  have size : 8 * cpu.entryFrame.length = 40 := rfl
  have isGdt : cpu.gdtr.2 = image.gdt.gdt.toNat := congrArg Prod.snd loaded.gdtr_eq
  have listed : (userDataSelector ||| 3) / 8 * 8 + 5 ∈ accessBytes := by decide
  have memory (position : Nat)
      (apart : position + 40 < cpu.rsp.toNat ∨ cpu.rsp.toNat ≤ position) :
      image.KeepsByte cpu.memory (cpu.leaving next).memory position := by
    have outside : position < cpu.rsp.toNat - 8 * cpu.entryFrame.length ∨
        cpu.rsp.toNat ≤ position := by omega
    have marked := @Cpu.keepsByte_markAccessed cpu image _ position isGdt (Or.inr listed)
    have pushed := @Cpu.memory_pushAll cpu.withUserData cpu.entryFrame position free.1 outside
    exact marked.trans (Or.inl pushed)
  have atPushes : cpu.withUserData.Loaded image :=
    (@Cpu.Loaded.markAccessed _ _ loaded _ (Or.inr listed)).congr rfl rfl rfl fun _ _ => rfl
  have tables : (cpu.withUserData.pushAll cpu.entryFrame).Loaded image := atPushes.pushAll free
  refine ⟨?_, memory, tables.congr rfl rfl rfl fun _ _ => rfl⟩
  have frame := @Cpu.stacked_pushAll [] cpu.withUserData cpu.entryFrame trivial free.1
    (Nat.le_of_lt fits)
  rw [List.append_nil] at frame
  exact frame

/-! ## In the program -/

/-- The registers hold what the kernel passes to `usermode_entry`. -/
structure Cpu.Passes (cpu : Cpu) (entry : UsermodeEntry) : Prop where
  dataSel : cpu.registers .rdi = UInt64.ofNat entry.dataSel
  stackPtr : cpu.registers .rsi = UInt64.ofNat entry.stackPtr
  codeSel : cpu.registers .rdx = UInt64.ofNat entry.codeSel
  instructionPtr : cpu.registers .rcx = UInt64.ofNat entry.instructionPtr

/-- The program at its first instruction. -/
def Cpu.started (cpu : Cpu) (here : UInt64) : Cpu :=
  (cpu.leaving here).returnedTo (cpu.registers .rcx) (userCodeSelector ||| 3) cpu.rflags
    (cpu.registers .rsi) (userDataSelector ||| 3)

theorem Cpu.returnedTo_jump {rip flags rsp : UInt64} {cs ss : Nat} :
    (cpu.jump next).returnedTo rip cs flags rsp ss = cpu.returnedTo rip cs flags rsp ss := rfl

theorem Cpu.cpl_jump : (cpu.jump next).cpl = cpu.cpl := rfl

theorem Cpu.execute_iretq_eq : cpu.execute .iretq next = (cpu.jump next).returnFromHandler :=
  rfl

/-- `iretq` leaves the kernel if the first instruction has a canonical address. -/
theorem execute_iretq {here : UInt64} (leaving : Leaving cpu image here)
    (kernel : cpu.cpl = 0)
    (isCode : (cpu.registers .rdx).toNat % 2 ^ 16 = userCodeSelector ||| 3)
    (isData : (cpu.registers .rdi).toNat % 2 ^ 16 = userDataSelector ||| 3) :
    (cpu.leaving here).execute .iretq next =
      if Canonical (cpu.registers .rcx).toNat then .ok (cpu.started here)
      else .error .generalProtection := by
  have tables := leaving.loaded.jump next
  have level : ((cpu.leaving here).jump next).cpl = 0 := by
    rw [Cpu.cpl_jump, cpl_leaving, kernel]
  rw [Cpu.execute_iretq_eq, tables.returnFromHandler_eq level leaving.stacked, isCode, isData]
  rw [Cpu.returnedTo_jump]
  exact if_congr ⟨And.left, fun canonical => ⟨canonical, Or.inr ⟨rfl, rfl⟩⟩⟩ rfl rfl

theorem started_inProgram {here : UInt64} (leaving : Leaving cpu image here) :
    (cpu.started here).InProgram where
  cs := rfl
  ss := rfl
  data _ := if_neg fun lost =>
    Bool.false_ne_true (leaving.loaded.isLost_userData.symm.trans lost.2)

theorem rflags_started {here : UInt64} : (cpu.started here).rflags = cpu.rflags := by
  rw [Cpu.started, Cpu.returnedTo]

theorem keepsByte_started {here : UInt64} {position : Nat} (leaving : Leaving cpu image here)
    (canonical : Canonical (cpu.registers .rcx).toNat) :
    image.KeepsByte (cpu.leaving here).memory (cpu.started here).memory position :=
  Cpu.keepsByte_returnedTo leaving.loaded ⟨canonical, Or.inr ⟨rfl, rfl⟩⟩

/-- The registers other than the stack pointer are the shifted ones. -/
theorem registers_started {here : UInt64} {register : Register} (other : register ≠ .rsp) :
    (cpu.started here).registers register =
      (cpu.withUserData.pushAll cpu.entryFrame).shifted register :=
  Cpu.registers_setRegister other

/-- The five words above the stack pointer are outside the tables, and those below. -/
theorem free_around (above : cpu.rsp.toNat + 40 < 2 ^ 64) (free : image.Free (cpu.rsp + 40) 80) :
    image.Free cpu.rsp 40 ∧ ∀ position, cpu.rsp.toNat ≤ position ->
      position < cpu.rsp.toNat + 40 -> ¬image.InTable position := by
  have top : (cpu.rsp + 40).toNat = cpu.rsp.toNat + 40 := by
    rw [UInt64.toNat_add]
    exact Nat.mod_eq_of_lt above
  have room := free.1
  exact ⟨⟨by omega, fun position low high => free.2 position (by omega) (by omega)⟩,
    fun position low high => free.2 position (by omega) (by omega)⟩

/-- The arguments on the stack are those above the return address. -/
theorem loadWord_pushed {here offset : UInt64} (leaving : Leaving cpu image here)
    (above : cpu.rsp.toNat + 40 < 2 ^ 64) (stack : image.Free (cpu.rsp + 40) 80)
    (small : offset.toNat ≤ 32) :
    (cpu.withUserData.pushAll cpu.entryFrame).loadWord
        ((cpu.withUserData.pushAll cpu.entryFrame).rsp + (offset + 40)) =
      cpu.loadWord (cpu.rsp + offset) := by
  obtain ⟨free, arguments⟩ := free_around above stack
  have bottom : (cpu.withUserData.pushAll cpu.entryFrame).rsp.toNat = cpu.rsp.toNat - 40 :=
    @Cpu.rsp_pushAll cpu.withUserData cpu.entryFrame free.1
  have room := free.1
  have address : (cpu.withUserData.pushAll cpu.entryFrame).rsp + (offset + 40) =
      cpu.rsp + offset := by
    refine UInt64.toNat_inj.mp ?_
    have forty : (40 : UInt64).toNat = 40 := rfl
    rw [UInt64.toNat_add, UInt64.toNat_add, UInt64.toNat_add, bottom, forty]
    omega
  have isAddress : (cpu.rsp + offset).toNat = cpu.rsp.toNat + offset.toNat := by
    rw [UInt64.toNat_add]
    exact Nat.mod_eq_of_lt (by omega)
  rw [address, Cpu.loadWord, Cpu.loadWord]
  refine congrArg UInt64.ofNat (ByteMemory.load_congr fun position inside => ?_)
  exact (leaving.memory _ (by omega)).eq_of_not_inTable (arguments _ (by omega) (by omega))

/-- When `exec_setup` enters a program, the kernel leaves for its first instruction with
the segments, the empty stack and the flags of a program, the arguments behind those of
`usermode_entry`, and the tables in place, provided that the address is canonical.  It has
written five words below its stack pointer and set accessed bits of segments.  For any
other entry address in the file, `iretq` raises a general protection fault while still in
the kernel. -/
theorem exec_enters_program (image : KernelImage) (code : Code) (cpu : Cpu)
    (loaded : cpu.Loaded image) (kernel : cpu.cpl = 0)
    (free : image.Free (cpu.rsp + 40) 80) (above : cpu.rsp.toNat + 40 < 2 ^ 64)
    (routine : code.Places cpu.rip usermodeEntryRoutine)
    (hdr : Stivale2Struct) (name : Nat) (machine after : Machine) (entry : UsermodeEntry)
    (run : execSetup hdr name machine = .ok (.entered entry) after)
    (passes : cpu.Passes entry) :
    (Canonical entry.instructionPtr -> ∃ started, code.Run cpu started ∧
      started.InProgram ∧ started.rip.toNat = entry.instructionPtr ∧
      started.rsp.toNat = userStack + userStackSize - 8 ∧ started.rflags = cpu.rflags ∧
      (started.registers .rdi = cpu.registers .r8 ∧
        started.registers .rsi = cpu.registers .r9 ∧
        started.registers .rdx = cpu.loadWord (cpu.rsp + 8) ∧
        started.registers .rcx = cpu.loadWord (cpu.rsp + 16) ∧
        started.registers .r8 = cpu.loadWord (cpu.rsp + 24) ∧
        started.registers .r9 = cpu.loadWord (cpu.rsp + 32)) ∧
      (∀ position, position + 40 < cpu.rsp.toNat ∨ cpu.rsp.toNat ≤ position ->
        image.KeepsByte cpu.memory started.memory position) ∧
      started.Loaded image) ∧
    (¬Canonical entry.instructionPtr -> ∃ last next, code.Run cpu last ∧ last.cpl = 0 ∧
      code last.rip = some (.iretq, next) ∧
      last.execute .iretq next = .error .generalProtection) := by
  obtain ⟨dataSel, stackPtr, codeSel, small⟩ := execSetup_entry run
  have isData : (cpu.registers .rdi).toNat % 2 ^ 16 = userDataSelector ||| 3 := by
    rw [passes.dataSel, dataSel]
    rfl
  have isCode : (cpu.registers .rdx).toNat % 2 ^ 16 = userCodeSelector ||| 3 := by
    rw [passes.codeSel, codeSel]
    rfl
  have isRip : (cpu.registers .rcx).toNat = entry.instructionPtr := by
    rw [passes.instructionPtr, UInt64.toNat_ofNat']
    exact Nat.mod_eq_of_lt small
  obtain ⟨here, next, leaves, runs⟩ := run_leaving loaded isData routine
  have leaving := @leaving_of image cpu here loaded (free_around above free).1
  have last := @execute_iretq image cpu next here leaving kernel isCode isData
  rw [isRip] at last
  refine ⟨fun canonical => ?_, fun notCanonical => ?_⟩
  · rw [if_pos canonical] at last
    have kept (position : Nat) := @keepsByte_started image cpu here position leaving
      (isRip ▸ canonical)
    have pushed (offset : UInt64) (small : offset.toNat ≤ 32) :=
      @loadWord_pushed image cpu here offset leaving above free small
    refine ⟨cpu.started here, runs.trans (Code.Run.head leaves last Relation.ReflTransGen.refl),
      started_inProgram leaving, isRip, ?_, rflags_started, ⟨?_, ?_, ?_, ?_, ?_, ?_⟩, ?_, ?_⟩
    · have isRsp : (cpu.started here).rsp = cpu.registers .rsi :=
        @Cpu.rsp_setRegister (cpu.leaving here) (cpu.registers .rsi)
      rw [isRsp, passes.stackPtr, stackPtr]
      rfl
    · exact (registers_started (by decide)).trans (Cpu.registers_pushAll (by decide))
    · exact (registers_started (by decide)).trans (Cpu.registers_pushAll (by decide))
    · exact (registers_started (by decide)).trans (pushed 8 (by decide))
    · exact (registers_started (by decide)).trans (pushed 16 (by decide))
    · exact (registers_started (by decide)).trans (pushed 24 (by decide))
    · exact (registers_started (by decide)).trans (pushed 32 (by decide))
    · exact fun position outside => (leaving.memory position outside).trans (kept position)
    · exact leaving.loaded.kept rfl rfl rfl fun position _ => kept position
  · rw [if_neg notCanonical] at last
    exact ⟨cpu.leaving here, next, runs, cpl_leaving.trans kernel, leaves, last⟩

/-- The addresses of a sample routine. -/
def sampleRoutine : Code := fun address =>
  ((List.range 16).zip usermodeEntryRoutine |>.map fun line =>
    (UInt64.ofNat (0x600000 + line.1), line.2, UInt64.ofNat (0x600001 + line.1))).lookup address

/-- The processor when a sample kernel calls it. -/
def samplePassing (entry : UsermodeEntry) : Cpu :=
  { sampleCpu with
    registers := fun
      | .rdi => UInt64.ofNat entry.dataSel
      | .rsi => UInt64.ofNat entry.stackPtr
      | .rdx => UInt64.ofNat entry.codeSel
      | .rcx => UInt64.ofNat entry.instructionPtr
      | .rsp => 0xF000
      | _ => 0
    rip := 0x600000
    cs := kernelCodeSelector
    ss := 0 }

theorem sampleRoutine_places : sampleRoutine.Places 0x600000 usermodeEntryRoutine :=
  ⟨_, rfl, _, rfl, _, rfl, _, rfl, _, rfl, _, rfl, _, rfl, _, rfl, _, rfl, _, rfl, _, rfl,
    _, rfl, _, rfl, _, rfl, _, rfl, _, rfl, trivial⟩

theorem sampleImage_free : sampleImage.Free (0xF000 + 40) 80 := by
  refine ⟨by decide, fun position above below => ?_⟩
  have address : (0xF000 + 40 : UInt64).toNat = 0xF028 := rfl
  obtain ⟨gdt, tss, idt⟩ := sampleGdt_apart position (by
    have stack : sampleGdt.interruptStack.toNat = 0x8000 := rfl
    omega)
  unfold KernelImage.InTable
  have isGdt : sampleImage.gdt = sampleGdt := rfl
  have isIdt : sampleImage.idt = 0x3000 := rfl
  rw [isGdt, isIdt]
  omega

/-- The boot machine enters a program. -/
theorem exec_enters_program_bootMachine :
    ∃ started, sampleRoutine.Run (samplePassing (usermodeEntry bssOnlyImage)) started ∧
      started.InProgram := by
  obtain ⟨machine, free, _, ready⟩ := execReady_bssOnly
  obtain ⟨after, _, enters, _⟩ := ExecReady.execSetup_image ready
    (find_namedHdr bssOnlyBytes) elfImage_bssOnly separatePages_bssOnly
  obtain ⟨started, run, program, _⟩ := (exec_enters_program sampleImage sampleRoutine
    (samplePassing (usermodeEntry bssOnlyImage))
    (sampleCpu_loaded.congr rfl rfl rfl fun _ _ => rfl) (by decide) sampleImage_free
    (by decide) sampleRoutine_places _ _ _ _ _ enters ⟨rfl, rfl, rfl, rfl⟩).1
    (by decide +kernel)
  exact ⟨started, run, program⟩

end StarterKernel
