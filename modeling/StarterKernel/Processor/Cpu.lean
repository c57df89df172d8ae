import StarterKernel.Interrupts.Gates
import StarterKernel.Kernel.Bus
import StarterKernel.Processor.Segments
import Mathlib.Logic.Relation

/-!
# The processor

The part of the x86-64 processor that the assembly routines of the kernel use: moves and
the stack, calls, interrupts through gates, and the return from them.  Memory is linear;
the pages that the routines touch are mapped.
-/

namespace StarterKernel

open ByteMemory

inductive Register
  | rax | rbx | rcx | rdx | rsi | rdi | rbp | rsp
  | r8 | r9 | r10 | r11 | r12 | r13 | r14 | r15
  deriving DecidableEq

inductive DataSegment
  | ds | es | fs | gs
  deriving DecidableEq

/-- The state of the processor, with the memory it is connected to. -/
structure Cpu where
  registers : Register -> UInt64
  rip : UInt64
  rflags : UInt64
  cs : Nat
  ss : Nat
  data : DataSegment -> Nat
  /-- The limit and the base of the global descriptor table. -/
  gdtr : Nat × Nat
  /-- The limit and the base of the interrupt descriptor table. -/
  idtr : Nat × Nat
  task : TaskSegment
  memory : Nat -> UInt8

/-- Why an instruction is not completed. -/
inductive Fault
  | generalProtection
  | segmentNotPresent
  | stackFault
  deriving DecidableEq

/-- The instructions of the routines.  The target of a move comes last. -/
inductive Instruction
  | movSegment (source : Register) (target : DataSegment)
  | push (source : Register)
  | pushf
  | mov (source target : Register)
  | load (offset : UInt64) (base target : Register)
  | add (value : UInt64) (target : Register)
  | int (vector : UInt8)
  | call (target : UInt64)
  | ret
  | iretq
  deriving DecidableEq

namespace Cpu

/-- The privilege level of the code that runs. -/
def cpl (cpu : Cpu) : Nat := cpu.cs % 4

def rsp (cpu : Cpu) : UInt64 := cpu.registers .rsp

def setRegister (cpu : Cpu) (register : Register) (value : UInt64) : Cpu :=
  { cpu with registers := Function.update cpu.registers register value }

def loadWord (cpu : Cpu) (address : UInt64) : UInt64 :=
  UInt64.ofNat (load cpu.memory address.toNat 8)

def push (cpu : Cpu) (value : UInt64) : Cpu :=
  { cpu with
    registers := Function.update cpu.registers .rsp (cpu.rsp - 8)
    memory := store cpu.memory (cpu.rsp - 8).toNat 8 value.toNat }

/-- Push some words, the first one first. -/
def pushAll (cpu : Cpu) (values : List UInt64) : Cpu := values.foldl push cpu

/-- The segment of a selector, if it is in the table. -/
def segmentAt (cpu : Cpu) (selector : Nat) : Option Segment :=
  if selector / 4 % 2 = 0 ∧ selector / 8 * 8 + 7 ≤ cpu.gdtr.1 then
    some (Segment.decode cpu.memory (cpu.gdtr.2 + selector / 8 * 8))
  else none

/-- A selector of no segment. -/
def isNull (selector : Nat) : Bool := selector / 4 = 0

/-- Loading a segment register sets the accessed bit in the descriptor of the segment. -/
def markAccessed (cpu : Cpu) (selector : Nat) : Cpu :=
  let access := cpu.gdtr.2 + selector / 8 * 8 + 5
  { cpu with
    memory :=
      if isNull selector then cpu.memory
      else Function.update cpu.memory access (cpu.memory access ||| 1) }

/-- The flags that entering a handler clears: TF, NT, RF and VM, and IF for an interrupt
gate. -/
def entryFlags (type : Nat) : UInt64 := if type = 0xE then 0x34300 else 0x34100

/-- The stack of a handler: that of an interrupt stack table entry, the one running, or
the one of the more privileged level. -/
def entryStack (cpu : Cpu) (ist newCpl : Nat) : UInt64 :=
  if ist ≠ 0 then UInt64.ofNat (ByteMemory.load cpu.memory (cpu.task.base + 28 + 8 * ist) 8)
  else if newCpl = cpu.cpl then cpu.rsp
  else UInt64.ofNat (ByteMemory.load cpu.memory (cpu.task.base + 4 + 8 * newCpl) 8)

/-- What is wrong with a selector of code that is used as `allowed` says. -/
def codeFault (cpu : Cpu) (selector : Nat) (allowed : Segment -> Bool) : Option Fault :=
  if isNull selector then some .generalProtection
  else
    match cpu.segmentAt selector with
    | none => some .generalProtection
    | some segment =>
        if (segment.ordinary && segment.executable && segment.long && allowed segment) = false then
          some .generalProtection
        else if segment.present = false then some .segmentNotPresent
        else none

/-- What is wrong with the stack segment that a return loads. -/
def stackFault (cpu : Cpu) (newCpl ss : Nat) : Option Fault :=
  if isNull ss then if newCpl = 3 then some .generalProtection else none
  else
    match cpu.segmentAt ss with
    | none => some .generalProtection
    | some segment =>
        if (segment.ordinary && !segment.executable && segment.permissive &&
            segment.dpl = newCpl && ss % 4 = newCpl) = false then
          some .generalProtection
        else if segment.present = false then some .stackFault
        else none

/-- The gate of a vector. -/
def gate (cpu : Cpu) (vector : UInt8) : Gate :=
  .decode cpu.memory (cpu.idtr.2 + 16 * vector.toNat)

/-- The entry of the interrupt stack table that the gate of a vector names. -/
def gateStack (cpu : Cpu) (vector : UInt8) : Nat :=
  ByteMemory.load cpu.memory (cpu.idtr.2 + 16 * vector.toNat + 4) 1 % 8

/-- What is wrong with using a vector.  `int` asks for a gate that its code may use. -/
def gateFault (cpu : Cpu) (vector : UInt8) (software : Bool) : Option Fault :=
  if cpu.idtr.1 < 16 * vector.toNat + 15 then some .generalProtection
  else if (cpu.gate vector).type ≠ 0xE ∧ (cpu.gate vector).type ≠ 0xF then
    some .generalProtection
  else if software = true ∧ (cpu.gate vector).dpl < cpu.cpl then some .generalProtection
  else if (cpu.gate vector).present = false then some .segmentNotPresent
  else cpu.codeFault (cpu.gate vector).selector fun segment => segment.dpl ≤ cpu.cpl

/-- The privilege level of a handler. -/
def handlerCpl (cpu : Cpu) (selector : Nat) : Nat :=
  match cpu.segmentAt selector with
  | some segment => if segment.conforming then cpu.cpl else segment.dpl
  | none => cpu.cpl

/-- Enter the handler of a vector. -/
def enterHandler (cpu : Cpu) (vector : UInt8) (software : Bool)
    (errorCode : Option UInt64) : Except Fault Cpu :=
  match cpu.gateFault vector software with
  | some fault => .error fault
  | none =>
      let gate := cpu.gate vector
      let newCpl := cpu.handlerCpl gate.selector
      let stack := cpu.entryStack (cpu.gateStack vector) newCpl
      -- The frame begins at a multiple of 16.
      let framed := (cpu.setRegister .rsp (UInt64.ofNat (stack.toNat / 16 * 16))).pushAll
        ([UInt64.ofNat cpu.ss, cpu.rsp, cpu.rflags, UInt64.ofNat cpu.cs, cpu.rip] ++
          errorCode.toList)
      .ok { framed.markAccessed gate.selector with
        rip := UInt64.ofNat gate.offset
        rflags := cpu.rflags &&& ~~~entryFlags gate.type
        cs := gate.selector / 4 * 4 + newCpl
        ss := if newCpl = cpu.cpl then cpu.ss else newCpl }

/-- A segment that code of a level may not keep. -/
def isLost (cpu : Cpu) (newCpl selector : Nat) : Bool :=
  match cpu.segmentAt selector with
  | some segment =>
      decide (segment.dpl < newCpl) && !(segment.executable && segment.conforming)
  | none => false

/-- The flags that a return does not change: only the kernel may change the I/O privilege
level, and only code with that level the interrupt flag. -/
def keptFlags (cpu : Cpu) : UInt64 :=
  if cpu.cpl = 0 then 0
  else if cpu.cpl ≤ cpu.rflags.toNat / 2 ^ 12 % 4 then 0x3000
  else 0x3200

/-- What is wrong with returning to these. -/
def returnFault (cpu : Cpu) (rip : UInt64) (cs ss : Nat) : Option Fault :=
  if cs % 4 < cpu.cpl then some .generalProtection
  else
    (cpu.codeFault cs fun segment =>
      if segment.conforming then segment.dpl ≤ cs % 4 else segment.dpl = cs % 4).or
    ((cpu.stackFault (cs % 4) ss).or
      (if Canonical rip.toNat then none else some .generalProtection))

/-- Return from a handler. -/
def returnFromHandler (cpu : Cpu) : Except Fault Cpu :=
  let rip := cpu.loadWord cpu.rsp
  let cs := (cpu.loadWord (cpu.rsp + 8)).toNat % 2 ^ 16
  let flags := cpu.loadWord (cpu.rsp + 8 + 8)
  let rsp := cpu.loadWord (cpu.rsp + 8 + 8 + 8)
  let ss := (cpu.loadWord (cpu.rsp + 8 + 8 + 8 + 8)).toNat % 2 ^ 16
  match cpu.returnFault rip cs ss with
  | some fault => .error fault
  | none =>
      .ok { ((cpu.setRegister .rsp rsp).markAccessed cs).markAccessed ss with
        rip := rip
        rflags := (flags &&& ~~~cpu.keptFlags) ||| (cpu.rflags &&& cpu.keptFlags)
        cs := cs
        ss := ss
        -- Entering a lower level takes away the segments of the higher one.
        data := fun name =>
          if cpu.cpl < cs % 4 ∧ cpu.isLost (cs % 4) (cpu.data name) = true then 0
          else cpu.data name }

/-- Load a data segment register. -/
def loadSegment (cpu : Cpu) (target : DataSegment) (selector : Nat) : Except Fault Cpu :=
  let loaded := { cpu.markAccessed selector with
    data := Function.update cpu.data target selector }
  if isNull selector then .ok loaded
  else
    match cpu.segmentAt selector with
    | none => .error .generalProtection
    | some segment =>
        if segment.ordinary = false ∨ segment.executable = true ∧ segment.permissive = false ∨
            !(segment.executable && segment.conforming) = true ∧
              (segment.dpl < cpu.cpl ∨ segment.dpl < selector % 4) then
          .error .generalProtection
        else if segment.present = false then .error .segmentNotPresent
        else .ok loaded

/-- The flags that report on a sum. -/
def statusFlags : UInt64 := 0x8D5

/-- Their values for a sum: CF, PF, AF, ZF, SF and OF. -/
def addFlags (left right : UInt64) : UInt64 :=
  let sum := left + right
  let sign (value : UInt64) : Bool := value.toNat.testBit 63
  (if sum < left then 0x1 else 0) |||
    (if (List.range 8).countP (fun bit => sum.toNat.testBit bit) % 2 = 0 then 0x4 else 0) |||
    (if 16 ≤ left.toNat % 16 + right.toNat % 16 then 0x10 else 0) |||
    (if sum = 0 then 0x40 else 0) |||
    (if sign sum = true then 0x80 else 0) |||
    (if sign left = sign right ∧ sign sum ≠ sign left then 0x800 else 0)

/-- Execute an instruction; `next` is the address of the one behind it. -/
def execute (cpu : Cpu) (instruction : Instruction) (next : UInt64) : Except Fault Cpu :=
  let cpu := { cpu with rip := next }
  match instruction with
  | .movSegment source target =>
      cpu.loadSegment target ((cpu.registers source).toNat % 2 ^ 16)
  | .push source => .ok (cpu.push (cpu.registers source))
  | .pushf => .ok (cpu.push cpu.rflags)
  | .mov source target => .ok (cpu.setRegister target (cpu.registers source))
  | .load offset base target =>
      .ok (cpu.setRegister target (cpu.loadWord (cpu.registers base + offset)))
  | .add value target =>
      .ok { cpu.setRegister target (cpu.registers target + value) with
        rflags := (cpu.rflags &&& ~~~statusFlags) ||| addFlags (cpu.registers target) value }
  | .int vector => cpu.enterHandler vector true none
  | .call target => .ok { cpu.push next with rip := target }
  | .ret => .ok { cpu.setRegister .rsp (cpu.rsp + 8) with rip := cpu.loadWord cpu.rsp }
  | .iretq => cpu.returnFromHandler

end Cpu

/-- The code in memory: the instruction at an address and the address of the next. -/
abbrev Code := UInt64 -> Option (Instruction × UInt64)

/-- The instructions of a routine are in memory one behind the other. -/
def Code.Places (code : Code) (address : UInt64) : List Instruction -> Prop
  | [] => True
  | instruction :: rest =>
      ∃ next, code address = some (instruction, next) ∧ code.Places next rest

/-- One instruction. -/
def Code.Step (code : Code) (cpu after : Cpu) : Prop :=
  ∃ instruction next, code cpu.rip = some (instruction, next) ∧
    cpu.execute instruction next = .ok after

/-- Any number of instructions. -/
abbrev Code.Run (code : Code) : Cpu -> Cpu -> Prop := Relation.ReflTransGen code.Step

/-- Run an instruction first. -/
theorem Code.Run.head {code : Code} {cpu after final : Cpu} {instruction : Instruction}
    {next : UInt64} (here : code cpu.rip = some (instruction, next))
    (executed : cpu.execute instruction next = .ok after) (rest : code.Run after final) :
    code.Run cpu final :=
  Relation.ReflTransGen.head ⟨instruction, next, here, executed⟩ rest

end StarterKernel
