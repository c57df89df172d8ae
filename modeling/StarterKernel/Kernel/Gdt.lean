import StarterKernel.Library.BitFields
import StarterKernel.Kernel.Executables
import StarterKernel.Kernel.Interrupts

/-!
# The global descriptor table (`gdt.c`)

`gdt` is an array of 256 bytes.  The descriptors are packed records in it, which the
kernel fills field by field, and `tss` is the task state segment that the last one of them
points to.
-/

namespace StarterKernel

def maxGdtSize : Nat := 256

/-- The fields of `seg_descriptor_t` and `sys_descriptor_t`. -/
inductive DescriptorField
  | limit0
  | base0
  | access
  | limit1
  | flags
  /-- `base_1` of a segment descriptor. -/
  | base1
  /-- `base_1` of a system descriptor. -/
  | base1System

/-- The number of bits of a field. -/
def DescriptorField.width : DescriptorField -> Nat
  | limit0 => 16
  | base0 => 24
  | access => 8
  | limit1 => 4
  | flags => 4
  | base1 => 8
  | base1System => 40

/-- The number of the first bit of a field. -/
def DescriptorField.position : DescriptorField -> Nat
  | limit0 => 0
  | base0 => 16
  | access => 40
  | limit1 => 48
  | flags => 52
  | base1 => 56
  | base1System => 56

/-- The addresses that the linker gives to the variables of `gdt.c`. -/
structure GdtSymbols where
  gdt : UInt64
  tss : UInt64
  interruptStack : UInt64

/-- The variables of `gdt.c`, and what `lgdt` and `ltr` have loaded. -/
structure GdtState where
  gdt : Nat -> UInt8
  gdtSize : Nat
  tss : Nat -> UInt8
  /-- The limit and the base of the table in use. -/
  gdtr : Nat × Nat
  /-- The selector of the task. -/
  tr : Nat

def tssSelector : Nat := 0x28

def kernelDataSelector : Nat := 0x10

/-- The size of `tss_t`. -/
def tssSize : Nat := 104

namespace GdtState

/-- `d->field = value` for the descriptor at `offset`. -/
def assign (state : GdtState) (offset : Nat) (field : DescriptorField) (value : Nat) :
    GdtState :=
  { state with gdt := BitFields.set state.gdt offset field.position field.width value }

/-- Make room for a descriptor of `size` bytes and zero it. -/
def reserve (state : GdtState) (offset size : Nat) : GdtState :=
  { state with
    gdtSize := if state.gdtSize < offset + size then offset + size else state.gdtSize
    gdt := memsetBytes state.gdt offset 0 size }

/-- Create a code descriptor at the specified offset. -/
def gdtCodeDescriptor (state : GdtState) (offset : Nat) (user : Bool) : GdtState :=
  let state := state.reserve offset 8
  let state := state.assign offset .access (0x9A ||| if user then 0x60 else 0)
  state.assign offset .flags 0x2

/-- Create a data descriptor at the specified offset. -/
def gdtDataDescriptor (state : GdtState) (offset : Nat) (user : Bool) : GdtState :=
  let state := state.reserve offset 8
  state.assign offset .access (0x92 ||| if user then 0x60 else 0)

/-- Create a TSS descriptor at the specified offset. -/
def gdtTssDescriptor (state : GdtState) (offset : Nat) (tss : UInt64) : GdtState :=
  let state := state.reserve offset 16
  -- The base fields point to the TSS.
  let state := state.assign offset .base0 tss.toNat
  let state := state.assign offset .base1System (tss.toNat >>> 24)
  -- The limit records the size of the TSS in bytes.
  let state := state.assign offset .limit0 tssSize
  let state := state.assign offset .limit1 (tssSize >>> 16)
  -- Set the descriptor type.
  state.assign offset .access 0x89

/-- `ltr`: the processor takes the task state segment of a selector, and marks its
descriptor in the table as busy. -/
def ltr (state : GdtState) (selector : Nat) : GdtState :=
  { state with
    gdt := Function.update state.gdt (selector + 5) (state.gdt (selector + 5) ||| 2)
    tr := selector }

/-- Set up and load the table and the task state segment. -/
def gdtSetup (symbols : GdtSymbols) (state : GdtState) : GdtState :=
  let state := { state with gdt := memsetBytes state.gdt 0 0 maxGdtSize }
  let state := state.gdtCodeDescriptor kernelCodeSelector false
  let state := state.gdtDataDescriptor kernelDataSelector false
  let state := state.gdtCodeDescriptor userCodeSelector true
  let state := state.gdtDataDescriptor userDataSelector true
  let state := state.gdtTssDescriptor tssSelector symbols.tss
  let state := { state with gdtr := (state.gdtSize - 1, symbols.gdt.toNat) }
  let tss := memsetBytes state.tss 0 0 tssSize
  -- Interrupts delivered while in user mode should use this stack pointer.
  let rsp0 := symbols.interruptStack + 0x8000 - 8
  let state := { state with tss := ByteMemory.store tss 4 8 rsp0.toNat }
  state.ltr tssSelector

end GdtState
end StarterKernel
