import StarterKernel.Library.BitFields
import Mathlib.Logic.Function.Basic

/-!
# The interrupt descriptor table (`interrupts.c`)

`idt` is an array of 256 packed records of 16 bytes.  `idt_set_handler` fills one of
them, field by field, and `idt_setup` those of the processor's exceptions.
-/

namespace StarterKernel

/-- The fields of `idt_entry_t`. -/
inductive IdtField
  | offset0
  | selector
  | ist
  | unused0
  | type
  | unused1
  | dpl
  | present
  | offset1
  | offset2
  | unused2

/-- The number of bits of a field. -/
def IdtField.width : IdtField -> Nat
  | offset0 => 16
  | selector => 16
  | ist => 3
  | unused0 => 5
  | type => 4
  | unused1 => 1
  | dpl => 2
  | present => 1
  | offset1 => 16
  | offset2 => 32
  | unused2 => 32

/-- The number of the first bit of a field.  The record is packed, so each field begins
where the one before it ends. -/
def IdtField.position : IdtField -> Nat
  | offset0 => 0
  | selector => 16
  | ist => 32
  | unused0 => 35
  | type => 40
  | unused1 => 44
  | dpl => 45
  | present => 47
  | offset1 => 48
  | offset2 => 64
  | unused2 => 96

/-- `memset` on an array of bytes. -/
def memsetBytes (bytes : Nat -> UInt8) (arr : Nat) (c : UInt8) (len : Nat) : Nat -> UInt8 :=
  (List.range len).foldl (fun bytes i => Function.update bytes (arr + i) c) bytes

theorem memsetBytes_apply (bytes : Nat -> UInt8) (arr : Nat) (c : UInt8) (len position : Nat) :
    memsetBytes bytes arr c len position =
      if arr ≤ position ∧ position < arr + len then c else bytes position := by
  induction len with
  | zero => rw [if_neg (by omega)]; rfl
  | succ len inductionHypothesis =>
      unfold memsetBytes at inductionHypothesis ⊢
      rw [List.range_succ, List.foldl_append, List.foldl_cons, List.foldl_nil,
        Function.update_apply, inductionHypothesis]
      by_cases last : position = arr + len
      · rw [if_pos last, if_pos (by omega)]
      · rw [if_neg last]
        exact if_congr (by omega) rfl rfl

/-- The bytes of `idt`. -/
abbrev Idt := Nat -> UInt8

/-- `idt[index].field = value`. -/
def Idt.assign (idt : Idt) (index : UInt8) (field : IdtField) (value : Nat) : Idt :=
  BitFields.set idt (16 * index.toNat) field.position field.width value

/-- `KERNEL_CODE_SELECTOR`. -/
def kernelCodeSelector : Nat := 0x08

/-- Set an interrupt handler for the given interrupt number. -/
def idtSetHandler (index : UInt8) (fn : UInt64) (type : UInt8) (idt : Idt) : Idt :=
  let function := fn.toNat
  let offset0 := function &&& 0xFFFF
  let offset1 := (function >>> 16) &&& 0xFFFF
  let offset2 := (function >>> 32) &&& 0xFFFFFFFF
  let idt := idt.assign index .offset0 offset0
  let idt := idt.assign index .selector kernelCodeSelector
  let idt := idt.assign index .ist 0
  let idt := idt.assign index .unused0 0
  let idt := idt.assign index .type type.toNat
  let idt := idt.assign index .unused1 0
  let idt := idt.assign index .dpl 3
  let idt := idt.assign index .present 1
  let idt := idt.assign index .offset1 offset1
  let idt := idt.assign index .offset2 offset2
  idt.assign index .unused2 0

def idtTypeInterrupt : UInt8 := 0xE

def idtTypeTrap : UInt8 := 0xF

/-- The number of handlers for exceptions. -/
def exceptionCount : Nat := 21

/-- The addresses that the linker gives to the handlers. -/
structure HandlerSymbols where
  handler : Fin exceptionCount -> UInt64
  syscallEntry : UInt64
  keyboardInterrupt : UInt64

/-- The size of `idt`. -/
def idtSize : Nat := 16 * 256

/-- The vectors that `idt_setup` sets. -/
def idtIndices : List UInt8 :=
  [1, 2, 3, 4, 5, 6, 7, 8, 9, 10, 11, 12, 13, 14, 15, 16, 17, 18, 19, 20, 21]

/-- The type of the gate of each of them. -/
def idtTypes : List UInt8 :=
  -- The second handler is for an interrupt, the others are for traps, faults and aborts.
  [idtTypeTrap, idtTypeInterrupt] ++ List.replicate 19 idtTypeTrap

/-- Set the handlers for the standard exceptions in a zeroed table. -/
def idtSetup (symbols : HandlerSymbols) (idt : Idt) : Idt :=
  let idt : Idt := memsetBytes idt 0 0 idtSize
  (List.finRange exceptionCount).foldl
    (fun idt (i : Fin exceptionCount) =>
      idtSetHandler (idtIndices.getD i 0) (symbols.handler i) (idtTypes.getD i 0) idt) idt

/-- The table when `_start` has set its own handlers. -/
def bootIdt (symbols : HandlerSymbols) (idt : Idt) : Idt :=
  let idt := idtSetup symbols idt
  let idt := idtSetHandler 0x80 symbols.syscallEntry idtTypeTrap idt
  idtSetHandler 0x21 symbols.keyboardInterrupt idtTypeTrap idt

end StarterKernel
