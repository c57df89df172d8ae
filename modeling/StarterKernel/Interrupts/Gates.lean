import StarterKernel.Kernel.Interrupts
import Mathlib.Data.List.Induction

/-!
# The gates of the processor

The processor reads an entry of the table as a gate.  After any calls of
`idt_set_handler` it reads what the last call for each vector installed.
-/

namespace StarterKernel

open ByteMemory

/-- A gate of the x86-64 processor. -/
structure Gate where
  offset : Nat
  selector : Nat
  type : Nat
  dpl : Nat
  present : Bool
  deriving DecidableEq

/-- The gate in the 16 bytes at `base`. -/
def Gate.decode (memory : Nat -> UInt8) (base : Nat) : Gate where
  offset := load memory base 2 + 2 ^ 16 * load memory (base + 6) 2 +
    2 ^ 32 * load memory (base + 8) 4
  selector := load memory (base + 2) 2
  type := load memory (base + 5) 1 % 2 ^ 4
  dpl := load memory (base + 5) 1 / 2 ^ 5 % 2 ^ 2
  present := (load memory (base + 5) 1).testBit 7

/-- A call of `idt_set_handler` with a type of four bits. -/
structure IdtCall where
  index : UInt8
  fn : UInt64
  type : UInt8
  small : type < 16

/-- The table after a call. -/
def IdtCall.install (call : IdtCall) (idt : Idt) : Idt :=
  idtSetHandler call.index call.fn call.type idt

/-- The gate that a call asks for. -/
def IdtCall.gate (call : IdtCall) : Gate where
  offset := call.fn.toNat
  selector := kernelCodeSelector
  type := call.type.toNat
  dpl := 3
  present := true

/-- An entry holds the gate of a call, or nothing. -/
def Idt.Holds (idt : Idt) (v : UInt8) : Option IdtCall -> Prop
  | none => ∀ offset < 16, idt (16 * v.toNat + offset) = 0
  | some call => Gate.decode idt (16 * v.toNat) = call.gate

/-- The handlers installed by some calls: for each vector the last call with its index. -/
def lastCall (calls : List IdtCall) (v : UInt8) : Option IdtCall :=
  calls.reverse.find? fun call => call.index = v

/-- The zeroed table after some calls. -/
def installAll (calls : List IdtCall) : Idt :=
  calls.foldl (fun idt call => call.install idt) fun _ => 0

variable {idt : Idt} {index v : UInt8} {field : IdtField} {value number : Nat}
variable {call : IdtCall}

/-- A gate depends on its 16 bytes only. -/
theorem Gate.decode_congr {memory other : Nat -> UInt8} {base : Nat}
    (agree : ∀ offset < 16, other (base + offset) = memory (base + offset)) :
    Gate.decode other base = Gate.decode memory base := by
  have sameLoad (address count : Nat) (inside : address + count ≤ 16) :
      load other (base + address) count = load memory (base + address) count := by
    refine load_congr fun offset bound => ?_
    rw [Nat.add_assoc]
    exact agree _ (by omega)
  have first := sameLoad 0 2 (by decide)
  rw [Nat.add_zero] at first
  rw [decode, decode, first, sameLoad 6 2 (by decide), sameLoad 8 4 (by decide),
    sameLoad 2 2 (by decide), sameLoad 5 1 (by decide)]

/-! ## One call -/

theorem IdtField.position_add_width : field.position + field.width ≤ 8 * 16 := by
  cases field <;> decide

theorem Idt.bit_assign :
    BitFields.bit (idt.assign index field value) (16 * index.toNat) number =
      if field.position ≤ number ∧ number < field.position + field.width then
        value.testBit (number - field.position)
      else BitFields.bit idt (16 * index.toNat) number := BitFields.bit_set

theorem Idt.assign_outside {offset : Nat} (different : v ≠ index) (inside : offset < 16) :
    idt.assign index field value (16 * v.toNat + offset) = idt (16 * v.toNat + offset) := by
  have differentNumber : v.toNat ≠ index.toNat := mt UInt8.toNat_inj.mp different
  exact BitFields.set_outside IdtField.position_add_width (by omega)

/-- A call leaves the other entries alone. -/
theorem IdtCall.install_outside {offset : Nat} (different : v ≠ call.index)
    (inside : offset < 16) :
    call.install idt (16 * v.toNat + offset) = idt (16 * v.toNat + offset) := by
  simp only [install, idtSetHandler, Idt.assign_outside different inside]

/-- What a call assigns to a field. -/
def IdtCall.assigned (call : IdtCall) : IdtField -> Nat
  | .offset0 => call.fn.toNat &&& 0xFFFF
  | .selector => kernelCodeSelector
  | .type => call.type.toNat
  | .dpl => 3
  | .present => 1
  | .offset1 => (call.fn.toNat >>> 16) &&& 0xFFFF
  | .offset2 => (call.fn.toNat >>> 32) &&& 0xFFFFFFFF
  | .ist | .unused0 | .unused1 | .unused2 => 0

/-- After a call every field holds what was assigned to it: the later assignments
keep it. -/
theorem IdtCall.bit_install (inside : number < field.width) :
    BitFields.bit (call.install idt) (16 * call.index.toNat) (field.position + number) =
      (call.assigned field).testBit number := by
  simp only [install, idtSetHandler, Idt.bit_assign]
  cases field <;>
    simp only [IdtField.position, IdtField.width] at inside ⊢ <;>
    simp (disch := omega) only [if_pos, if_neg, Nat.add_sub_cancel_left, assigned]

/-- A field of whole bytes is read as what was assigned to it. -/
theorem IdtCall.load_install {address count : Nat} (first : field.position = 8 * address)
    (whole : field.width = 8 * count) :
    load (call.install idt) (16 * call.index.toNat + address) count =
      call.assigned field % 2 ^ (8 * count) := by
  refine BitFields.load_eq (Nat.mod_lt _ (Nat.two_pow_pos _)) fun number inside => ?_
  have bit := @bit_install idt field number call (by omega)
  rw [first, ← BitFields.bit_offset (Nat.le_add_right _ number), Nat.add_sub_cancel_left] at bit
  rw [bit, Nat.testBit_mod_two_pow, decide_eq_true inside, Bool.true_and]

/-- The byte with the type, the DPL and the present bit. -/
theorem IdtCall.load_install_flags :
    load (call.install idt) (16 * call.index.toNat + 5) 1 = call.type.toNat + 2 ^ 5 * 7 := by
  have small : call.type.toNat < 2 ^ 4 := call.small
  refine BitFields.load_eq (by omega) fun number inside => ?_
  have isBit (field : IdtField) (rest : Nat) (within : rest < field.width)
      (here : 8 * 5 + number = field.position + rest) :
      BitFields.bit (call.install idt) (16 * call.index.toNat + 5) number =
        (call.assigned field).testBit rest := by
    rw [← call.bit_install within, ← here,
      ← BitFields.bit_offset (Nat.le_add_right _ number), Nat.add_sub_cancel_left]
  rw [Nat.add_comm call.type.toNat, Nat.testBit_two_pow_mul_add 7 (by omega)]
  by_cases ofType : number < 4
  · rw [if_pos (by omega), isBit .type number ofType (by simp only [IdtField.position])]
    rfl
  · obtain rfl | rfl | rfl | rfl : number = 4 ∨ number = 5 ∨ number = 6 ∨ number = 7 := by
      omega
    · rw [isBit .unused1 0 (by decide) rfl, if_pos (by decide), Nat.testBit_lt_two_pow small]
      exact Nat.zero_testBit 0
    · rw [isBit .dpl 0 (by decide) rfl, if_neg (by decide), assigned]
      decide
    · rw [isBit .dpl 1 (by decide) rfl, if_neg (by decide), assigned]
      decide
    · rw [isBit .present 0 (by decide) rfl, if_neg (by decide), assigned]
      decide

/-- The processor reads the gate that the call asked for. -/
theorem IdtCall.decode_install :
    Gate.decode (call.install idt) (16 * call.index.toNat) = call.gate := by
  have wide : call.fn.toNat < 2 ^ 64 := call.fn.toNat_lt
  have small : call.type.toNat < 2 ^ 4 := call.small
  have offset0 := @load_install idt .offset0 call 0 2 rfl rfl
  have selector := @load_install idt .selector call 2 2 rfl rfl
  have offset1 := @load_install idt .offset1 call 6 2 rfl rfl
  have offset2 := @load_install idt .offset2 call 8 4 rfl rfl
  rw [Gate.decode, gate, Gate.mk.injEq, offset1, offset2, selector, load_install_flags]
  rw [Nat.add_zero] at offset0
  rw [offset0]
  refine ⟨?_, rfl, by omega, by omega, ?_⟩
  · simp only [assigned, Nat.and_two_pow_sub_one_eq_mod _ 16,
      Nat.and_two_pow_sub_one_eq_mod _ 32, Nat.shiftRight_eq_div_pow]
    omega
  · rw [Nat.add_comm, Nat.testBit_two_pow_mul_add 7 (by omega)]
    rfl

/-! ## Any calls -/

/-- A call takes over its own entry. -/
theorem Idt.Holds.install {last : Option IdtCall} (holds : idt.Holds v last) :
    (call.install idt).Holds v (if call.index = v then some call else last) := by
  by_cases same : call.index = v
  · subst same
    rw [if_pos rfl]
    exact call.decode_install
  · rw [if_neg same]
    have kept (offset : Nat) (inside : offset < 16) :
        call.install idt (16 * v.toNat + offset) = idt (16 * v.toNat + offset) :=
      call.install_outside (Ne.symm same) inside
    cases last with
    | none =>
        intro offset inside
        rw [kept offset inside, holds offset inside]
    | some last => exact (Gate.decode_congr kept).trans holds

theorem lastCall_append (calls : List IdtCall) :
    lastCall (calls ++ [call]) v = if call.index = v then some call else lastCall calls v := by
  rw [lastCall, List.reverse_append, List.reverse_singleton, List.singleton_append,
    List.find?_cons]
  split <;> simp_all [lastCall]

/-- After any calls each entry holds the gate of the last call for it. -/
theorem idt_decodes_last_call (calls : List IdtCall) (v : UInt8) :
    (installAll calls).Holds v (lastCall calls v) := by
  induction calls using List.reverseRecOn with
  | nil => exact fun offset inside => rfl
  | append_singleton calls call inductionHypothesis =>
      rw [installAll, List.foldl_append, lastCall_append]
      exact inductionHypothesis.install

end StarterKernel
