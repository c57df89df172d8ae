import StarterKernel.Processor.Cpu
import Mathlib.Tactic.Common

/-!
# Words on the stack

What the processor pushes is found again above the stack pointer, and the memory outside
the pushed words is as before.
-/

namespace StarterKernel

open ByteMemory

/-- The words are in memory one behind the other, the first one at `address`. -/
def Stacked (memory : Nat -> UInt8) (address : UInt64) : List UInt64 -> Prop
  | [] => True
  | word :: words =>
      UInt64.ofNat (load memory address.toNat 8) = word ∧ Stacked memory (address + 8) words

variable {memory other : Nat -> UInt8} {words : List UInt64} {address : UInt64}

theorem toNat_sub_eight (room : 8 ≤ address.toNat) :
    (address - 8).toNat = address.toNat - 8 :=
  UInt64.toNat_sub_of_le _ _ (UInt64.le_iff_toNat_le.mpr room)

theorem toNat_add_eight (room : address.toNat + 8 < 2 ^ 64) :
    (address + 8).toNat = address.toNat + 8 := by
  rw [UInt64.toNat_add]
  exact Nat.mod_eq_of_lt room

/-- Words depend on their own bytes only. -/
theorem Stacked.congr (stacked : Stacked memory address words)
    (fits : address.toNat + 8 * words.length ≤ 2 ^ 64)
    (same : ∀ position, address.toNat ≤ position ->
      position < address.toNat + 8 * words.length -> other position = memory position) :
    Stacked other address words := by
  induction words generalizing address with
  | nil => trivial
  | cons word words inductionHypothesis =>
      rw [List.length_cons] at fits same
      refine ⟨?_, ?_⟩
      · rw [load_congr fun offset bound => same _ (by omega) (by omega)]
        exact stacked.1
      · rcases words with _ | ⟨next, words⟩
        · trivial
        · rw [List.length_cons] at fits same
          have up := @toNat_add_eight address (by omega)
          refine inductionHypothesis stacked.2 ?_ fun position above below => ?_
          · rw [List.length_cons]
            omega
          · rw [List.length_cons] at below
            exact same position (by omega) (by omega)

namespace Cpu

variable {cpu : Cpu} {value word : UInt64} {values : List UInt64} {position : Nat}

theorem loadWord_eq (stacked : Stacked cpu.memory address (word :: words)) :
    cpu.loadWord address = word := stacked.1

/-- The processor with another stack pointer and another memory. -/
def withStack (cpu : Cpu) (rsp : UInt64) (memory : Nat -> UInt8) : Cpu :=
  { cpu.setRegister .rsp rsp with memory := memory }

theorem registers_setRegister {register target : Register} (other : register ≠ target) :
    (cpu.setRegister target value).registers register = cpu.registers register := by
  simp only [setRegister, Function.update_of_ne other]

theorem registers_setRegister_self {register : Register} :
    (cpu.setRegister register value).registers register = value := by
  simp only [setRegister, Function.update_self]

theorem rsp_setRegister : (cpu.setRegister .rsp value).rsp = value := by
  simp only [rsp, setRegister, Function.update_self]

theorem withStack_withStack :
    (cpu.withStack value memory).withStack word other = cpu.withStack word other := by
  simp only [withStack, setRegister, Function.update_idem]

theorem push_eq : cpu.push value =
    cpu.withStack (cpu.rsp - 8) (store cpu.memory (cpu.rsp - 8).toNat 8 value.toNat) := rfl

theorem rsp_push : (cpu.push value).rsp = cpu.rsp - 8 := rsp_setRegister

theorem memory_push (room : 8 ≤ cpu.rsp.toNat)
    (outside : position < cpu.rsp.toNat - 8 ∨ cpu.rsp.toNat ≤ position) :
    (cpu.push value).memory position = cpu.memory position := by
  have down := toNat_sub_eight room
  exact store_outside (by omega)

/-- A pushed word is below the words of the stack. -/
theorem stacked_push (stacked : Stacked cpu.memory cpu.rsp words) (room : 8 ≤ cpu.rsp.toNat)
    (fits : cpu.rsp.toNat + 8 * words.length ≤ 2 ^ 64) :
    Stacked (cpu.push value).memory (cpu.push value).rsp (value :: words) := by
  have back : cpu.rsp - 8 + 8 = cpu.rsp := UInt64.sub_add_cancel _ _
  rw [rsp_push, Stacked, back]
  refine ⟨?_, stacked.congr fits fun position above below =>
    memory_push room (Or.inr above)⟩
  rw [push_eq]
  exact (congrArg UInt64.ofNat (load_store.trans (Nat.mod_eq_of_lt value.toNat_lt))).trans
    UInt64.ofNat_toNat

/-! ## Several words -/

theorem pushAll_cons : cpu.pushAll (value :: values) = (cpu.push value).pushAll values := rfl

/-- Pushing changes the stack pointer and the memory only. -/
theorem pushAll_eq :
    cpu.pushAll values = cpu.withStack (cpu.pushAll values).rsp (cpu.pushAll values).memory := by
  induction values generalizing cpu with
  | nil =>
      simp only [pushAll, List.foldl_nil, withStack, setRegister, rsp, Function.update_eq_self]
  | cons value values inductionHypothesis =>
      rw [pushAll_cons]
      exact inductionHypothesis.trans withStack_withStack

/-- The processor at another instruction. -/
def jump (cpu : Cpu) (rip : UInt64) : Cpu := { cpu with rip := rip }

theorem jump_jump : (cpu.jump value).jump word = cpu.jump word := rfl

theorem pushAll_jump : (cpu.jump word).pushAll values = (cpu.pushAll values).jump word := by
  induction values generalizing cpu with
  | nil => rfl
  | cons value values inductionHypothesis =>
      rw [pushAll_cons, pushAll_cons, ← inductionHypothesis]
      rfl

theorem registers_pushAll {register : Register} (other : register ≠ .rsp) :
    (cpu.pushAll values).registers register = cpu.registers register := by
  rw [pushAll_eq]
  exact registers_setRegister other

theorem rsp_pushAll (room : 8 * values.length ≤ cpu.rsp.toNat) :
    (cpu.pushAll values).rsp.toNat = cpu.rsp.toNat - 8 * values.length := by
  induction values generalizing cpu with
  | nil => rfl
  | cons value values inductionHypothesis =>
      rw [List.length_cons] at room ⊢
      have down := @toNat_sub_eight cpu.rsp (by omega)
      rw [pushAll_cons, inductionHypothesis (by rw [rsp_push]; omega), rsp_push]
      omega

theorem memory_pushAll (room : 8 * values.length ≤ cpu.rsp.toNat)
    (outside : position < cpu.rsp.toNat - 8 * values.length ∨ cpu.rsp.toNat ≤ position) :
    (cpu.pushAll values).memory position = cpu.memory position := by
  induction values generalizing cpu with
  | nil => rfl
  | cons value values inductionHypothesis =>
      rw [List.length_cons] at room outside
      have down := @toNat_sub_eight cpu.rsp (by omega)
      rw [pushAll_cons, inductionHypothesis (by rw [rsp_push]; omega)
        (by rw [rsp_push]; omega), memory_push (by omega) (by omega)]

theorem stacked_pushAll (stacked : Stacked cpu.memory cpu.rsp words)
    (room : 8 * values.length ≤ cpu.rsp.toNat)
    (fits : cpu.rsp.toNat + 8 * words.length ≤ 2 ^ 64) :
    Stacked (cpu.pushAll values).memory (cpu.pushAll values).rsp (values.reverse ++ words) := by
  induction values generalizing cpu words with
  | nil => exact stacked
  | cons value values inductionHypothesis =>
      rw [List.length_cons] at room
      have down := @toNat_sub_eight cpu.rsp (by omega)
      have pushed := @stacked_push words cpu value stacked (by omega) fits
      rw [List.reverse_cons, List.append_assoc, List.singleton_append, pushAll_cons]
      refine inductionHypothesis pushed ?_ ?_
      · rw [rsp_push]
        omega
      · rw [rsp_push, List.length_cons]
        omega

end Cpu
end StarterKernel
