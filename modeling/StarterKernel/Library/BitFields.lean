import StarterKernel.Library.ByteMemory
import Mathlib.Data.Nat.Bitwise

/-!
# Bit fields in byte memory

A packed record is a sequence of bits: bit `m` is bit `m % 8` of byte `m / 8`.  A field
is a window of these bits.  Writing it reads the bytes it touches, replaces its bits in
them and stores them back, so every other bit of the record is kept.
-/

namespace BitFields

/-- The bit of a record at `base` with the given number. -/
def bit (memory : Nat -> UInt8) (base number : Nat) : Bool :=
  (memory (base + number / 8)).toNat.testBit (number % 8)

/-- A word with `width` bits from `shift` on replaced by those of `value`. -/
def insert (word shift width value : Nat) : Nat :=
  word % 2 ^ shift + 2 ^ shift * (value % 2 ^ width + 2 ^ width * (word / 2 ^ (shift + width)))

/-- Write a field of `width` bits, the first of which has the number `position`. -/
def set (memory : Nat -> UInt8) (base position width value : Nat) : Nat -> UInt8 :=
  let address := base + position / 8
  let count := (position % 8 + width + 7) / 8
  let word := ByteMemory.load memory address count
  ByteMemory.store memory address count (insert word (position % 8) width value)

variable {memory : Nat -> UInt8} {base position width value number other count : Nat}

theorem testBit_insert {word shift : Nat} :
    (insert word shift width value).testBit number =
      if number < shift then word.testBit number
      else if number < shift + width then value.testBit (number - shift)
      else word.testBit number := by
  rw [insert, Nat.add_comm, Nat.testBit_two_pow_mul_add _ (Nat.mod_lt _ (Nat.two_pow_pos _)),
    Nat.testBit_mod_two_pow, Nat.add_comm (value % _),
    Nat.testBit_two_pow_mul_add _ (Nat.mod_lt _ (Nat.two_pow_pos _)),
    Nat.testBit_mod_two_pow, Nat.testBit_div_two_pow]
  by_cases below : number < shift
  · simp [below]
  · rw [if_neg below, if_neg below]
    by_cases inside : number < shift + width
    · simp [inside, show number - shift < width by omega]
    · rw [if_neg (by omega), if_neg inside]
      congr 1
      omega

/-- The bits of a word in memory. -/
theorem testBit_load :
    (ByteMemory.load memory base count).testBit number =
      (decide (number < 8 * count) && bit memory base number) := by
  induction count generalizing base number with
  | zero => simp
  | succ count inductionHypothesis =>
      have small : (memory base).toNat < 2 ^ 8 := (memory base).toNat_lt
      rw [ByteMemory.load_succ, Nat.add_comm, show 256 = 2 ^ 8 from rfl,
        Nat.testBit_two_pow_mul_add _ small]
      by_cases first : number < 8
      · rw [if_pos first, bit, Nat.div_eq_of_lt first, Nat.mod_eq_of_lt first]
        simp [show number < 8 * (count + 1) by omega]
      · rw [if_neg first, inductionHypothesis, bit, bit,
          show base + 1 + (number - 8) / 8 = base + number / 8 by omega,
          show (number - 8) % 8 = number % 8 by omega]
        congr 1
        exact decide_eq_decide.mpr (by omega)

theorem bit_store {address : Nat} :
    bit (ByteMemory.store memory (base + address) count value) base number =
      if 8 * address ≤ number ∧ number < 8 * (address + count) then
        value.testBit (number - 8 * address)
      else bit memory base number := by
  unfold bit
  by_cases inside : 8 * address ≤ number ∧ number < 8 * (address + count)
  · rw [if_pos inside, ByteMemory.store_inside (by omega) (by omega), UInt8.toNat_ofNat',
      show 256 = 2 ^ 8 from rfl, ← pow_mul, Nat.testBit_mod_two_pow,
      Nat.testBit_div_two_pow]
    simp only [Nat.mod_lt number (show 8 > 0 by decide), decide_true, Bool.true_and]
    congr 1
    omega
  · rw [if_neg inside, ByteMemory.store_outside (by omega)]

theorem bit_offset {address : Nat} (above : 8 * address ≤ number) :
    bit memory (base + address) (number - 8 * address) = bit memory base number := by
  rw [bit, bit, show base + address + (number - 8 * address) / 8 = base + number / 8 by omega,
    show (number - 8 * address) % 8 = number % 8 by omega]

/-- Writing a field changes its own bits only. -/
theorem bit_set :
    bit (set memory base position width value) base number =
      if position ≤ number ∧ number < position + width then
        value.testBit (number - position)
      else bit memory base number := by
  unfold set
  rw [bit_store, testBit_insert, testBit_load]
  by_cases touched : 8 * (position / 8) ≤ number ∧
      number < 8 * (position / 8 + (position % 8 + width + 7) / 8)
  · have read : number - 8 * (position / 8) < 8 * ((position % 8 + width + 7) / 8) := by
      omega
    rw [if_pos touched, bit_offset touched.1, decide_eq_true read, Bool.true_and]
    by_cases below : number < position
    · rw [if_pos (by omega), if_neg (by omega)]
    · by_cases inside : number < position + width
      · rw [if_neg (by omega), if_pos (by omega), if_pos (by omega)]
        congr 1
        omega
      · rw [if_neg (by omega), if_neg (by omega), if_neg (by omega)]
  · rw [if_neg touched, if_neg (by omega)]

/-- Writing a field changes none of the bytes of another record. -/
theorem set_outside {address size : Nat} (inside : position + width ≤ 8 * size)
    (outside : address < base ∨ base + size ≤ address) :
    set memory base position width value address = memory address :=
  ByteMemory.store_outside (by omega)

/-- A word is determined by its bits. -/
theorem load_eq (bound : value < 2 ^ (8 * count))
    (bits : ∀ number < 8 * count, bit memory base number = value.testBit number) :
    ByteMemory.load memory base count = value := by
  apply Nat.eq_of_testBit_eq
  intro number
  rw [testBit_load]
  by_cases inside : number < 8 * count
  · rw [decide_eq_true inside, Bool.true_and, bits number inside]
  · rw [decide_eq_false inside, Bool.false_and, Nat.testBit_lt_two_pow]
    exact bound.trans_le (Nat.pow_le_pow_right (by decide) (by omega))

/-- A field of whole bytes is read as the value written. -/
theorem load_set_whole {address : Nat} (first : position = 8 * address)
    (whole : width = 8 * count) :
    ByteMemory.load (set memory base position width value) (base + address) count =
      value % 2 ^ (8 * count) := by
  refine load_eq (Nat.mod_lt _ (Nat.two_pow_pos _)) fun number inside => ?_
  have shifted := @bit_offset (set memory base position width value) base
    (8 * address + number) address (Nat.le_add_right _ number)
  rw [Nat.add_sub_cancel_left] at shifted
  rw [shifted, bit_set, if_pos (by omega), Nat.testBit_mod_two_pow, decide_eq_true inside,
    Bool.true_and, first, Nat.add_sub_cancel_left]

/-- The bytes that a field touches are read as the word written. -/
theorem load_set_word :
    ByteMemory.load (set memory base position width value) (base + position / 8)
        ((position % 8 + width + 7) / 8) =
      insert (ByteMemory.load memory (base + position / 8) ((position % 8 + width + 7) / 8))
        (position % 8) width value % 256 ^ ((position % 8 + width + 7) / 8) :=
  ByteMemory.load_store

/-- Bytes without a bit of the field are read as before. -/
theorem load_set_other {address : Nat}
    (apart : 8 * (address + count) ≤ position ∨ position + width ≤ 8 * address) :
    ByteMemory.load (set memory base position width value) (base + address) count =
      ByteMemory.load memory (base + address) count := by
  apply Nat.eq_of_testBit_eq
  intro number
  rw [testBit_load, testBit_load]
  by_cases inside : number < 8 * count
  · have shifted (bytes : Nat -> UInt8) := @bit_offset bytes base
      (8 * address + number) address (Nat.le_add_right _ number)
    simp only [Nat.add_sub_cancel_left] at shifted
    rw [shifted, shifted, bit_set, if_neg (by omega)]
  · rw [decide_eq_false inside, Bool.false_and, Bool.false_and]

end BitFields
