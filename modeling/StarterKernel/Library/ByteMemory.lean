import Mathlib.Tactic.Ring
import Mathlib.Logic.Function.Basic

/-!
# Little-endian words in byte memory

A memory assigns a byte to every address.  Words are read and written least
significant byte first.  A store is described by its effect on each address,
so the frame of every operation is read off from its definition.
-/

namespace ByteMemory

/-- The little-endian value of `count` bytes starting at `address`. -/
def load (memory : Nat -> UInt8) : (address count : Nat) -> Nat
  | _, 0 => 0
  | address, count + 1 =>
      (memory address).toNat + 256 * load memory (address + 1) count

/-- Write the low `count` bytes of `value` at `address`. -/
def store (memory : Nat -> UInt8) (address count value : Nat) :
    Nat -> UInt8 :=
  fun position =>
    if address ≤ position ∧ position < address + count then
      UInt8.ofNat (value / 256 ^ (position - address))
    else memory position

/-- Write the same byte at `count` consecutive addresses. -/
def fill (memory : Nat -> UInt8) (address count : Nat) (byte : UInt8) :
    Nat -> UInt8 :=
  fun position =>
    if address ≤ position ∧ position < address + count then byte
    else memory position

variable {memory other : Nat -> UInt8} {address count value : Nat}

@[simp] theorem load_zero : load memory address 0 = 0 := rfl

theorem load_succ :
    load memory address (count + 1) =
      (memory address).toNat + 256 * load memory (address + 1) count := rfl

theorem load_one : load memory address 1 = (memory address).toNat := by
  rw [load_succ, load_zero, Nat.mul_zero, Nat.add_zero]

/-- A word is smaller than the power of 256 given by its width. -/
theorem load_lt : load memory address count < 256 ^ count := by
  induction count generalizing address with
  | zero => simp
  | succ count inductionHypothesis =>
      have byteBound := (memory address).toNat_lt
      have tailBound : load memory (address + 1) count < 256 ^ count :=
        inductionHypothesis
      rw [load_succ, pow_succ]
      omega

/-- A load depends only on the bytes it covers. -/
theorem load_congr
    (agree : ∀ offset < count,
      other (address + offset) = memory (address + offset)) :
    load other address count = load memory address count := by
  induction count generalizing address with
  | zero => rfl
  | succ count inductionHypothesis =>
      have headAgrees := agree 0 (by omega)
      have tailAgrees : ∀ offset < count,
          other (address + 1 + offset) = memory (address + 1 + offset) := by
        intro offset bound
        have := agree (offset + 1) (by omega)
        rwa [show address + (offset + 1) = address + 1 + offset by omega] at this
      rw [load_succ, load_succ, inductionHypothesis tailAgrees]
      rw [show other address = memory address by simpa using headAgrees]

/-- A load from memory that is seen from `base` on. -/
theorem load_offset {base : Nat} :
    load (fun position => memory (base + position)) address count =
      load memory (base + address) count := by
  induction count generalizing address with
  | zero => rfl
  | succ count inductionHypothesis =>
      rw [load_succ, load_succ, inductionHypothesis, Nat.add_assoc]

/-- A word all of whose bytes are zero has value zero. -/
theorem load_eq_zero
    (zeros : ∀ offset < count, memory (address + offset) = 0) :
    load memory address count = 0 := by
  induction count generalizing address with
  | zero => rfl
  | succ count inductionHypothesis =>
      have tailZeros : ∀ offset < count,
          memory (address + 1 + offset) = 0 := by
        intro offset bound
        have := zeros (offset + 1) (by omega)
        rwa [show address + (offset + 1) = address + 1 + offset by omega] at this
      have headZero := zeros 0 (by omega)
      rw [load_succ, inductionHypothesis tailZeros]
      simp_all

theorem store_inside
    {position : Nat}
    (lower : address ≤ position) (upper : position < address + count) :
    store memory address count value position =
      UInt8.ofNat (value / 256 ^ (position - address)) := by
  rw [store, if_pos ⟨lower, upper⟩]

theorem store_outside
    {position : Nat}
    (outside : position < address ∨ address + count ≤ position) :
    store memory address count value position = memory position := by
  rw [store, if_neg (by omega)]

/-- A load that does not overlap a store sees the memory before it. -/
theorem load_store_of_disjoint
    {start width : Nat}
    (disjoint : start + width ≤ address ∨ address + count ≤ start) :
    load (store memory address count value) start width =
      load memory start width := by
  apply load_congr
  intro offset bound
  exact store_outside (by omega)

private theorem load_store_prefix
    (start : Nat) (memory : Nat -> UInt8)
    (stored : ∀ offset < count,
      memory (address + offset) =
        UInt8.ofNat (value / 256 ^ (start + offset))) :
    load memory address count = value / 256 ^ start % 256 ^ count := by
  induction count generalizing address start with
  | zero => simp [Nat.mod_one]
  | succ count inductionHypothesis =>
      have tailStored : ∀ offset < count,
          memory (address + 1 + offset) =
            UInt8.ofNat (value / 256 ^ (start + 1 + offset)) := by
        intro offset bound
        have := stored (offset + 1) (by omega)
        rwa [show address + (offset + 1) = address + 1 + offset by omega,
          show start + (offset + 1) = start + 1 + offset by omega] at this
      have headStored : memory address = UInt8.ofNat (value / 256 ^ start) := by
        simpa using stored 0 (by omega)
      rw [load_succ, inductionHypothesis (start + 1) tailStored, headStored,
        UInt8.toNat_ofNat', pow_succ 256 start, ← Nat.div_div_eq_div_mul,
        pow_succ' 256 count, Nat.mod_mul]

/-- Reading back a stored word gives its value truncated to the width. -/
theorem load_store :
    load (store memory address count value) address count =
      value % 256 ^ count := by
  have stored : ∀ offset < count,
      store memory address count value (address + offset) =
        UInt8.ofNat (value / 256 ^ (0 + offset)) := by
    intro offset bound
    rw [store_inside (by omega) (by omega)]
    congr 3
    omega
  simpa using load_store_prefix 0 _ stored

/-- A second store to the same range replaces the first. -/
theorem store_store {content : Nat} :
    store (store memory address count value) address count content =
      store memory address count content := by
  funext position
  unfold store
  split <;> rfl

/-- Stores to disjoint ranges commute. -/
theorem store_comm
    {start width content : Nat}
    (disjoint : start + width ≤ address ∨ address + count ≤ start) :
    store (store memory address count value) start width content =
      store (store memory start width content) address count value := by
  funext position
  unfold store
  by_cases first : address ≤ position ∧ position < address + count <;>
    by_cases second : start ≤ position ∧ position < start + width <;>
    simp only [first, second, if_false]
  omega

theorem fill_inside
    {byte : UInt8} {position : Nat}
    (lower : address ≤ position) (upper : position < address + count) :
    fill memory address count byte position = byte := by
  rw [fill, if_pos ⟨lower, upper⟩]

theorem fill_outside
    {byte : UInt8} {position : Nat}
    (outside : position < address ∨ address + count ≤ position) :
    fill memory address count byte position = memory position := by
  rw [fill, if_neg (by omega)]

-- From here on the three operations are known by their lemmas.
attribute [irreducible] load store fill

end ByteMemory
