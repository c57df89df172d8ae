import Mathlib.Tactic.Common

/-!
# Positional numerals

The numeral of a number in a base up to 16, as the bytes of its digits with the most
significant one first, and the number that a numeral denotes.
-/

namespace Numerals

/-- The byte of a digit: `0` to `9`, then `a` to `f`. -/
def digitByte (digit : Nat) : UInt8 := UInt8.ofNat (Nat.digitChar digit).toNat

/-- The canonical numeral, which has no leading zeros. -/
def numeral (base value : Nat) : List UInt8 :=
  (Nat.toDigits base value).map fun digit => UInt8.ofNat digit.toNat

/-- The digit of a byte, if it is the byte of one. -/
def byteDigit (byte : UInt8) : Option Nat :=
  if 48 ≤ byte.toNat ∧ byte.toNat < 58 then some (byte.toNat - 48)
  else if 97 ≤ byte.toNat ∧ byte.toNat < 103 then some (byte.toNat - 87)
  else none

/-- Continue a number with the digits of a numeral. -/
def parseFrom (base : Nat) (start : Option Nat) (bytes : List UInt8) : Option Nat :=
  bytes.foldl
    (fun value byte => value.bind fun value =>
      (byteDigit byte).bind fun digit =>
        if digit < base then some (base * value + digit) else none)
    start

/-- The number of a nonempty numeral whose bytes are digits of the base. -/
def parse (base : Nat) (bytes : List UInt8) : Option Nat :=
  if bytes = [] then none else parseFrom base (some 0) bytes

variable {base value digit : Nat} {bytes more : List UInt8}

theorem numeral_of_lt (small : value < base) : numeral base value = [digitByte value] := by
  rw [numeral, Nat.toDigits_of_lt_base small]
  rfl

theorem numeral_of_le (large : 1 < base) (several : base ≤ value) :
    numeral base value = numeral base (value / base) ++ [digitByte (value % base)] := by
  rw [numeral, Nat.toDigits_of_base_le large several, List.map_append]
  rfl

theorem numeral_ne_nil : numeral base value ≠ [] := by
  simp [numeral]

theorem byteDigit_digitByte (small : digit < 16) :
    byteDigit (digitByte digit) = some digit := by
  have all : ∀ digit : Fin 16, byteDigit (digitByte digit) = some digit.val := by
    decide
  exact all ⟨digit, small⟩

theorem parseFrom_append (start : Option Nat) :
    parseFrom base start (bytes ++ more) =
      parseFrom base (parseFrom base start bytes) more :=
  List.foldl_append

theorem parseFrom_digit (small : digit < base) (bound : base ≤ 16) :
    parseFrom base (some value) [digitByte digit] = some (base * value + digit) := by
  rw [parseFrom, List.foldl_cons, List.foldl_nil, Option.bind_some,
    byteDigit_digitByte (by omega), Option.bind_some, if_pos small]

/-- A numeral denotes its number. -/
theorem parse_numeral (large : 1 < base) (bound : base ≤ 16) (value : Nat) :
    parse base (numeral base value) = some value := by
  rw [parse, if_neg numeral_ne_nil]
  induction value using Nat.strongRecOn with
  | ind value inductionHypothesis =>
      by_cases small : value < base
      · rw [numeral_of_lt small, parseFrom_digit small bound, Nat.mul_zero,
          Nat.zero_add]
      · have several : base ≤ value := Nat.le_of_not_lt small
        have shorter : value / base < value :=
          Nat.div_lt_self (by omega) large
        have remainder : value % base < base := Nat.mod_lt value (by omega)
        rw [numeral_of_le large several, parseFrom_append,
          inductionHypothesis (value / base) shorter, parseFrom_digit remainder bound,
          Nat.div_add_mod]

/-- The bytes of a numeral are digits. -/
theorem isSome_of_mem_numeral (large : 1 < base) (bound : base ≤ 16) {byte : UInt8}
    (member : byte ∈ numeral base value) : (byteDigit byte).isSome = true := by
  induction value using Nat.strongRecOn with
  | ind value inductionHypothesis =>
      by_cases small : value < base
      · rw [numeral_of_lt small, List.mem_singleton] at member
        rw [member, byteDigit_digitByte (by omega)]
        rfl
      · have several : base ≤ value := Nat.le_of_not_lt small
        have remainder : value % base < base := Nat.mod_lt value (by omega)
        rw [numeral_of_le large several, List.mem_append, List.mem_singleton] at member
        rcases member with earlier | rfl
        · exact inductionHypothesis (value / base) (Nat.div_lt_self (by omega) large)
            earlier
        · rw [byteDigit_digitByte (by omega)]
          rfl

/-- Different numbers have different numerals. -/
theorem numeral_injective (large : 1 < base) (bound : base ≤ 16) :
    Function.Injective (numeral base) := by
  intro left right same
  have parsed := parse_numeral large bound left
  rw [same, parse_numeral large bound right] at parsed
  exact (Option.some.inj parsed).symm

end Numerals
