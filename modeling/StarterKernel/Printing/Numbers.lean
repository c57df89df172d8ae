import StarterKernel.Kernel.Kprint
import StarterKernel.Library.Numerals
import Mathlib.Logic.Relation

/-!
# What the number printers print

Both printers print a leading digit and then the array, which holds the other digits
from `place` on.  The invariant of the loop that fills the array is that the numeral
of the value still to be split, followed by the digits stored so far, is the numeral
of the argument.
-/

namespace StarterKernel

open Numerals (numeral parse)

/-- The array holds the digits from the slot `place` on. -/
def StoredDigits (slots : Nat -> Option Nat) : (place : Nat) -> List Nat -> Prop
  | _, [] => True
  | place, digit :: digits => slots place = some digit ∧ StoredDigits slots (place + 1) digits

/-- A round of the loop that fills the array. -/
def DigitState.Round (base : Nat) (digitByte : Nat -> UInt8)
    (before after : DigitState) : Prop :=
  before.value / base ≠ 0 ∧ after = before.fillRoundIn base digitByte

/-- The digits still to be split off fit in the slots up to `place`. -/
structure DigitState.Fits (base size : Nat) (state : DigitState) : Prop where
  inside : state.place < size
  room : base ≤ state.value -> state.value < base ^ (state.place + 2)

variable {base size fuel place : Nat} {digitByte : Nat -> UInt8}
variable {slots : Nat -> Option Nat} {digits low : List Nat} {printed : List UInt8}
variable {state after : DigitState}

namespace StoredDigits

/-- A slot below the stored digits can be written. -/
theorem update {slot digit : Nat} (stored : StoredDigits slots place digits)
    (below : slot < place) :
    StoredDigits (Function.update slots slot (some digit)) place digits := by
  induction digits generalizing place with
  | nil => exact trivial
  | cons head digits inductionHypothesis =>
      refine ⟨?_, inductionHypothesis stored.2 (by omega)⟩
      rw [Function.update_of_ne (by omega), stored.1]

theorem push {digit : Nat} (stored : StoredDigits slots (place + 1) digits) :
    StoredDigits (Function.update slots place (some digit)) place (digit :: digits) :=
  ⟨Function.update_self _ _ _, stored.update (Nat.lt_succ_self place)⟩

/-- The loop over the array prints the stored digits. -/
theorem printIn (stored : StoredDigits slots place digits)
    (total : place + digits.length = size) (enough : digits.length < fuel) :
    DigitState.printIn digitByte size slots fuel place printed =
      some (printed ++ digits.map digitByte) := by
  induction digits generalizing place fuel printed with
  | nil =>
      obtain ⟨fuel, rfl⟩ : ∃ rest, fuel = rest + 1 :=
        ⟨fuel - 1, by simp only [List.length_nil] at enough; omega⟩
      simp only [List.length_nil] at total
      rw [DigitState.printIn, if_neg (by omega), List.map_nil, List.append_nil]
  | cons digit digits inductionHypothesis =>
      obtain ⟨fuel, rfl⟩ : ∃ rest, fuel = rest + 1 :=
        ⟨fuel - 1, by simp only [List.length_cons] at enough; omega⟩
      simp only [List.length_cons] at total enough
      rw [DigitState.printIn, if_pos (by omega), stored.1]
      dsimp only
      rw [inductionHypothesis stored.2 (by omega) (by omega), List.map_cons,
        List.append_assoc, List.singleton_append]

end StoredDigits

namespace DigitState

/-- The place after a round: the slot is the last one to be written if the value that
is left has one digit. -/
theorem place_fillRoundIn (inside : state.place < size) (word : size < wordSize)
    (room : ¬state.value / base < base -> 0 < state.place) :
    (state.fillRoundIn base digitByte).place =
      if state.value / base < base then state.place else state.place - 1 := by
  unfold fillRoundIn
  dsimp only
  unfold wordSize at *
  split
  · omega
  · have := room ‹_›
    omega

/-- A value of more than two digits needs a further slot. -/
theorem Fits.positive (fits : state.Fits base size)
    (more : ¬state.value / base < base) : 0 < state.place := by
  by_contra zero
  have isZero : state.place = 0 := by omega
  have several : base ≤ state.value :=
    (Nat.le_of_not_lt more).trans (Nat.div_le_self _ _)
  have room := fits.room several
  rw [isZero, Nat.zero_add, pow_two] at room
  exact more (Nat.div_lt_of_lt_mul room)

/-- The slots suffice for the value that a round leaves. -/
theorem Fits.round (fits : state.Fits base size) (word : size < wordSize) :
    (state.fillRoundIn base digitByte).Fits base size := by
  have place : (state.fillRoundIn base digitByte).place =
      if state.value / base < base then state.place else state.place - 1 :=
    place_fillRoundIn fits.inside word fits.positive
  constructor
  · rw [place]
    have := fits.inside
    split <;> omega
  · intro several
    have more : ¬state.value / base < base := Nat.not_lt.mpr several
    have positive := fits.positive more
    have room := fits.room ((Nat.le_of_not_lt more).trans (Nat.div_le_self _ _))
    rw [place, if_neg more]
    have exponent : state.place - 1 + 2 = state.place + 1 := by omega
    rw [exponent]
    rw [pow_succ, Nat.mul_comm] at room
    exact Nat.div_lt_of_lt_mul room

/-- The index stays inside the array in every round. -/
theorem Fits.rounds (fits : state.Fits base size) (word : size < wordSize)
    (run : Relation.ReflTransGen (Round base digitByte) state after) :
    after.Fits base size := by
  induction run with
  | refl => exact fits
  | tail _ step inductionHypothesis =>
      obtain ⟨_, rfl⟩ := step
      exact inductionHypothesis.round word

/-- The loop that fills the array ends, having printed the leading digit and stored
the others. -/
theorem fillIn_spec (large : 1 < base)
    (agree : ∀ digit < base, digitByte digit = Numerals.digitByte digit)
    (word : size < wordSize) (fits : state.Fits base size)
    (several : base ≤ state.value) (enough : state.place + 2 ≤ fuel)
    (stored : StoredDigits state.digits (state.place + 1) low)
    (total : state.place + 1 + low.length = size) :
    ∃ final lead digits,
      fillIn base digitByte size fuel state = some final ∧
      final.printed = state.printed ++ [digitByte lead] ∧
      StoredDigits final.digits final.place digits ∧
      final.place + digits.length = size ∧
      digitByte lead :: digits.map digitByte =
        numeral base state.value ++ low.map digitByte := by
  induction fuel generalizing state low with
  | zero => omega
  | succ fuel inductionHypothesis =>
      have quotient : state.value / base ≠ 0 :=
        Nat.ne_of_gt (Nat.div_pos several (by omega))
      have remainder : state.value % base < base := Nat.mod_lt _ (by omega)
      have place : (state.fillRoundIn base digitByte).place =
          if state.value / base < base then state.place else state.place - 1 :=
        place_fillRoundIn fits.inside word fits.positive
      have split : numeral base state.value ++ low.map digitByte =
          numeral base (state.value / base) ++
            ((state.value % base) :: low).map digitByte := by
        rw [Numerals.numeral_of_le large several, List.append_assoc,
          List.singleton_append, List.map_cons, agree _ remainder]
      rw [fillIn, if_neg quotient, if_pos fits.inside, split]
      by_cases last : state.value / base < base
      · rw [if_pos last] at place
        obtain ⟨fuel, rfl⟩ : ∃ rest, fuel = rest + 1 := ⟨fuel - 1, by omega⟩
        have ends : (state.fillRoundIn base digitByte).value / base = 0 :=
          Nat.div_eq_of_lt last
        refine ⟨state.fillRoundIn base digitByte, state.value / base,
          (state.value % base) :: low, ?_, ?_, ?_, ?_, ?_⟩
        · rw [fillIn, if_pos ends]
        · exact if_pos last
        · rw [place]
          exact stored.push
        · rw [place, List.length_cons]
          omega
        · rw [Numerals.numeral_of_lt last, agree _ last, List.singleton_append]
      · rw [if_neg last] at place
        have positive := fits.positive last
        have sameDigits : (state.fillRoundIn base digitByte).digits =
            Function.update state.digits state.place (some (state.value % base)) := rfl
        have unprinted : (state.fillRoundIn base digitByte).printed = state.printed :=
          if_neg last
        have next : state.place - 1 + 1 = state.place := by omega
        have pushed : StoredDigits (state.fillRoundIn base digitByte).digits
            ((state.fillRoundIn base digitByte).place + 1)
            ((state.value % base) :: low) := by
          rw [place, next, sameDigits]
          exact stored.push
        have later := inductionHypothesis (fits.round word) (Nat.le_of_not_lt last)
          (by rw [place]; omega) pushed (by rw [place, List.length_cons]; omega)
        rwa [unprinted] at later

/-- The printers print a numeral in an array of their own. -/
theorem fillIn_printIn (large : 1 < base)
    (agree : ∀ digit < base, digitByte digit = Numerals.digitByte digit)
    (word : size < wordSize) (nonempty : 0 < size) {value : Nat} (several : base ≤ value)
    (room : value < base ^ (size + 1)) :
    ∃ final,
      fillIn base digitByte size (size + 1)
        { value := value, place := size - 1, digits := fun _ => none, printed := [] } =
          some final ∧
      printIn digitByte size final.digits (size + 1) final.place final.printed =
        some (numeral base value) := by
  have length : size - 1 + 2 = size + 1 := by omega
  obtain ⟨final, lead, digits, fills, printed, stored, total, isNumeral⟩ :=
    @fillIn_spec base size (size + 1) digitByte []
      { value := value, place := size - 1, digits := fun _ => none, printed := [] }
      large agree word
      { inside := by
          dsimp only
          omega
        room := fun _ => by
          dsimp only
          rwa [length] }
      several (by dsimp only; omega) trivial
      (by dsimp only [List.length_nil]; omega)
  refine ⟨final, fills, ?_⟩
  rw [stored.printIn total (by omega), printed, List.nil_append, List.singleton_append,
    isNumeral, List.map_nil, List.append_nil]

end DigitState

/-! ## `kprint_d` -/

/-- The byte `kprint_d` prints for a digit. -/
def kprintDDigit (digit : Nat) : UInt8 := UInt8.ofNat (digit + 48)

theorem kprintDDigit_eq {digit : Nat} (small : digit < 10) :
    kprintDDigit digit = Numerals.digitByte digit := by
  have all : ∀ digit : Fin 10, kprintDDigit digit = Numerals.digitByte digit := by
    decide
  exact all ⟨digit, small⟩

theorem fill_eq_fillIn (fuel : Nat) (state : DigitState) :
    DigitState.fill fuel state = DigitState.fillIn 10 kprintDDigit 20 fuel state := by
  induction fuel generalizing state with
  | zero => rfl
  | succ fuel inductionHypothesis =>
      rw [DigitState.fill, DigitState.fillIn, inductionHypothesis]
      rfl

theorem print_eq_printIn (slots : Nat -> Option Nat) (fuel place : Nat)
    (printed : List UInt8) :
    DigitState.print slots fuel place printed =
      DigitState.printIn kprintDDigit 20 slots fuel place printed := by
  induction fuel generalizing place printed with
  | zero => rfl
  | succ fuel inductionHypothesis =>
      rw [DigitState.print, DigitState.printIn]
      simp only [inductionHypothesis]
      rfl

/-- The array of a printer has room for every 64-bit word. -/
theorem fits_word {base size value : Nat} (nonempty : 0 < size)
    (room : wordSize ≤ base ^ (size + 1)) (word : value < wordSize) :
    DigitState.Fits base size
      { value := value, place := size - 1, digits := fun _ => none, printed := [] } where
  inside := by
    dsimp only
    omega
  room := fun _ => by
    have length : size - 1 + 2 = size + 1 := by omega
    dsimp only
    rw [length]
    omega

theorem kprintDBytes_eq {value : Nat} (word : value < wordSize) :
    kprintDBytes value = some (numeral 10 value) := by
  rw [kprintDBytes]
  by_cases small : value < 10
  · rw [if_pos small, Numerals.numeral_of_lt small, ← kprintDDigit_eq small]
    rfl
  · obtain ⟨final, fills, prints⟩ := DigitState.fillIn_printIn (by decide)
      (fun _ => kprintDDigit_eq) (by decide) (by decide) (Nat.le_of_not_lt small)
      (word.trans_le (by decide : wordSize ≤ 10 ^ (20 + 1)))
    rw [if_neg small, fill_eq_fillIn, fills]
    dsimp only
    rw [print_eq_printIn, prints]

/-- `kprint_d` prints every word in decimal.  It reads only slots it has written, and
its index stays inside the array while it fills it. -/
theorem kprint_d_prints_decimal {value : Nat} (word : value < wordSize) :
    kprintDBytes value = some (numeral 10 value) ∧
      ∀ state,
        Relation.ReflTransGen (DigitState.Round 10 kprintDDigit)
          { value := value, place := 19, digits := fun _ => none, printed := [] } state ->
        state.place < 20 := by
  refine ⟨kprintDBytes_eq word, fun state run => ?_⟩
  exact ((fits_word (by decide) (by decide) word).rounds (by decide) run).inside

/-- The largest word. -/
theorem kprint_d_prints_decimal_largest :
    kprintDBytes (2 ^ 64 - 1) = some (numeral 10 (2 ^ 64 - 1)) :=
  (kprint_d_prints_decimal (by decide)).1

/-! ## `kprint_x` and `kprint_p` -/

theorem kprintXDigit_eq {digit : Nat} (small : digit < 16) :
    kprintXDigit digit = Numerals.digitByte digit := by
  have all : ∀ digit : Fin 16, kprintXDigit digit = Numerals.digitByte digit := by
    decide
  exact all ⟨digit, small⟩

/-- `kprint_x` prints every word but 16 in hexadecimal. -/
theorem kprintXBytes_eq {value : Nat} (word : value < wordSize) (notBase : value ≠ 16) :
    kprintXBytes value = some (numeral 16 value) := by
  rw [kprintXBytes]
  by_cases small : value < 17
  · have oneDigit : value < 16 := by omega
    rw [if_pos small, Numerals.numeral_of_lt oneDigit, kprintXDigit_eq oneDigit]
  · obtain ⟨final, fills, prints⟩ := DigitState.fillIn_printIn (by decide)
      (fun _ => kprintXDigit_eq) (by decide) (by decide) (by omega)
      (word.trans_le (by decide : wordSize ≤ 16 ^ (16 + 1)))
    rw [if_neg small, fills]
    exact prints

/-- What `kprint_x` prints for a word. -/
def hexText (value : Nat) : List UInt8 :=
  if value = 16 then [103] else numeral 16 value

theorem kprintXBytes_hexText {value : Nat} (word : value < wordSize) :
    kprintXBytes value = some (hexText value) := by
  unfold hexText
  split
  next isBase =>
    rw [isBase]
    decide
  next notBase => exact kprintXBytes_eq word notBase

theorem hexText_ne_nil {value : Nat} : hexText value ≠ [] := by
  unfold hexText
  split
  next => exact List.cons_ne_nil _ _
  next => exact Numerals.numeral_ne_nil

theorem mem_hexText {value : Nat} {byte : UInt8} (member : byte ∈ hexText value) :
    (Numerals.byteDigit byte).isSome = true ∨ byte = 103 := by
  unfold hexText at member
  split at member
  next => exact Or.inr (List.mem_singleton.mp member)
  next => exact Or.inl (Numerals.isSome_of_mem_numeral (by decide) (by decide) member)

/-- Different words are printed differently. -/
theorem hexText_injective : Function.Injective hexText := by
  have noDigit : ∀ value, numeral 16 value ≠ [103] := by
    intro value same
    have member : 103 ∈ numeral 16 value := by simp [same]
    exact absurd (Numerals.isSome_of_mem_numeral (by decide) (by decide) member)
      (by decide)
  intro left right same
  unfold hexText at same
  split at same <;> split at same
  next isLeft isRight => rw [isLeft, isRight]
  next => exact absurd same.symm (noDigit right)
  next => exact absurd same (noDigit left)
  next => exact Numerals.numeral_injective (by decide) (by decide) same

/-- The short path of `kprint_x` takes the value 16 for a digit. -/
theorem kprint_x_misprints_sixteen :
    kprintXBytes 16 = some [103] ∧ kprintPBytes 16 = some [48, 120, 103] ∧
      numeral 16 16 = [49, 48] ∧ parse 16 [103] = none := by
  decide

/-- `kprint_x` prints a word in hexadecimal and `kprint_p` prints the same after `0x`,
so that the number can be read back, exactly when the word is not 16. -/
theorem kprint_x_prints_hexadecimal_iff {value : Nat} (word : value < wordSize) :
    (kprintXBytes value = some (numeral 16 value) ∧
      kprintPBytes value = some ([48, 120] ++ numeral 16 value) ∧
      (kprintXBytes value).bind (parse 16) = some value ∧
      ∀ state,
        Relation.ReflTransGen (DigitState.Round 16 kprintXDigit)
          { value := value, place := 15, digits := fun _ => none, printed := [] } state ->
        state.place < 16) ↔
      value ≠ 16 := by
  constructor
  · rintro ⟨prints, -⟩ rfl
    revert prints
    decide
  · intro notBase
    have prints := kprintXBytes_eq word notBase
    have room : wordSize ≤ 16 ^ (15 + 1) := by decide
    refine ⟨prints, ?_, ?_, fun state run => ?_⟩
    · rw [kprintPBytes, prints]
      rfl
    · rw [prints]
      exact Numerals.parse_numeral (by decide) (by decide) value
    · have bound : wordSize ≤ 16 ^ (16 + 1) := room.trans (by decide)
      exact ((fits_word (by decide) bound word).rounds (by decide) run).inside

/-- The example of the test in `testing.c`. -/
theorem kprint_x_prints_hexadecimal_sample :
    kprintXBytes 4738295 = some (numeral 16 4738295) :=
  ((kprint_x_prints_hexadecimal_iff (by decide)).mpr (by decide)).1

end StarterKernel
