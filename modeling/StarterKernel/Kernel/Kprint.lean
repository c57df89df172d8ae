import StarterKernel.Kernel.Machine

/-!
# Printing numbers (`kprint.c`)

`kprint_d` and `kprint_x` collect the digits of their argument from the right end of
an array, except the leading one, which they print as soon as it is reached.
-/

namespace StarterKernel

/-- The variables of `kprint_d` while it fills its array: a slot of `digits` is
`none` until it is written, and `printed` holds the bytes given to `kprint_c`. -/
structure DigitState where
  value : Nat
  place : Nat
  digits : Nat -> Option Nat
  printed : List UInt8

/-- One round of the loop of `kprint_d` that fills the array. -/
def DigitState.fillRound (state : DigitState) : DigitState :=
  let digits := Function.update state.digits state.place (some (state.value % 10))
  let value := state.value / 10
  let printed :=
    if value < 10 then state.printed ++ [UInt8.ofNat (value + 48)]
    else state.printed
  let place := if value < 10 then (state.place + 1) % wordSize else state.place
  { value := value
    place := (place + (wordSize - 1)) % wordSize
    digits := digits
    printed := printed }

/-- The loop of `kprint_d` that fills the array; a write outside its 20 slots
or running out of `fuel` yields `none`. -/
def DigitState.fill : (fuel : Nat) -> DigitState -> Option DigitState
  | 0, _ => none
  | fuel + 1, state =>
      if state.value / 10 = 0 then some state
      else if state.place < 20 then fill fuel state.fillRound
      else none

/-- The loop of `kprint_d` that prints the array from `place` on; reading a slot
that was not written yields `none`. -/
def DigitState.print (digits : Nat -> Option Nat) :
    (fuel place : Nat) -> List UInt8 -> Option (List UInt8)
  | 0, _, _ => none
  | fuel + 1, place, printed =>
      if place < 20 then
        match digits place with
        | none => none
        | some digit =>
            print digits fuel (place + 1) (printed ++ [UInt8.ofNat (digit + 48)])
      else some printed

/-- The bytes `kprint_d` gives to `kprint_c`, or `none` if it uses its array out
of bounds or before it is written. -/
def kprintDBytes (value : Nat) : Option (List UInt8) :=
  if value < 10 then some [UInt8.ofNat (value + 48)]
  else
    match DigitState.fill 21
        { value := value, place := 19, digits := fun _ => none, printed := [] } with
    | none => none
    | some state => DigitState.print state.digits 21 state.place state.printed

example : kprintDBytes 1342 = some [49, 51, 52, 50] := by decide

/-! ## Hexadecimal -/

/-- One round of a loop that fills the array, in any base and with any digits. -/
def DigitState.fillRoundIn (base : Nat) (digitByte : Nat -> UInt8)
    (state : DigitState) : DigitState :=
  let digits := Function.update state.digits state.place (some (state.value % base))
  let value := state.value / base
  let printed :=
    if value < base then state.printed ++ [digitByte value] else state.printed
  let place := if value < base then (state.place + 1) % wordSize else state.place
  { value := value
    place := (place + (wordSize - 1)) % wordSize
    digits := digits
    printed := printed }

/-- The loop that fills an array of `size` slots. -/
def DigitState.fillIn (base : Nat) (digitByte : Nat -> UInt8) (size : Nat) :
    (fuel : Nat) -> DigitState -> Option DigitState
  | 0, _ => none
  | fuel + 1, state =>
      if state.value / base = 0 then some state
      else if state.place < size then
        fillIn base digitByte size fuel (state.fillRoundIn base digitByte)
      else none

/-- The loop that prints an array of `size` slots from `place` on. -/
def DigitState.printIn (digitByte : Nat -> UInt8) (size : Nat)
    (digits : Nat -> Option Nat) :
    (fuel place : Nat) -> List UInt8 -> Option (List UInt8)
  | 0, _, _ => none
  | fuel + 1, place, printed =>
      if place < size then
        match digits place with
        | none => none
        | some digit =>
            printIn digitByte size digits fuel (place + 1) (printed ++ [digitByte digit])
      else some printed

/-- The byte `kprint_x` prints for a digit: an offset from `0` or from `a`. -/
def kprintXDigit (digit : Nat) : UInt8 :=
  if digit < 10 then UInt8.ofNat (digit + 48) else UInt8.ofNat (digit + 97 - 10)

/-- The bytes `kprint_x` gives to `kprint_c`. -/
def kprintXBytes (value : Nat) : Option (List UInt8) :=
  if value < 17 then some [kprintXDigit value]
  else
    match DigitState.fillIn 16 kprintXDigit 16 17
        { value := value, place := 15, digits := fun _ => none, printed := [] } with
    | none => none
    | some state =>
        DigitState.printIn kprintXDigit 16 state.digits 17 state.place state.printed

/-- The bytes `kprint_p` gives to `kprint_c`. -/
def kprintPBytes (ptr : Nat) : Option (List UInt8) :=
  (kprintXBytes ptr).map fun bytes => [48, 120] ++ bytes

example : kprintPBytes 48362 = some [48, 120, 98, 99, 101, 97] := by decide

/-! ## The terminal -/

/-- Print one character. -/
def Machine.kprintC (machine : Machine) (c : UInt8) : Machine :=
  { machine with terminal := machine.terminal ++ [c] }

/-- Print a number in decimal. -/
def Machine.kprintD (machine : Machine) (value : Nat) : Machine :=
  { machine with
    terminal := machine.terminal ++ (kprintDBytes value).getD [] }

section KprintD

variable (machine : Machine) (value : Nat)

@[simp] theorem Machine.kprintD_memory :
    (machine.kprintD value).memory = machine.memory := by
  simp only [kprintD]

@[simp] theorem Machine.kprintD_hhdmBase :
    (machine.kprintD value).hhdmBase = machine.hhdmBase := by
  simp only [kprintD]

@[simp] theorem Machine.kprintD_freelist :
    (machine.kprintD value).freelist = machine.freelist := by
  simp only [kprintD]

@[simp] theorem Machine.kprintD_cr3 :
    (machine.kprintD value).cr3 = machine.cr3 := by
  simp only [kprintD]

@[simp] theorem Machine.kprintD_writeProtect :
    (machine.kprintD value).writeProtect = machine.writeProtect := by
  simp only [kprintD]

end KprintD

end StarterKernel
