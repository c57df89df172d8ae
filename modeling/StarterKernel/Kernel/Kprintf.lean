import StarterKernel.Kernel.Kprint

/-!
# Formatted printing (`kprintf`)

`kprintf` goes through its format up to the NUL.  At a `%` it prints the argument that
the next character calls for.
-/

namespace StarterKernel

/-- The characters of a string literal. -/
def textBytes (text : String) : List UInt8 :=
  text.toList.map fun character => UInt8.ofNat character.toNat

/-- What a string literal is followed by in memory does not matter: it ends with NUL. -/
def literal (text : String) (index : Nat) : UInt8 := (textBytes text).getD index 0

/-- The loop of `kprint_s` from character `i` on.  The counter is an `int`, so the fuel
of `2 ^ 31` rounds runs out exactly when it overflows. -/
def kprintSLoop (str : Nat -> UInt8) (len : Nat) : (fuel i : Nat) -> Option (List UInt8)
  | 0, _ => none
  | fuel + 1, i =>
      if i < len then (kprintSLoop str len fuel (i + 1)).map fun later => str i :: later
      else some []

/-- The bytes `kprint_s` gives to `term_putchar` for a string of the given characters
and a NUL. -/
def kprintSBytes (characters : List UInt8) : Option (List UInt8) :=
  let len := (characters.takeWhile (· ≠ 0)).length
  kprintSLoop (fun i => characters.getD i 0) len (2 ^ 31) 0

/-- An argument of `kprintf`: a word, or a pointer to the characters of a string. -/
inductive Argument
  | word (value : Nat)
  | text (characters : List UInt8)

/-- What the character after a `%` prints, and the arguments it leaves.  Taking an
argument that is not there or is of the wrong kind yields `none`. -/
def directive (character : UInt8) (args : List Argument) :
    Option (List UInt8 × List Argument) :=
  if character = 37 then some ([37], args)
  else if character = 99 then
    match args with
    | .word value :: args => some ([UInt8.ofNat value], args)
    | _ => none
  else if character = 115 then
    match args with
    | .text characters :: args => (kprintSBytes characters).map fun bytes => (bytes, args)
    | _ => none
  else if character = 100 then
    match args with
    | .word value :: args => (kprintDBytes value).map fun bytes => (bytes, args)
    | _ => none
  else if character = 120 then
    match args with
    | .word value :: args => (kprintXBytes value).map fun bytes => (bytes, args)
    | _ => none
  else if character = 112 then
    match args with
    | .word value :: args => (kprintPBytes value).map fun bytes => (bytes, args)
    | _ => none
  else (kprintSBytes (textBytes "<not supported>")).map fun bytes => (bytes, args)

/-- The loop of `kprintf` from an index of the format on. -/
def kprintfLoop (format : Nat -> UInt8) :
    (fuel index : Nat) -> List Argument -> Option (List UInt8)
  | 0, _, _ => none
  | fuel + 1, index, args =>
      if format index = 0 then some []
      else if format index = 37 then
        match directive (format (index + 1)) args with
        | none => none
        | some (bytes, args) =>
            (kprintfLoop format fuel (index + 2) args).map fun later => bytes ++ later
      else
        (kprintfLoop format fuel (index + 1) args).map fun later =>
          format index :: later

/-- The indices at which the loop of `kprintf` reads its format. -/
def kprintfReads (format : Nat -> UInt8) :
    (fuel index : Nat) -> List Argument -> List Nat
  | 0, _, _ => []
  | fuel + 1, index, args =>
      if format index = 0 then [index]
      else if format index = 37 then
        index :: (index + 1) ::
          match directive (format (index + 1)) args with
          | none => []
          | some (_, args) => kprintfReads format fuel (index + 2) args
      else index :: kprintfReads format fuel (index + 1) args

/-- The bytes `kprintf` gives to `kprint_c` for a literal format. -/
def kprintfBytes (format : String) (args : List Argument) : Option (List UInt8) :=
  kprintfLoop (literal format) (format.length + 1) 0 args

example : kprintfBytes "%d%% of %x" [.word 12, .word 255] =
    some (textBytes "12% of ff") := by decide

end StarterKernel
