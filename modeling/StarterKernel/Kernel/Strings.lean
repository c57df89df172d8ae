import StarterKernel.Kernel.Executables

/-!
# Building strings (`string.c`)

`strcpy` writes the memory of its caller.  `strcat` writes an array of its own, which
lies on the stack: the model keeps what is at each index, inside the array or not, and
the indices that were written.
-/

namespace StarterKernel

open Kernel

/-- The loop of `strcpy` from character `i` on, with the pointers it moves. -/
def strcpyLoop (len : Int) : (fuel i dest src : Nat) -> Kernel Nat
  | 0, _, _, _ => throw .signedOverflow
  | fuel + 1, i, dest, src => do
      if (i : Int) < len then
        let character ← loadByte src
        storeByte dest character
        strcpyLoop len fuel (i + 1) ((dest + 1) % wordSize) ((src + 1) % wordSize)
      else return dest

/-- Copy a string to a pointer. -/
def strcpy (dest src : Nat) : Kernel Nat := do
  let len := toInt32 (← strlen (pointerString src))
  strcpyLoop len (2 ^ 31) 0 dest src

/-- An array on the stack. -/
structure LocalBuffer where
  size : Int
  contents : Int -> UInt8
  writes : List Int

/-- `buf[index] = character`. -/
def LocalBuffer.write (buf : LocalBuffer) (index : Int) (character : UInt8) : LocalBuffer :=
  { buf with
    contents := Function.update buf.contents index character
    writes := buf.writes ++ [index] }

/-- The size of an array, which is a positive `int`. -/
def arraySize (size : Int) : Kernel Int :=
  if 2 ^ 31 ≤ size then throw .signedOverflow
  else if size ≤ 0 then throw .outOfBounds
  else return size

/-- A loop of `strcat` from character `i` on: `count` characters of a string are written
from the index `offset` on. -/
def strcatLoop (str : Nat -> Kernel UInt8) (offset count : Int) :
    (fuel i : Nat) -> LocalBuffer -> Kernel LocalBuffer
  | 0, _, _ => throw .signedOverflow
  | fuel + 1, i, buf => do
      if (i : Int) < count then
        let character ← str i
        strcatLoop str offset count fuel (i + 1) (buf.write (offset + i) character)
      else return buf

/-- Put `len` characters of a string behind another one, in an array that holds
`contents` before. -/
def strcat (dest src : Nat -> Kernel UInt8) (len : Int) (contents : Int -> UInt8) :
    Kernel LocalBuffer := do
  let oglen := toInt32 (← strlen dest)
  let size ← arraySize (oglen + len + 1)
  let buf := { size := size, contents := contents, writes := [] }
  -- move over given from src
  let buf ← strcatLoop dest 0 oglen (2 ^ 31) 0 buf
  -- add on new stuff
  let buf ← strcatLoop src oglen len (2 ^ 31) 0 buf
  -- add null terminator
  return buf.write (oglen + len + 1) 0

end StarterKernel
