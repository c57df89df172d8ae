import StarterKernel.Kernel.Bus

/-!
# Loading a program (`executables.c`)

`exec_setup` unmaps the lower half, looks the module up by its name, maps and
copies its LOAD segments, maps the user stack and enters user mode.  The strings
it compares are given by readers: the name it is passed is read through the page
tables, the string of a module from the copy of `struct stivale2_module` on the
stack of the kernel.
-/

namespace StarterKernel

open Kernel

/-! ## Strings (`string.c`) -/

/-- The loop of `strlen` after `len` characters.  An address space has fewer
than `2 ^ 64` readable bytes, so the fuel does not run out. -/
def strlenLoop (str : Nat -> Kernel UInt8) : (fuel len : Nat) -> Kernel Nat
  | 0, len => throw (.generalProtection len)
  | fuel + 1, len => do
      let character ← str len
      if character ≠ 0 then strlenLoop str fuel (len + 1) else return len

/-- The number of characters before the terminator. -/
def strlen (str : Nat -> Kernel UInt8) : Kernel Nat := strlenLoop str wordSize 0

/-- The conversion of a 64-bit word to `int`. -/
def toInt32 (word : Nat) : Int :=
  if word % 2 ^ 32 < 2 ^ 31 then word % 2 ^ 32 else (word % 2 ^ 32 : Nat) - 2 ^ 32

/-- The loop of `strcmp` over strings of equal length, from character `i` on. -/
def strcmpLoop (s1 s2 : Nat -> Kernel UInt8) (len1 : Int) :
    (fuel i : Nat) -> Kernel Int
  | 0, _ => return 0
  | fuel + 1, i => do
      if (i : Int) < len1 then
        let left ← s1 i
        let right ← s2 i
        if left = right then strcmpLoop s1 s2 len1 fuel (i + 1)
        else if left.toInt8 > right.toInt8 then return 1
        else return -1
      else return 0

/-- Compare two strings, first by their lengths. -/
def strcmp (s1 s2 : Nat -> Kernel UInt8) : Kernel Int := do
  let len1 := toInt32 (← strlen s1)
  let len2 := toInt32 (← strlen s2)
  if len1 = len2 then strcmpLoop s1 s2 len1 (2 ^ 31) 0
  else if len1 > len2 then return 1
  else return -1

/-- A string at a pointer. -/
def pointerString (pointer i : Nat) : Kernel UInt8 :=
  loadByte ((pointer + i) % wordSize)

/-- A string in the memory of the kernel. -/
def localString (bytes : List UInt8) (i : Nat) : Kernel UInt8 :=
  return bytes.getD i 0

/-! ## `exec_setup` -/

/-- What `usermode_entry` is given. -/
structure UsermodeEntry where
  dataSel : Nat
  stackPtr : Nat
  codeSel : Nat
  instructionPtr : Nat
  deriving DecidableEq

/-- How `exec_setup` ends if it does not trap. -/
inductive ExecOutcome
  | notFound
  | entered (entry : UsermodeEntry)
  deriving DecidableEq

/-- `LOAD`, the type of a loadable segment. -/
def ptLoad : Nat := 1

/-- The mask that clears the flags of CR3. -/
def cr3Mask : Nat := 0xFFFFFFFFFFFFF000

/-- The base of the user stack. -/
def userStack : Nat := 0x70000000000

/-- The size of the user stack. -/
def userStackSize : Nat := 8 * 0x1000

/-- `USER_DATA_SELECTOR` and `USER_CODE_SELECTOR`. -/
def userDataSelector : Nat := 0x20

def userCodeSelector : Nat := 0x18

/-- The first module whose string equals the name. -/
def findModule (modulename : Nat) :
    List Stivale2Module -> Kernel (Option Stivale2Module)
  | [] => return none
  | ourmod :: rest => do
      let ret ← strcmp (pointerString modulename) (localString ourmod.string)
      if ret = 0 then return some ourmod else findModule modulename rest

/-- A field of the ELF header or of a program header. -/
def loadField (struct offset count : Nat) : Kernel Nat :=
  loadWord ((struct + offset) % wordSize) count

/-- The body of the loop over the program headers. -/
def loadSegment (header cr3 phEntry : Nat) : Kernel Unit := do
  let type ← loadField phEntry 0 4
  if type = ptLoad then
    let filesz ← loadField phEntry 32 8
    if 0 < filesz then
      let vaddr ← loadField phEntry 16 8
      let _ ← modifyGet fun machine => machine.vmMap cr3 vaddr true true false
      let offset ← loadField phEntry 8 8
      let size ← loadField phEntry (if filesz = 0 then 32 else 40) 8
      memcpy vaddr ((header + offset) % wordSize) size
      let flags ← loadField phEntry 4 4
      let executable := decide (0 < flags &&& 1)
      let writable := decide (0 < flags &&& 2)
      let _ ← modifyGet fun machine =>
        machine.vmProtect machine.readCr3 vaddr true writable executable

/-- The loop over the program headers, from header `i` on.  The counter is a
`uint16_t`, so the fuel of `2 ^ 16` rounds suffices. -/
def programHeaderLoop (header cr3 : Nat) : (fuel i phEntry : Nat) -> Kernel Unit
  | 0, _, _ => return ()
  | fuel + 1, i, phEntry => do
      let phnum ← loadField header 56 2
      if i < phnum then
        loadSegment header cr3 phEntry
        programHeaderLoop header cr3 fuel (i + 1) ((phEntry + 56) % wordSize)

/-- Map the pages of the user stack. -/
def mapUserStack : Kernel Unit :=
  (List.range (userStackSize / 0x1000)).forM fun page => do
    let _ ← modifyGet fun machine =>
      machine.vmMap (machine.readCr3 &&& cr3Mask) (userStack + 0x1000 * page) true
        true false

/-- The part of `exec_setup` that loads the module at `header`. -/
def loadModule (header : Nat) : Kernel UsermodeEntry := do
  let phoff ← loadField header 32 8
  let cr3 := (← get).readCr3 &&& cr3Mask
  programHeaderLoop header cr3 (2 ^ 16) 0 ((header + phoff) % wordSize)
  mapUserStack
  let entry ← loadField header 24 8
  return {
    dataSel := userDataSelector ||| 0x3
    stackPtr := userStack + userStackSize - 8
    codeSel := userCodeSelector ||| 0x3
    instructionPtr := entry }

/-- Replace the current program by the module with the given name. -/
def execSetup (hdr : Stivale2Struct) (modulename : Nat) : Kernel ExecOutcome := do
  modify fun machine => machine.unmapLowerHalf machine.readCr3
  match ← findModule modulename hdr.modules with
  | none =>
      modify fun machine =>
        machine.kprintf "An error occured when trying to find the module. \n"
      return .notFound
  | some ourmod => return .entered (← loadModule ourmod.beginAddress)

end StarterKernel
