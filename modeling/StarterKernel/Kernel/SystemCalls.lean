import StarterKernel.Kernel.Executables

/-!
# The keyboard and the system calls (`systemcalls.c`)

A key interrupt puts a character in the circular buffer and `kgetc` takes one
out.  System calls enter through a trap gate, so interrupts go on while one runs:
a computation that waits for a key is given the interrupts that arrive before it
goes on.
-/

namespace StarterKernel

/-- The initializers of `keys`; the remaining of its 128 slots are zero. -/
def keys : List UInt8 :=
  [0, 27, 49, 50, 51, 52, 53, 54, 55, 56, 57, 48, 45, 61, 8,
   9, 113, 119, 101, 114, 116, 121, 117, 105, 111, 112, 91, 93, 10,
   0, 97, 115, 100, 102, 103, 104, 106, 107, 108, 59, 39, 96, 0, 92, 122, 120, 99,
   118, 98, 110, 109, 44, 46, 47, 0, 42, 0, 32, 0, 0,
   0, 0, 0, 0, 0, 0, 0, 0, 0, 0, 0, 0, 0, 0, 45, 0, 0, 0, 43, 0, 0, 0, 0, 0,
   0, 0, 0, 0, 0, 0]

/-- The conversion to `int8_t`. -/
def int8 (value : Int) : Int := value.bmod 256

/-- The system call numbers. -/
def sysRead : Nat := 0

def sysWrite : Nat := 1

def sysExec : Nat := 3

namespace Kernel

/-! ## The circular buffer -/

def getRing : Kernel Ring := return (← get).ring

def modifyRing (change : Ring -> Ring) : Kernel Unit :=
  modify fun machine => { machine with ring := change machine.ring }

/-- The slot of `buffer` with the given index. -/
def bufferSlot (index : Int) : Kernel (Fin 100) := fun machine =>
  if bounds : 0 ≤ index ∧ index < 100 then .ok ⟨index.toNat, by omega⟩ machine
  else .error .outOfBounds machine

/-- Take the last character back. -/
def backspace : Kernel Unit :=
  modifyRing fun ring =>
    let ring := { ring with
      bufferLength := int8 (ring.bufferLength - 1)
      readingIndex := int8 (ring.readingIndex - 1) }
    -- Check if we need to loop back around to the beginning of the array.
    if ring.readingIndex < 0 then { ring with readingIndex := 99 } else ring

/-- The character of a scan code, or NUL for a code that types none. -/
def getkey (code : UInt8) : Kernel UInt8 :=
  if code = 0x01 then return 0
  else if code = 0x0E then do
    backspace
    return 0
  else if code = 0x1D then return 0
  else if code = 0x2A ∨ code = 0x36 then return 0
  else if code = 0x38 then return 0
  else if code = 0x3A then return 0
  else if 0x81 ≤ code then return 0
  else if code.toNat < 128 then return keys.getD code.toNat 0
  else throw .outOfBounds

/-- Print a character and put it in the buffer. -/
def charWrite (key : UInt8) : Kernel Unit := do
  if key ≠ 0 then
    modify fun machine => machine.kprintC key
    let slot ← bufferSlot (← getRing).writingIndex
    modifyRing fun ring =>
      let ring := { ring with
        buffer := Function.update ring.buffer slot key
        writingIndex := int8 (ring.writingIndex + 1)
        bufferLength := int8 (ring.bufferLength + 1) }
      -- If we reach the end of the index, loop back to the beginning.
      if 100 ≤ ring.writingIndex then { ring with writingIndex := 0 } else ring

/-- The handler of the key interrupt, for the scan code at the port. -/
def keyboardInterrupt (code : UInt8) : Kernel Unit := do
  let key ← getkey code
  charWrite key

/-- Take a character from the buffer.  The first loop ends once one of the
interrupts leaves the buffer nonempty; without one the call waits for ever. -/
def kgetc (interrupts : Kernel Unit) : Kernel UInt8 := do
  interrupts
  if (← getRing).bufferLength = 0 then throw .blocked
  else
    let slot ← bufferSlot (← getRing).readingIndex
    let returned := (← getRing).buffer slot
    modifyRing fun ring =>
      let ring := { ring with
        readingIndex := int8 (ring.readingIndex + 1)
        bufferLength := int8 (ring.bufferLength - 1) }
      if 100 ≤ ring.readingIndex then { ring with readingIndex := 0 } else ring
    return returned

/-! ## `kread` and `kwrite` -/

/-- Write a byte through a pointer that a system call was passed. -/
def callerStore (address : Nat) (value : UInt8) : Kernel Unit := do
  modify fun machine =>
    { machine with callerAccesses := machine.callerAccesses ++ [(.store, address)] }
  storeByte address value

/-- Read a byte through a pointer that a system call was passed. -/
def callerLoad (address : Nat) : Kernel UInt8 := do
  modify fun machine =>
    { machine with callerAccesses := machine.callerAccesses ++ [(.load, address)] }
  loadByte address

/-- The loop of `kread` from its `i`-th round on; `interrupts i` arrive before
that round takes its character.  The counter is an `int`, so the fuel of `2 ^ 31`
rounds runs out exactly when it overflows. -/
def kreadLoop (interrupts : Nat -> Kernel Unit) (buff numchars : Nat) :
    (fuel i : Nat) -> Kernel Unit
  | 0, _ => throw .signedOverflow
  | fuel + 1, i => do
      if i < numchars then
        let ret ← kgetc (interrupts i)
        callerStore ((buff + i) % wordSize) ret
        kreadLoop interrupts buff numchars fuel (i + 1)

/-- Read `numchars` characters from the keyboard into the buffer `buf`. -/
def kread (interrupts : Nat -> Kernel Unit) (buf numchars : Nat) : Kernel Int := do
  kreadLoop interrupts buf numchars (2 ^ 31) 0
  return toInt32 numchars

/-- The loop of `kwrite` from its `i`-th round on.  The counter has 64 bits, so
the fuel of `2 ^ 64` rounds suffices. -/
def kwriteLoop (len : Nat) : (fuel i wbuffer : Nat) -> Kernel Unit
  | 0, _, _ => return ()
  | fuel + 1, i, wbuffer => do
      if i < len then
        let byte ← callerLoad wbuffer
        modify fun machine => machine.kprintC byte
        kwriteLoop len fuel (i + 1) ((wbuffer + 1) % wordSize)

/-- Print `len` characters from the buffer `buf`. -/
def kwrite (buf len : Nat) : Kernel Int := do
  kwriteLoop len wordSize 0 buf
  return toInt32 len

/-! ## `syscall_handler` -/

/-- How a system call ends if it does not trap. -/
inductive SyscallOutcome
  | returned (rc : Int)
  | entered (entry : UsermodeEntry)
  deriving DecidableEq

/-- Run the system call `nr`. -/
def syscallHandler (hdr : Stivale2Struct) (interrupts : Nat -> Kernel Unit)
    (nr arg0 arg1 arg2 : Nat) : Kernel SyscallOutcome := do
  if nr = sysRead then return .returned (← kread interrupts arg1 arg2)
  else if nr = sysWrite then return .returned (← kwrite arg1 arg2)
  else if nr = sysExec then
    match ← execSetup hdr arg0 with
    | .notFound => return .returned (-1)
    | .entered entry => return .entered entry
  else
    -- The file descriptor is not allowed.
    return .returned (-1)

end Kernel
end StarterKernel
