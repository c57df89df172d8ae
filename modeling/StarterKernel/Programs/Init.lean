import StarterKernel.Exec.Lookup
import StarterKernel.Kernel.Kprintf
import StarterKernel.Kernel.SystemCalls

/-!
# The first program (`init.c`)

The program runs on the machine of the kernel: its memory is reached through the page
tables and its system calls are those of `syscall_handler`.  Its array `modname` has five
elements, at an address of its stack.
-/

namespace StarterKernel

open Kernel

/-- A user program at work: the machine, what the program printed, and the addresses
that it wrote or named in a `read`. -/
structure Process where
  machine : Machine
  printed : List UInt8
  stores : List Nat

/-- A computation of a user program. -/
abbrev User := EStateM Trap Process

namespace User

/-- Go on with the machine. -/
def onMachine {α : Type} (first : Kernel α) : User α := fun process =>
  match first process.machine with
  | .ok value machine => .ok value { process with machine := machine }
  | .error trap machine => .error trap { process with machine := machine }

/-- Note the addresses of bytes that are written. -/
def noteStores (addresses : List Nat) : User Unit :=
  modify fun process => { process with stores := process.stores ++ addresses }

/-- Write a byte. -/
def store (address : Nat) (value : UInt8) : User Unit := do
  noteStores [address]
  onMachine (storeByte address value)

/-- `STDIN`. -/
def stdin : Nat := 0

/-- The system call of `read`. -/
def read (hdr : Stivale2Struct) (interrupts : Nat -> Kernel Unit)
    (filedes buf numchars : Nat) : User SyscallOutcome := do
  noteStores ((List.range numchars).map fun i => (buf + i) % wordSize)
  onMachine (syscallHandler hdr interrupts sysRead filedes buf numchars)

/-- `write` to the terminal for a literal, which the image of the program holds:
`strlen` finds its end and the system call prints its characters. -/
def write (text : String) : User Unit :=
  modify fun process =>
    { process with
      machine := process.machine.kprintf text
      printed := process.printed ++ textBytes text }

end User

/-- The names of the other programs that can be run. -/
def echoName : List UInt8 := "echo".toUTF8.data.toList

def waitName : List UInt8 := "wait".toUTF8.data.toList

namespace Init

open User

/-- A round of the loop of `_start`: read a command and find out whether it is valid. -/
def startRound (hdr : Stivale2Struct) (interrupts : Nat -> Kernel Unit) (modname : Nat) :
    User Bool := do
  let _ ← read hdr interrupts stdin modname 4
  -- The terminator goes behind the last element.
  store ((modname + 5) % wordSize) 0
  if (← onMachine (strcmp (pointerString modname) (localString initName))) = 0 then
    return true
  else if (← onMachine (strcmp (pointerString modname) (localString echoName))) = 0 then
    return true
  else if (← onMachine (strcmp (pointerString modname) (localString waitName))) = 0 then
    return true
  else do
    write "   Invalid command.\n$ "
    return false

/-- The loop of `_start` from the given round on, and the pointer it then passes to
`exec`; nothing if it has not ended within `fuel` rounds. -/
def startLoop (hdr : Stivale2Struct) (interrupts : Nat -> Nat -> Kernel Unit)
    (modname : Nat) : (fuel round : Nat) -> User (Option Nat)
  | 0, _ => return none
  | fuel + 1, round => do
      if ← startRound hdr (interrupts round) modname then return some modname
      else startLoop hdr interrupts modname fuel (round + 1)

/-- `_start` up to its `exec`; `interrupts round i` arrive before the read of the given
round takes its `i`-th character. -/
def start (hdr : Stivale2Struct) (interrupts : Nat -> Nat -> Kernel Unit) (modname : Nat)
    (fuel : Nat) : User (Option Nat) := do
  write "Init start!\n"
  write "$ "
  startLoop hdr interrupts modname fuel 0

end Init
end StarterKernel
