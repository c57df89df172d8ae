import StarterKernel.Kernel.PageTableEntry
import StarterKernel.Library.ByteMemory

/-!
# The machine the kernel runs on

The state of the processor and of physical memory, with the global variables of
the kernel that live in its own image.  Addresses and 64-bit words are natural
numbers below `2 ^ 64`; arithmetic on them wraps explicitly.

The kernel reaches physical memory through the direct map that the bootloader
sets up: the pointer `ptov paddr` designates the physical byte `paddr`.
-/

namespace StarterKernel

/-- One past the largest 64-bit word. -/
abbrev wordSize : Nat := 2 ^ 64

/-- The circular keyboard buffer of `systemcalls.c`. -/
structure Ring where
  buffer : Fin 100 -> UInt8
  bufferLength : Int
  readingIndex : Int
  writingIndex : Int

/-- The ring with the initial values of its variables. -/
def Ring.initial : Ring where
  buffer := fun _ => 0
  bufferLength := 0
  readingIndex := 0
  writingIndex := 0

/-- How a system call uses the pointer its caller passed. -/
inductive AccessKind
  | load
  | store
  deriving DecidableEq

/-- Physical memory, the control registers the kernel uses, its global
variables, the bytes given to `term_putchar` so far, and the record of the
addresses a system call dereferenced through the pointer of its caller. -/
structure Machine where
  memory : Nat -> UInt8
  cr3 : Nat
  /-- The write-protect bit of CR0. -/
  writeProtect : Bool
  hhdmBase : Nat
  /-- A direct-map pointer, or `0` for `NULL`. -/
  freelist : Nat
  /-- An `int`; where it overflows it wraps, as in the compiled code. -/
  freePageCounter : Int32
  terminal : List UInt8
  ring : Ring
  callerAccesses : List (AccessKind × Nat)

/-- A `struct stivale2_module`: the bounds of its image, and the characters of its
string before the terminator, which the array of 128 characters contains. -/
structure Stivale2Module where
  beginAddress : Nat
  endAddress : Nat
  string : List UInt8
  terminated : string.length < 128
  noNul : 0 ∉ string

/-- What `find_tag` finds in the structure passed by the bootloader: the address
of the direct map, a direct-map pointer to the memory-map tag, and the list of
modules. -/
structure Stivale2Struct where
  hhdm : Nat
  memmap : Nat
  modules : List Stivale2Module

/-- The ways in which a run of the kernel stops short. -/
inductive Trap
  | pageFault (address : Nat)
  | generalProtection (address : Nat)
  | outOfBounds
  | signedOverflow
  | blocked
  deriving DecidableEq

namespace Machine

/-- Translate a physical address to its direct-map pointer. -/
def ptov (machine : Machine) (paddr : Nat) : Nat :=
  (paddr + machine.hhdmBase) % wordSize

/-- The physical address designated by a direct-map pointer. -/
def physicalOf (machine : Machine) (pointer : Nat) : Nat :=
  (pointer + (wordSize - machine.hhdmBase % wordSize)) % wordSize

theorem physicalOf_ptov_add
    (machine : Machine) {paddr offset : Nat}
    (bound : paddr + offset < wordSize) :
    machine.physicalOf (machine.ptov paddr + offset) = paddr + offset := by
  unfold physicalOf ptov wordSize at *
  omega

theorem physicalOf_ptov
    (machine : Machine) {paddr : Nat} (bound : paddr < wordSize) :
    machine.physicalOf (machine.ptov paddr) = paddr := by
  have atStart : paddr + 0 < wordSize := bound
  exact machine.physicalOf_ptov_add atStart

/-- Read `count` bytes through a direct-map pointer. -/
def loadDirect (machine : Machine) (pointer count : Nat) : Nat :=
  ByteMemory.load machine.memory (machine.physicalOf pointer) count

/-- Write `count` bytes through a direct-map pointer. -/
def storeDirect (machine : Machine) (pointer count value : Nat) : Machine :=
  { machine with
    memory := ByteMemory.store machine.memory (machine.physicalOf pointer)
      count value }

/-- Read the page table entry at a direct-map pointer. -/
def loadEntry (machine : Machine) (pointer : Nat) : PtEntry :=
  .decode (machine.loadDirect pointer 8)

/-- Change bit fields of the page table entry at a direct-map pointer. -/
def modifyEntry
    (machine : Machine) (pointer : Nat) (change : PtEntry -> PtEntry) :
    Machine :=
  machine.storeDirect pointer 8 (change (machine.loadEntry pointer)).encode

def readCr3 (machine : Machine) : Nat := machine.cr3

def writeCr3 (machine : Machine) (value : Nat) : Machine :=
  { machine with cr3 := value }

/-- The machine walks its page tables on every access, so there is no cached
translation to invalidate. -/
def invalidateTlb (machine : Machine) (_virtualAddress : Nat) : Machine := machine

/-- Print a format without directives. -/
def kprintf (machine : Machine) (text : String) : Machine :=
  { machine with
    terminal := machine.terminal ++
      text.toList.map fun character => UInt8.ofNat character.toNat }

@[simp] theorem writeCr3_readCr3 (machine : Machine) :
    machine.writeCr3 machine.readCr3 = machine := rfl

@[simp] theorem invalidateTlb_eq (machine : Machine) (virtualAddress : Nat) :
    machine.invalidateTlb virtualAddress = machine := rfl

@[simp] theorem kprintf_memory (machine : Machine) (text : String) :
    (machine.kprintf text).memory = machine.memory := rfl

@[simp] theorem kprintf_hhdmBase (machine : Machine) (text : String) :
    (machine.kprintf text).hhdmBase = machine.hhdmBase := rfl

@[simp] theorem kprintf_freelist (machine : Machine) (text : String) :
    (machine.kprintf text).freelist = machine.freelist := rfl

@[simp] theorem kprintf_freePageCounter (machine : Machine) (text : String) :
    (machine.kprintf text).freePageCounter = machine.freePageCounter := rfl

@[simp] theorem kprintf_cr3 (machine : Machine) (text : String) :
    (machine.kprintf text).cr3 = machine.cr3 := rfl

@[simp] theorem kprintf_writeProtect (machine : Machine) (text : String) :
    (machine.kprintf text).writeProtect = machine.writeProtect := rfl

end Machine
end StarterKernel
