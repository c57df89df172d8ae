import StarterKernel.Paging.Walk
import Mathlib.Logic.Function.Basic

/-!
# Memory accesses of the kernel

A pointer of the kernel goes through the page tables that CR3 points to.  The
kernel may read every mapped page; it may write a read-only page only while the
write-protect bit is clear.  The processor also sets the accessed and dirty bits of the
entries on the way, which no function of the kernel reads; they are left out here.
-/

namespace StarterKernel

/-- A computation of the kernel.  It ends with a result or with a trap, and in
both cases in a machine. -/
abbrev Kernel := EStateM Trap Machine

/-- Bits 47 to 63 of an address are equal. -/
def Canonical (address : Nat) : Prop :=
  address < 2 ^ 47 ∨ wordSize - 2 ^ 47 ≤ address ∧ address < wordSize

instance (address : Nat) : Decidable (Canonical address) :=
  inferInstanceAs (Decidable (_ ∨ _))

/-- The frame of the level 4 table: bits 12 to 51 of CR3. -/
def Machine.root (machine : Machine) : Nat := machine.cr3 % 2 ^ 52 / 4096 * 4096

namespace Kernel

/-- Translate an address. -/
def resolve (address : Nat) : Kernel Translation := fun machine =>
  if Canonical address then
    match translation machine.memory machine.root address with
    | none => .error (.pageFault address) machine
    | some mapped => .ok mapped machine
  else .error (.generalProtection address) machine

/-- Read a byte. -/
def loadByte (address : Nat) : Kernel UInt8 := do
  let mapped ← resolve address
  return (← get).memory mapped.physical

/-- Write a byte. -/
def storeByte (address : Nat) (value : UInt8) : Kernel Unit := do
  let mapped ← resolve address
  if mapped.writable || !(← get).writeProtect then
    modify fun machine =>
      { machine with memory := Function.update machine.memory mapped.physical value }
  else throw (.pageFault address)

/-- Read a little-endian word of `count` bytes. -/
def loadWord (address : Nat) : (count : Nat) -> Kernel Nat
  | 0 => return 0
  | count + 1 => do
      let low ← loadByte address
      let high ← loadWord ((address + 1) % wordSize) count
      return low.toNat + 256 * high

/-- The loop of `memcpy` from its `i`-th round on.  The counter is an `int`, so
the fuel of `2 ^ 31` rounds runs out exactly when it overflows. -/
def memcpyLoop (size : Nat) : (fuel i cdest csrc : Nat) -> Kernel Unit
  | 0, _, _, _ => throw .signedOverflow
  | fuel + 1, i, cdest, csrc => do
      if i < size then
        let byte ← loadByte csrc
        storeByte cdest byte
        memcpyLoop size fuel (i + 1) ((cdest + 1) % wordSize) ((csrc + 1) % wordSize)

/-- Copy `size` bytes from `src` to `dest`. -/
def memcpy (dest src size : Nat) : Kernel Unit :=
  memcpyLoop size (2 ^ 31) 0 dest src

end Kernel
end StarterKernel
