import StarterKernel.Kernel.Executables
import StarterKernel.Kernel.Kprintf

/-!
# Printing the translation of an address (`page.c`)

`translate` walks the page tables from CR3 and prints what it finds at each level.  It
takes the base of the direct map from the bootloader's structure.
-/

namespace StarterKernel

namespace Kernel

/-- Print a format with its arguments. -/
def kprintf (format : String) (args : List Argument) : Kernel Unit := fun machine =>
  match kprintfBytes format args with
  | none => .error .outOfBounds machine
  | some bytes => .ok () { machine with terminal := machine.terminal ++ bytes }

/-- Read an entry of a table through the direct map at `hhdmBase`. -/
def tableEntry (hhdmBase table index : Nat) : Kernel PtEntry := do
  let machine ← get
  return { machine with hhdmBase := hhdmBase }.loadEntry (table + 8 * index)

/-- The loop of `translate` from the table of `level` on, which is at the physical
address `tablePhys`.  It yields `none` when it has returned from `translate`. -/
def translateLoop (hhdmBase address : Nat) :
    (level tablePhys : Nat) -> Kernel (Option Nat)
  | 0, tablePhys => return some tablePhys
  | level + 1, tablePhys => do
      let table := (tablePhys + hhdmBase) % wordSize
      let index := indices address (level + 1)
      let entry ← tableEntry hhdmBase table index
      if entry.present then
        kprintf "   level %d (index %d of %p)\n" [.word (level + 1), .word index, .word table]
        kprintf "      %s" [.text (textBytes (if entry.user then "user " else "kernel "))]
        kprintf "%s" [.text (textBytes (if entry.writable then "writable " else ""))]
        kprintf "%s" [.text (textBytes (if entry.noExecute then "" else "executable"))]
        -- The physical address of the table of the next level.
        let tablePhys := entry.frame
        kprintf " ->  %p\n" [.word tablePhys]
        translateLoop hhdmBase address level tablePhys
      else
        kprintf "   Not Present!\n" []
        return none

/-- Translate a virtual address to its mapped physical address. -/
def translate (hdr : Stivale2Struct) (address : Nat) : Kernel Unit := do
  let tablePhys := (← get).readCr3 &&& cr3Mask
  kprintf "og address: %p" [.word address]
  [4, 3, 2, 1, 0].forM fun level =>
    kprintf "\n   level %d index is: %p" [.word level, .word (indices address level)]
  modify fun machine => machine.kprintC 10
  kprintf "Translating %p \n" [.word address]
  match ← translateLoop hdr.hhdm address 4 tablePhys with
  | none => return ()
  | some tablePhys =>
      let result := (tablePhys + indices address 0) % wordSize
      kprintf "%p maps to %p\n" [.word address, .word result]

end Kernel

end StarterKernel
