import StarterKernel.Kernel.Bus
import StarterKernel.Library.LookupCache

/-!
# The translation lookaside buffer

The processor may answer an access from a buffer of earlier translations instead of
walking the page tables.  `invlpg` drops the translations of one page and a load of CR3
drops them all, since the kernel never turns global pages on.  The buffer may take up
a translation that the tables hold, and lose one, at any time between two operations.
The editors of `page.c` are repeated here with the buffer beside the machine.
-/

namespace StarterKernel

/-- The translation that the page tables hold for an address. -/
def Machine.lookup (machine : Machine) (address : Nat) : Option Translation :=
  if Canonical address then translation machine.memory machine.root address else none

/-- A machine with its translation lookaside buffer. -/
structure CachedMachine where
  machine : Machine
  tlb : Nat -> Option Translation

namespace CachedMachine

/-- The translation the processor uses for an access. -/
def translate (cached : CachedMachine) (address : Nat) : Option Translation :=
  LookupCache.get cached.tlb cached.machine.lookup address

/-- Change the machine and leave the buffer alone. -/
def onMachine (cached : CachedMachine) (change : Machine -> Machine) : CachedMachine :=
  { cached with machine := change cached.machine }

/-- `invlpg`: a non-canonical address makes it a no-op. -/
def invalidateTlb (cached : CachedMachine) (virtualAddress : Nat) : CachedMachine :=
  if Canonical virtualAddress then
    { cached with
      tlb := LookupCache.drop cached.tlb fun address =>
        address / 4096 = virtualAddress / 4096 }
  else cached

@[simp] theorem onMachine_machine (cached : CachedMachine) (change : Machine -> Machine) :
    (cached.onMachine change).machine = change cached.machine := rfl

@[simp] theorem onMachine_tlb (cached : CachedMachine) (change : Machine -> Machine) :
    (cached.onMachine change).tlb = cached.tlb := rfl

def writeCr3 (cached : CachedMachine) (value : Nat) : CachedMachine where
  machine := cached.machine.writeCr3 value
  tlb := fun _ => none

/-- Unmap everything in the lower half of the address space with level 4 page
table at address `root`. -/
def unmapLowerHalf (cached : CachedMachine) (root : Nat) : CachedMachine :=
  let l4Table := cached.machine.ptov root
  let cached := cached.onMachine fun machine =>
    (List.range 256).foldl (Machine.unmapL4Entry l4Table) machine
  -- Reload CR3 to flush any cached address translations.
  cached.writeCr3 cached.machine.readCr3

/-- Set up the direct-map base and the freelist and unmap the lower half. -/
def memInit (hdr : Stivale2Struct) (cached : CachedMachine) : Option CachedMachine :=
  let machine := { cached.machine with hhdmBase := hdr.hhdm }
  match machine.memInitLoop hdr.memmap wordSize 0 with
  | none => none
  | some machine =>
      let cached := { cached with machine := machine }
      let cached := cached.unmapLowerHalf machine.readCr3
      some (cached.onMachine fun machine =>
        let machine := machine.kprintf "number of free pages are: "
        let machine := machine.kprintD machine.freePageCounter.toUInt32.toNat
        machine.kprintf "\n")

/-- The walk of `vm_map` from the table at `level` on. -/
def vmMapLoop (address : Nat) (usable writable executable : Bool) :
    (level table : Nat) -> CachedMachine -> Bool × CachedMachine
  | 0, _, cached =>
      (false, cached.onMachine fun machine => machine.kprintf
        "(vm_map) idk how you've got here but you're not supposed to be here\n")
  | level + 1, table, cached =>
      let entry := table + 8 * indices address (level + 1)
      if (cached.machine.loadEntry entry).present then
        -- At the last level the page is already mapped.
        if level = 0 then (false, cached)
        else
          vmMapLoop address usable writable executable level
            (cached.machine.ptov (cached.machine.loadEntry entry).frame) cached
      else
        let newTablePhys := cached.machine.pmemAlloc.1
        let cached := cached.onMachine fun machine => machine.pmemAlloc.2
        if newTablePhys = 0 then (false, cached)
        else
          let cached := cached.onMachine fun machine =>
            machine.memset (machine.ptov newTablePhys) 0 0x1000
          let cached := cached.onMachine fun machine =>
            machine.modifyEntry entry fun fields =>
              { fields with
                present := true
                address := BitVec.ofNat 40 (newTablePhys >>> 12) }
          if level = 0 then
            let cached := cached.onMachine fun machine =>
              machine.modifyEntry entry fun fields =>
                { fields with
                  noExecute := !executable
                  user := usable
                  writable := writable }
            (true, cached.invalidateTlb address)
          else
            let cached := cached.onMachine fun machine =>
              machine.modifyEntry entry fun fields =>
                { fields with
                  noExecute := false
                  user := true
                  writable := true }
            vmMapLoop address usable writable executable level
              (cached.machine.ptov (cached.machine.loadEntry entry).frame) cached

/-- Map a single page of memory into a virtual address space. -/
def vmMap (cached : CachedMachine) (root address : Nat)
    (usable writable executable : Bool) : Bool × CachedMachine :=
  cached.vmMapLoop address usable writable executable 4 (cached.machine.ptov root)

/-- The walk of `vm_protect` from the table at `level` on. -/
def vmProtectLoop (address : Nat) (user writable executable : Bool) :
    (level table : Nat) -> CachedMachine -> Bool × CachedMachine
  | 0, _, cached =>
      (false, cached.onMachine fun machine => machine.kprintf
        "(vm_protect) idk how you've got here but you're not supposed to be here\n")
  | level + 1, table, cached =>
      let entry := table + 8 * indices address (level + 1)
      if (cached.machine.loadEntry entry).present then
        if level = 0 then
          let cached := cached.onMachine fun machine =>
            machine.modifyEntry entry fun fields =>
              { fields with
                noExecute := !executable
                user := user
                writable := writable }
          (true, cached.invalidateTlb address)
        else
          vmProtectLoop address user writable executable level
            (cached.machine.ptov (cached.machine.loadEntry entry).frame) cached
      else (false, cached)

/-- Change the protections for a page in a virtual address space. -/
def vmProtect (cached : CachedMachine) (root address : Nat)
    (user writable executable : Bool) : Bool × CachedMachine :=
  cached.vmProtectLoop address user writable executable 4 (cached.machine.ptov root)

end CachedMachine
end StarterKernel
