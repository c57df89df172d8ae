import StarterKernel.Kernel.Machine
import StarterKernel.Kernel.Kprint

/-!
# Paging (`page.c`)

The physical page allocator and the editors of the four-level page tables, as
the kernel computes them.  A pointer to a page table is a direct-map pointer and
`table + 8 * index` is the address of one of its entries.
-/

namespace StarterKernel

/-- The pieces of a virtual address: its offset in the page and its index in the
page table of each level. -/
def indices (address : Nat) : Nat -> Nat
  | 0 => address % 0x1000
  | level + 1 => address / 2 ^ (12 + 9 * level) % 512

namespace Machine

/-- Zero or otherwise fill `len` bytes at a direct-map pointer (`memset`). -/
def memset (machine : Machine) (arr c len : Nat) : Machine :=
  (List.range len).foldl
    (fun machine i => machine.storeDirect (arr + i) 1 c) machine

/-- Allocate a page of physical memory; the result is `0` when there is none. -/
def pmemAlloc (machine : Machine) : Nat × Machine :=
  if machine.freelist = 0 then
    (0, machine.kprintf "No free space, sorry :(\n")
  else
    (machine.physicalOf machine.freelist,
      { machine with
        freelist := machine.loadDirect machine.freelist 8
        freePageCounter := machine.freePageCounter - 1 })

/-- Free a page of physical memory. -/
def pmemFree (machine : Machine) (p : Nat) : Machine :=
  let new := machine.ptov p
  let machine := machine.storeDirect new 8 machine.freelist
  { machine with
    freelist := new
    freePageCounter := machine.freePageCounter + 1 }

/-! ## `unmap_lower_half` -/

/-- The body of the loop over the level 2 table. -/
def unmapL2Entry (l2Table : Nat) (machine : Machine) (l2Index : Nat) : Machine :=
  let entry := machine.loadEntry (l2Table + 8 * l2Index)
  if entry.present && !entry.pageSize then
    -- Free the physical page that holds the level 1 table.
    machine.pmemFree (machine.loadEntry (l2Table + 8 * l2Index)).frame
  else machine

/-- The body of the loop over the level 3 table. -/
def unmapL3Entry (l3Table : Nat) (machine : Machine) (l3Index : Nat) : Machine :=
  let entry := machine.loadEntry (l3Table + 8 * l3Index)
  if entry.present && !entry.pageSize then
    let l2Table := machine.ptov (machine.loadEntry (l3Table + 8 * l3Index)).frame
    let machine := (List.range 512).foldl (unmapL2Entry l2Table) machine
    machine.pmemFree (machine.loadEntry (l3Table + 8 * l3Index)).frame
  else machine

/-- The body of the loop over the level 4 table. -/
def unmapL4Entry (l4Table : Nat) (machine : Machine) (l4Index : Nat) : Machine :=
  if (machine.loadEntry (l4Table + 8 * l4Index)).present then
    let machine := machine.modifyEntry (l4Table + 8 * l4Index)
      fun entry => { entry with present := false }
    let l3Table := machine.ptov (machine.loadEntry (l4Table + 8 * l4Index)).frame
    let machine := (List.range 512).foldl (unmapL3Entry l3Table) machine
    machine.pmemFree (machine.loadEntry (l4Table + 8 * l4Index)).frame
  else machine

/-- Unmap everything in the lower half of the address space with level 4 page
table at address `root`. -/
def unmapLowerHalf (machine : Machine) (root : Nat) : Machine :=
  let l4Table := machine.ptov root
  let machine := (List.range 256).foldl (unmapL4Entry l4Table) machine
  machine.writeCr3 machine.readCr3

/-! ## `mem_init` -/

/-- The inner loop of `mem_init`, from `curr` up to `end`.  It yields `none` if
it does not end within `fuel` rounds. -/
def memInitRegion (regionEnd : Nat) : (fuel curr : Nat) -> Machine -> Option Machine
  | 0, _, _ => none
  | fuel + 1, curr, machine =>
      if curr < regionEnd then
        let machine := machine.pmemFree curr
        let curr := (curr + 0x1000) % wordSize
        memInitRegion regionEnd fuel curr
          { machine with freePageCounter := machine.freePageCounter + 1 }
      else some machine

/-- One entry of the memory map: a usable region goes to the freelist. -/
def memInitEntry (memmap : Nat) (machine : Machine) (current : Nat) :
    Option Machine :=
  let base := machine.loadDirect (memmap + 24 + 24 * current) 8
  let length := machine.loadDirect (memmap + 24 + 24 * current + 8) 8
  let type := machine.loadDirect (memmap + 24 + 24 * current + 16) 4
  if type = 1 then
    machine.memInitRegion ((base + length) % wordSize) wordSize base
  else some machine

/-- The outer loop of `mem_init`, from entry `current` of the memory map on. -/
def memInitLoop (memmap : Nat) : (fuel current : Nat) -> Machine -> Option Machine
  | 0, _, _ => none
  | fuel + 1, current, machine =>
      if current < machine.loadDirect (memmap + 16) 8 then
        match machine.memInitEntry memmap current with
        | none => none
        | some machine => memInitLoop memmap fuel (current + 1) machine
      else some machine

/-- Set up the direct-map base and the freelist and unmap the lower half. -/
def memInit (hdr : Stivale2Struct) (machine : Machine) : Option Machine :=
  let machine := { machine with hhdmBase := hdr.hhdm }
  match machine.memInitLoop hdr.memmap wordSize 0 with
  | none => none
  | some machine =>
      let machine := machine.unmapLowerHalf machine.readCr3
      let machine := machine.kprintf "number of free pages are: "
      -- `%d` takes 64 bits, of which an `int` sets the lower half.
      let machine := machine.kprintD machine.freePageCounter.toUInt32.toNat
      some (machine.kprintf "\n")

/-! ## The page table editors -/

/-- The walk of `vm_map` from the table at `level` on. -/
def vmMapLoop (address : Nat) (usable writable executable : Bool) :
    (level table : Nat) -> Machine -> Bool × Machine
  | 0, _, machine =>
      (false, machine.kprintf
        "(vm_map) idk how you've got here but you're not supposed to be here\n")
  | level + 1, table, machine =>
      let entry := table + 8 * indices address (level + 1)
      if (machine.loadEntry entry).present then
        -- At the last level the page is already mapped.
        if level = 0 then (false, machine)
        else
          vmMapLoop address usable writable executable level
            (machine.ptov (machine.loadEntry entry).frame) machine
      else
        match machine.pmemAlloc with
        | (newTablePhys, machine) =>
            if newTablePhys = 0 then (false, machine)
            else
              let machine := machine.memset (machine.ptov newTablePhys) 0 0x1000
              let machine := machine.modifyEntry entry fun fields =>
                { fields with
                  present := true
                  address := BitVec.ofNat 40 (newTablePhys >>> 12) }
              if level = 0 then
                let machine := machine.modifyEntry entry fun fields =>
                  { fields with
                    noExecute := !executable
                    user := usable
                    writable := writable }
                (true, machine.invalidateTlb address)
              else
                let machine := machine.modifyEntry entry fun fields =>
                  { fields with
                    noExecute := false
                    user := true
                    writable := true }
                vmMapLoop address usable writable executable level
                  (machine.ptov (machine.loadEntry entry).frame) machine

/-- Map a single page of memory into a virtual address space. -/
def vmMap (machine : Machine) (root address : Nat)
    (usable writable executable : Bool) : Bool × Machine :=
  machine.vmMapLoop address usable writable executable 4 (machine.ptov root)

/-- The walk of `vm_unmap` from the table at `level` on. -/
def vmUnmapLoop (address : Nat) : (level table : Nat) -> Machine -> Bool × Machine
  | 0, _, machine =>
      (false, machine.kprintf
        "(vm_unmap) idk how you've got here but you're not supposed to be here\n")
  | level + 1, table, machine =>
      let entry := table + 8 * indices address (level + 1)
      if (machine.loadEntry entry).present then
        if level = 0 then
          -- The address field is passed on as it is, without a shift.
          let machine := machine.pmemFree (machine.loadEntry entry).address.toNat
          let machine := machine.modifyEntry entry fun fields =>
            { fields with present := false }
          (true, machine.invalidateTlb address)
        else
          vmUnmapLoop address level
            (machine.ptov (machine.loadEntry entry).frame) machine
      else (false, machine)

/-- Unmap a page from a virtual address space. -/
def vmUnmap (machine : Machine) (root address : Nat) : Bool × Machine :=
  machine.vmUnmapLoop address 4 (machine.ptov root)

/-- The walk of `vm_protect` from the table at `level` on. -/
def vmProtectLoop (address : Nat) (user writable executable : Bool) :
    (level table : Nat) -> Machine -> Bool × Machine
  | 0, _, machine =>
      (false, machine.kprintf
        "(vm_protect) idk how you've got here but you're not supposed to be here\n")
  | level + 1, table, machine =>
      let entry := table + 8 * indices address (level + 1)
      if (machine.loadEntry entry).present then
        if level = 0 then
          let machine := machine.modifyEntry entry fun fields =>
            { fields with
              noExecute := !executable
              user := user
              writable := writable }
          (true, machine.invalidateTlb address)
        else
          vmProtectLoop address user writable executable level
            (machine.ptov (machine.loadEntry entry).frame) machine
      else (false, machine)

/-- Change the protections for a page in a virtual address space. -/
def vmProtect (machine : Machine) (root address : Nat)
    (user writable executable : Bool) : Bool × Machine :=
  machine.vmProtectLoop address user writable executable 4 (machine.ptov root)

end Machine
end StarterKernel
