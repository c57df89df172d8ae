import StarterKernel.Kernel.Executables

/-!
# What the bootloader passes (`mem.c`, `stivale2.h`)

The bootloader passes a list of tags in memory.  In the rest of this development it is
the value that `find_tag` finds in this list; here the kernel reads the list itself.
-/

namespace StarterKernel

open Kernel

/-- `STIVALE2_STRUCT_TAG_HHDM_ID`, the address of the direct map. -/
def hhdmId : Nat := 0xb0ed257db18cb58f

/-- `STIVALE2_STRUCT_TAG_MEMMAP_ID`. -/
def memmapId : Nat := 0x2187f79e8612de07

/-- `STIVALE2_STRUCT_TAG_MODULES_ID`. -/
def modulesId : Nat := 0x4b6fe466aade04ce

/-- The loop of `find_tag` from the tag `current` on.  A list without a cycle has fewer
than `2 ^ 64` tags; on a cycle the search does not end. -/
def findTagLoop (id : Nat) : (fuel current : Nat) -> Kernel Nat
  | 0, _ => throw .blocked
  | fuel + 1, current =>
      if current = 0 then return 0
      else do
        let identifier ← loadField current 0 8
        if identifier = id then return current
        else do
          let next ← loadField current 8 8
          findTagLoop id fuel next

/-- Find a tag with a given identifier, or `NULL`. -/
def findTag (hdr id : Nat) : Kernel Nat := do
  let tags ← loadField hdr 128 8
  findTagLoop id wordSize tags

/-- The address of the direct map. -/
def getHhdm (hdr : Nat) : Kernel Nat := do
  let hhdm ← findTag hdr hhdmId
  loadField hhdm 16 8

/-- Set up the direct-map base and the freelist and unmap the lower half. -/
def memInitAt (hdr : Nat) : Kernel Unit := do
  let hhdmBase ← getHhdm hdr
  modify fun machine => { machine with hhdmBase := hhdmBase }
  let memmap ← findTag hdr memmapId
  match (← get).memInitLoop memmap wordSize 0 with
  | none => throw .blocked
  | some machine => set machine
  modify fun machine => machine.unmapLowerHalf machine.readCr3
  modify fun machine =>
    let machine := machine.kprintf "number of free pages are: "
    let machine := machine.kprintD machine.freePageCounter.toUInt32.toNat
    machine.kprintf "\n"

/-! ## The modules -/

/-- The copy of a `struct stivale2_module` on the stack of the kernel. -/
structure ModuleCopy where
  beginAddress : Nat
  endAddress : Nat
  /-- `STIVALE2_MODULE_STRING_SIZE` characters. -/
  string : List UInt8

/-- The array of characters of a copied module. -/
def moduleString (string : List UInt8) (i : Nat) : Kernel UInt8 :=
  match string[i]? with
  | some character => return character
  | none => throw .outOfBounds

/-- Copy `count` characters. -/
def copyString (pointer : Nat) : (count : Nat) -> Kernel (List UInt8)
  | 0 => return []
  | count + 1 => do
      let character ← loadByte pointer
      let rest ← copyString ((pointer + 1) % wordSize) count
      return character :: rest

/-- `ourmod = moduleslist->modules[i]`, for the address of the element. -/
def copyModule (element : Nat) : Kernel ModuleCopy := do
  let beginAddress ← loadField element 0 8
  let endAddress ← loadField element 8 8
  let string ← copyString ((element + 16) % wordSize) 128
  return { beginAddress := beginAddress, endAddress := endAddress, string := string }

/-- The loop of `exec_setup` over the modules, from the `i`-th on.  The counter is an
`int`, so the fuel of `2 ^ 31` rounds runs out exactly when it overflows. -/
def findModuleLoop (moduleslist modulename : Nat) :
    (fuel i : Nat) -> Kernel (Option ModuleCopy)
  | 0, _ => throw .signedOverflow
  | fuel + 1, i => do
      let moduleCount ← loadField moduleslist 16 8
      if i < moduleCount then
        let ourmod ← copyModule ((moduleslist + (24 + 144 * i)) % wordSize)
        let ret ← strcmp (pointerString modulename) (moduleString ourmod.string)
        if ret = 0 then return some ourmod
        else findModuleLoop moduleslist modulename fuel (i + 1)
      else return none

/-- Replace the current program by the module with the given name. -/
def execSetupAt (hdr modulename : Nat) : Kernel ExecOutcome := do
  modify fun machine => machine.unmapLowerHalf machine.readCr3
  let moduleslist ← findTag hdr modulesId
  match ← findModuleLoop moduleslist modulename (2 ^ 31) 0 with
  | none =>
      modify fun machine =>
        machine.kprintf "An error occured when trying to find the module. \n"
      return .notFound
  | some ourmod => return .entered (← loadModule ourmod.beginAddress)

end StarterKernel
