import StarterKernel.Kernel.Bus
import StarterKernel.Kernel.Page
import StarterKernel.Kernel.Ports
import StarterKernel.Kernel.Terminal

/-!
# The terminal on the machine (`boot.c`)

The functions of the terminal write to the text mode buffer of the VGA adapter through the
direct map, and to the registers of its CRT controller through the ports.
-/

namespace StarterKernel

/-- The physical address of the text mode buffer. -/
def vgaBuffer : Nat := 0xB8000

/-- The machine, its devices and the variables of the terminal. -/
structure Console where
  machine : Machine
  board : Board
  /-- The pointer to the buffer. -/
  term : Nat
  termRow : Nat
  termCol : Nat

/-- A computation of the kernel that uses the terminal. -/
abbrev ConsoleM := EStateM Trap Console

namespace ConsoleM

/-- Access the memory of the machine. -/
def onMachine {α : Type} (first : Kernel α) : ConsoleM α := fun console =>
  match first console.machine with
  | .ok value machine => .ok value { console with machine := machine }
  | .error trap machine => .error trap { console with machine := machine }

def outb (port : Nat) (val : UInt8) : ConsoleM Unit :=
  modify fun console => { console with board := console.board.outb port val }

def inb (port : Nat) : ConsoleM UInt8 := modifyGet fun console =>
  ((console.board.inb port).1, { console with board := (console.board.inb port).2 })

/-- The address of a byte of an entry. -/
def entryAddress (index offset : Nat) : ConsoleM Nat :=
  return ((← get).term + (2 * index + offset)) % wordSize

/-- `term[index].c = c`. -/
def setC (index : Nat) (c : UInt8) : ConsoleM Unit := do
  let address ← entryAddress index 0
  onMachine (Kernel.storeByte address c)

/-- `term[index].fg = fg`. -/
def setFg (index fg : Nat) : ConsoleM Unit := do
  let address ← entryAddress index 1
  let colours ← onMachine (Kernel.loadByte address)
  onMachine (Kernel.storeByte address (UInt8.ofNat (colours.toNat / 16 * 16 + fg)))

/-- `term[index].bg = bg`. -/
def setBg (index bg : Nat) : ConsoleM Unit := do
  let address ← entryAddress index 1
  let colours ← onMachine (Kernel.loadByte address)
  onMachine (Kernel.storeByte address (UInt8.ofNat (16 * bg + colours.toNat % 16)))

/-- Turn on the VGA cursor. -/
def termEnableCursor : ConsoleM Unit := do
  -- Set starting scanline to 13 (three up from bottom).
  outb 0x3D4 0x0A
  outb 0x3D5 (((← inb 0x3D5) &&& 0xC0) ||| 13)
  -- Set ending scanline to 15 (bottom).
  outb 0x3D4 0x0B
  outb 0x3D5 (((← inb 0x3D5) &&& 0xE0) ||| 15)

/-- Update the VGA cursor. -/
def termUpdateCursor : ConsoleM Unit := do
  let console ← get
  let pos := (console.termRow * vgaWidth + console.termCol) % 2 ^ 16
  outb 0x3D4 0x0F
  outb 0x3D5 (UInt8.ofNat (pos % 2 ^ 8))
  outb 0x3D4 0x0E
  outb 0x3D5 (UInt8.ofNat (pos / 2 ^ 8 % 2 ^ 8))

/-- The body of the loop of `term_clear`. -/
def clearEntry (i : Nat) : ConsoleM Unit := do
  setC i 32
  setBg i vgaColorBlack
  setFg i vgaColorWhite

/-- Clear the terminal. -/
def termClear : ConsoleM Unit := do
  (List.range (vgaWidth * vgaHeight)).forM clearEntry
  modify fun console => { console with termCol := 0, termRow := 0 }
  termUpdateCursor

/-- Set an entry to a character in white on black. -/
def paint (index : Nat) (c : UInt8) : ConsoleM Unit := do
  setC index c
  setFg index vgaColorWhite
  setBg index vgaColorBlack

/-- Go to the start of the next row. -/
def nextRow : ConsoleM Unit := modify fun console =>
  { console with termCol := 0, termRow := console.termRow + 1 }

/-- Handle newline. -/
def newline (c : UInt8) : ConsoleM Unit :=
  if c = 10 then nextRow else return ()

/-- Wrap if needed. -/
def wrap : ConsoleM Unit := do
  if (← get).termCol = vgaWidth then nextRow else return ()

/-- Shift characters up a row. -/
def shiftRows : ConsoleM Unit := do
  let console ← get
  onMachine (Kernel.memcpy console.term ((console.term + 2 * vgaWidth) % wordSize)
    (2 * vgaWidth * (vgaHeight - 1)))

/-- Clear a row. -/
def clearRow (row : Nat) : ConsoleM Unit :=
  (List.range vgaWidth).forM fun i => paint (i + row * vgaWidth) 32

/-- Scroll if needed. -/
def scroll : ConsoleM Unit := do
  if (← get).termRow = vgaHeight then
    shiftRows
    modify fun console => { console with termRow := console.termRow - 1 }
    clearRow (← get).termRow
  else return ()

/-- Write the character, unless it is a newline. -/
def writeCharacter (c : UInt8) : ConsoleM Unit :=
  if c ≠ 10 then do
    let console ← get
    paint (console.termCol + console.termRow * vgaWidth) c
    modify fun console => { console with termCol := console.termCol + 1 }
  else return ()

/-- Move left and blank the entry there, unless the row is empty. -/
def eraseCharacter : ConsoleM Unit := do
  if 0 < (← get).termCol then
    modify fun console => { console with termCol := console.termCol - 1 }
    let console ← get
    setC (console.termRow * vgaWidth + console.termCol) 32
  else return ()

/-- Write one character to the terminal. -/
def termPutchar (c : UInt8) : ConsoleM Unit :=
  if c = 13 then do
    modify fun console => { console with termCol := 0 }
    termUpdateCursor
  else if c = 8 then do
    eraseCharacter
    termUpdateCursor
  else do
    newline c
    wrap
    scroll
    writeCharacter c
    termUpdateCursor

/-- Initialize the terminal. -/
def termInit : ConsoleM Unit := do
  -- Get a usable pointer to the VGA text mode buffer.
  modify fun console => { console with term := console.machine.ptov vgaBuffer }
  termEnableCursor
  termClear

/-- Run a part of the kernel that prints.  What it adds to the log appears on the
terminal. -/
def printing (change : Machine -> Machine) : ConsoleM Unit := do
  let logged := (← get).machine.terminal.length
  modify fun console => { console with machine := change console.machine }
  ((← get).machine.terminal.drop logged).forM termPutchar

/-- Print one character. -/
def kprintC (c : UInt8) : ConsoleM Unit := printing fun machine => machine.kprintC c

/-- Set the address of the direct map. -/
def initInit (hdr : Stivale2Struct) : ConsoleM Unit := modify fun console =>
  { console with machine := { console.machine with hhdmBase := hdr.hhdm } }

/-- Set up the freelist and unmap the lower half; the call may not end. -/
def memInit (hdr : Stivale2Struct) : ConsoleM Unit := do
  match (← get).machine.memInit hdr with
  | some machine => printing fun _ => machine
  | none => throw .blocked

/-- The steps of `_start` that concern the terminal and memory, in their order. -/
def start (hdr : Stivale2Struct) : ConsoleM Unit := do
  initInit hdr
  termInit
  memInit hdr

end ConsoleM
end StarterKernel
