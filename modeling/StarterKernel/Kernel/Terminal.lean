import StarterKernel.Kernel.Machine

/-!
# The terminal (`boot.c`)

The text mode buffer is an array of 2000 entries of two bytes each, the character
and its colours.  An access outside of the array is a trap.
-/

namespace StarterKernel

/-- `VGA_WIDTH` and `VGA_HEIGHT`. -/
def vgaWidth : Nat := 80

def vgaHeight : Nat := 25

/-- `VGA_COLOR_BLACK` and `VGA_COLOR_WHITE`. -/
def vgaColorBlack : Nat := 0

def vgaColorWhite : Nat := 15

/-- A `struct vga_entry`, whose colours have four bits each. -/
structure VgaEntry where
  c : UInt8
  fg : Nat
  bg : Nat
  deriving DecidableEq

/-- The entry of two bytes. -/
def VgaEntry.decode (c colours : UInt8) : VgaEntry where
  c := c
  fg := colours.toNat % 16
  bg := colours.toNat / 16

/-- The bytes of the buffer, the position of the terminal in it, and the two bytes
of the position that the VGA cursor was set to. -/
structure Terminal where
  buffer : Nat -> UInt8
  termRow : Nat
  termCol : Nat
  cursorLow : UInt8
  cursorHigh : UInt8

/-- The entry with the given index. -/
def Terminal.entry (terminal : Terminal) (index : Nat) : VgaEntry :=
  .decode (terminal.buffer (2 * index)) (terminal.buffer (2 * index + 1))

/-- A computation on the terminal. -/
abbrev TerminalM := EStateM Trap Terminal

namespace TerminalM

/-- Read a byte of the buffer. -/
def loadByte (position : Nat) : TerminalM UInt8 := fun terminal =>
  if position < 2 * (vgaWidth * vgaHeight) then
    .ok (terminal.buffer position) terminal
  else .error .outOfBounds terminal

/-- Write a byte of the buffer. -/
def storeByte (position : Nat) (value : UInt8) : TerminalM Unit := fun terminal =>
  if position < 2 * (vgaWidth * vgaHeight) then
    .ok ⟨⟩ { terminal with buffer := Function.update terminal.buffer position value }
  else .error .outOfBounds terminal

/-- `term[index].c = c`. -/
def setC (index : Nat) (c : UInt8) : TerminalM Unit := storeByte (2 * index) c

/-- `term[index].fg = fg`. -/
def setFg (index fg : Nat) : TerminalM Unit := do
  let colours ← loadByte (2 * index + 1)
  storeByte (2 * index + 1) (UInt8.ofNat (colours.toNat / 16 * 16 + fg))

/-- `term[index].bg = bg`. -/
def setBg (index bg : Nat) : TerminalM Unit := do
  let colours ← loadByte (2 * index + 1)
  storeByte (2 * index + 1) (UInt8.ofNat (16 * bg + colours.toNat % 16))

/-- The loop of `memcpy` within the buffer, from its `i`-th round on. -/
def memcpyLoop (size : Nat) : (fuel i cdest csrc : Nat) -> TerminalM Unit
  | 0, _, _, _ => throw .signedOverflow
  | fuel + 1, i, cdest, csrc => do
      if i < size then
        let byte ← loadByte csrc
        storeByte cdest byte
        memcpyLoop size fuel (i + 1) (cdest + 1) (csrc + 1)

/-- Copy `size` bytes within the buffer. -/
def memcpy (dest src size : Nat) : TerminalM Unit :=
  memcpyLoop size (2 ^ 31) 0 dest src

/-- Move the VGA cursor to the position of the terminal. -/
def termUpdateCursor : TerminalM Unit := modify fun terminal =>
  let pos := (terminal.termRow * vgaWidth + terminal.termCol) % 2 ^ 16
  { terminal with
    cursorLow := UInt8.ofNat (pos % 2 ^ 8)
    cursorHigh := UInt8.ofNat (pos / 2 ^ 8 % 2 ^ 8) }

/-- The body of the loop of `term_clear`. -/
def clearEntry (i : Nat) : TerminalM Unit := do
  setC i 32
  setBg i vgaColorBlack
  setFg i vgaColorWhite

/-- Clear the terminal. -/
def termClear : TerminalM Unit := do
  (List.range (vgaWidth * vgaHeight)).forM clearEntry
  modify fun terminal => { terminal with termCol := 0, termRow := 0 }
  termUpdateCursor

/-- Set an entry to a character in white on black. -/
def paint (index : Nat) (c : UInt8) : TerminalM Unit := do
  setC index c
  setFg index vgaColorWhite
  setBg index vgaColorBlack

/-- Go to the start of the next row. -/
def nextRow : TerminalM Unit := modify fun terminal =>
  { terminal with termCol := 0, termRow := terminal.termRow + 1 }

/-- Handle newline. -/
def newline (c : UInt8) : TerminalM Unit :=
  if c = 10 then nextRow else return ()

/-- Wrap if needed. -/
def wrap : TerminalM Unit := do
  if (← get).termCol = vgaWidth then nextRow else return ()

/-- Clear a row. -/
def clearRow (row : Nat) : TerminalM Unit :=
  (List.range vgaWidth).forM fun i => paint (i + row * vgaWidth) 32

/-- Scroll if needed. -/
def scroll : TerminalM Unit := do
  if (← get).termRow = vgaHeight then
    -- Shift characters up a row, and clear the last one.
    memcpy 0 (2 * vgaWidth) (2 * vgaWidth * (vgaHeight - 1))
    modify fun terminal => { terminal with termRow := terminal.termRow - 1 }
    clearRow (← get).termRow
  else return ()

/-- Write the character, unless it is a newline. -/
def writeCharacter (c : UInt8) : TerminalM Unit :=
  if c ≠ 10 then do
    let terminal ← get
    paint (terminal.termCol + terminal.termRow * vgaWidth) c
    modify fun terminal => { terminal with termCol := terminal.termCol + 1 }
  else return ()

/-- Move left and blank the entry there, unless the row is empty. -/
def eraseCharacter : TerminalM Unit := do
  if 0 < (← get).termCol then
    modify fun terminal => { terminal with termCol := terminal.termCol - 1 }
    let terminal ← get
    setC (terminal.termRow * vgaWidth + terminal.termCol) 32
  else return ()

/-- Write one character to the terminal. -/
def termPutchar (c : UInt8) : TerminalM Unit :=
  if c = 13 then do
    modify fun terminal => { terminal with termCol := 0 }
    termUpdateCursor
  else if c = 8 then do
    eraseCharacter
    termUpdateCursor
  else do
    newline c
    wrap
    scroll
    writeCharacter c
    termUpdateCursor

end TerminalM
end StarterKernel
