import StarterKernel.Library.InterruptController
import Mathlib.Logic.Function.Basic

/-!
# The I/O ports (`port.h`)

The devices that the kernel reaches with `outb` and `inb`: the two interrupt
controllers, the keyboard controller and the CRT controller of the VGA adapter.
-/

namespace StarterKernel

open InterruptController

/-- The devices behind the ports, and the interrupt flag of the processor. -/
structure Board where
  pics : Pair
  /-- The scan codes that the keyboard controller has not passed on. -/
  scanCodes : List UInt8
  /-- The scan code that the keyboard controller passed on last. -/
  lastCode : UInt8
  /-- The register of the CRT controller that its data port stands for. -/
  crtIndex : UInt8
  crt : UInt8 -> UInt8
  interruptFlag : Bool

namespace Board

/-- A device raises one of the lines 0 to 7 of the primary controller, or one of the
lines 8 to 15 of the secondary one. -/
def interruptRequest (board : Board) (num : Fin 16) : Board :=
  if small : num.val < 8 then
    { board with pics.primary := board.pics.primary.interrupt ⟨num, small⟩ }
  else
    { board with
      pics.secondary := board.pics.secondary.interrupt ⟨num - 8, Pair.secondary_lt small⟩ }

/-- The line of the keyboard. -/
def keyboardLine : Fin 16 := 1

/-- The line of the primary controller that the secondary one drives. -/
def cascadeLine : Fin 16 := 2

/-- The keyboard sends a scan code.  The controller raises its line when it has a code to
pass on and had none before. -/
def key (board : Board) (code : UInt8) : Board :=
  let received := { board with scanCodes := board.scanCodes ++ [code] }
  if board.scanCodes = [] then received.interruptRequest keyboardLine else received

/-- Pass a scan code on; the line is raised again for the next one. -/
def readScanCode (board : Board) : UInt8 × Board :=
  match board.scanCodes with
  | [] => (board.lastCode, board)
  | code :: rest =>
      let passed := { board with scanCodes := rest, lastCode := code }
      (code, if rest = [] then passed else passed.interruptRequest keyboardLine)

/-- Write a byte to a port. -/
def outb (board : Board) (port : Nat) (val : UInt8) : Board :=
  match port with
  | 0x20 => { board with
      pics.primary := board.pics.primary.writeCommand val.toBitVec }
  | 0x21 => { board with
      pics.primary := board.pics.primary.writeData val.toBitVec }
  | 0xA0 => { board with
      pics.secondary := board.pics.secondary.writeCommand val.toBitVec }
  | 0xA1 => { board with
      pics.secondary := board.pics.secondary.writeData val.toBitVec }
  | 0x3D4 => { board with crtIndex := val }
  | 0x3D5 => { board with crt := Function.update board.crt board.crtIndex val }
  | _ => board

/-- Read a byte from a port. -/
def inb (board : Board) (port : Nat) : UInt8 × Board :=
  match port with
  | 0x21 => (.ofBitVec board.pics.primary.mask, board)
  | 0xA1 => (.ofBitVec board.pics.secondary.mask, board)
  | 0x60 => board.readScanCode
  | 0x3D5 => (board.crt board.crtIndex, board)
  | _ => (0xFF, board)

def ioWait (board : Board) : Board := board.outb 0x80 0

end Board
/-- The devices of a machine that was just switched on. -/
def poweredOn (scanCodes : List UInt8) : Board where
  pics.primary := ⟨.ready, false, false, 0, 0, false, 0, 0, 0⟩
  pics.secondary := ⟨.ready, false, false, 0, 0, false, 0, 0, 0⟩
  scanCodes := scanCodes
  lastCode := 0
  crtIndex := 0
  crt := fun _ => 0
  interruptFlag := false

end StarterKernel
