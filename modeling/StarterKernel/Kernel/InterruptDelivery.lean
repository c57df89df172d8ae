import StarterKernel.Kernel.Pic
import StarterKernel.Kernel.SystemCalls

/-!
# Delivering keys (`boot.c`)

`keyboard_interrupt` reads the scan code from its port, decodes it, prints and buffers
the character, and tells the primary controller that it is done.  Its gate is a trap
gate, so interrupts stay enabled and another one can come between any two of these.
-/

namespace StarterKernel

open Kernel

/-- How far an activation of `keyboard_interrupt` has come: `inb`, `getkey`,
`char_write`, `outb` or `iretq` is next. -/
inductive HandlerPoint
  | entered
  | read (code : UInt8)
  | decoded (key : UInt8)
  | written
  | acknowledged
  deriving DecidableEq

/-- The activation has not told the controller that it is done. -/
def HandlerPoint.inService (point : HandlerPoint) : Bool := point ≠ .acknowledged

/-- The machine with its devices, while code that handlers can return to is interrupted. -/
structure System (Code : Type) where
  board : Board
  machine : Machine
  /-- Where the interrupted code is. -/
  code : Code
  /-- The activations of the handler, the innermost first. -/
  handlers : List HandlerPoint
  /-- The scan codes that the keyboard sent. -/
  typed : List UInt8
  /-- The scan codes that the handler read. -/
  handled : List UInt8

namespace System

variable {Code : Type}

/-- One step of the interrupted code, of a device, of the processor or of the innermost
activation.  Lines other than the keyboard's are raised at will. -/
inductive Step (execute : Code × Machine -> Code × Machine -> Prop) :
    System Code -> System Code -> Prop
  | code {system : System Code} {code machine} (idle : system.handlers = [])
      (step : execute (system.code, system.machine) (code, machine)) :
      Step execute system { system with code := code, machine := machine }
  | key (system : System Code) (code : UInt8) :
      Step execute system { system with
        board := system.board.key code
        typed := system.typed ++ [code] }
  | device (system : System Code) (num : Fin 16) (other : num ≠ Board.keyboardLine) :
      Step execute system { system with board := system.board.interruptRequest num }
  | interrupt {system : System Code} {pics} (enabled : system.board.interruptFlag = true)
      (taken : system.board.pics.acknowledge = some (irq1Interrupt.toBitVec, pics)) :
      Step execute system { system with
        board := { system.board with pics := pics }
        handlers := .entered :: system.handlers }
  | inb {system : System Code} {rest} (top : system.handlers = .entered :: rest) :
      Step execute system { system with
        board := (system.board.inb 0x60).2
        handlers := .read (system.board.inb 0x60).1 :: rest
        handled := system.handled ++ [(system.board.inb 0x60).1] }
  | getkey {system : System Code} {code key machine rest}
      (top : system.handlers = .read code :: rest)
      (step : Kernel.getkey code system.machine = .ok key machine) :
      Step execute system { system with
        machine := machine
        handlers := .decoded key :: rest }
  | charWrite {system : System Code} {key machine rest}
      (top : system.handlers = .decoded key :: rest)
      (step : Kernel.charWrite key system.machine = .ok () machine) :
      Step execute system { system with
        machine := machine
        handlers := .written :: rest }
  | outb {system : System Code} {rest} (top : system.handlers = .written :: rest) :
      Step execute system { system with
        board := system.board.outb pic1Command picEoi
        handlers := .acknowledged :: rest }
  | iretq {system : System Code} {rest} (top : system.handlers = .acknowledged :: rest) :
      Step execute system { system with handlers := rest }

/-- Any number of steps. -/
abbrev Run (execute : Code × Machine -> Code × Machine -> Prop) :
    System Code -> System Code -> Prop :=
  Relation.ReflTransGen (Step execute)

/-- The system when `_start` has set the keyboard up. -/
def booted (board : Board) (machine : Machine) (code : Code) : System Code where
  board := board.picInit.picUnmaskIrq 1
  machine := machine
  code := code
  handlers := []
  typed := board.scanCodes
  handled := []

end System
end StarterKernel
