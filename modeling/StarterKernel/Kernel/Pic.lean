import StarterKernel.Kernel.Ports

/-!
# The interrupt controllers (`pic.c`)
-/

namespace StarterKernel

def pic1Command : Nat := 0x20
def pic1Data : Nat := pic1Command + 1
def pic2Command : Nat := 0xA0
def pic2Data : Nat := pic2Command + 1

/-- The message to a controller that an interrupt is handled. -/
def picEoi : UInt8 := 0x20

def irq0Interrupt : UInt8 := 0x20
def irq1Interrupt : UInt8 := 0x21
def irq8Interrupt : UInt8 := 0x28

def icw1Icw4 : UInt8 := 0x01
def icw1Init : UInt8 := 0x10
def icw4Mode8086 : UInt8 := 0x01

namespace Board

/-- Initialize the controllers to pass IRQs starting at `0x20`. -/
def picInit (board : Board) : Board :=
  -- Start initializing the controllers.
  let board := (board.outb pic1Command (icw1Init ||| icw1Icw4)).ioWait
  let board := (board.outb pic2Command (icw1Init ||| icw1Icw4)).ioWait
  let board := (board.outb pic1Data irq0Interrupt).ioWait
  let board := (board.outb pic2Data irq8Interrupt).ioWait
  -- Tell the primary controller there is a secondary one at IRQ2, and that one its identity.
  let board := (board.outb pic1Data 0x04).ioWait
  let board := (board.outb pic2Data 0x02).ioWait
  let board := (board.outb pic1Data icw4Mode8086).ioWait
  let board := (board.outb pic2Data icw4Mode8086).ioWait
  -- Mask all IRQs by default.
  let board := board.outb pic1Data 0xFF
  let board := board.outb pic2Data 0xFF
  -- Enable interrupts.
  { board with interruptFlag := true }

/-- Change the mask behind a data port. -/
def changeMask (board : Board) (port : Nat) (change : UInt8 -> UInt8) : Board :=
  match board.inb port with
  | (mask, board) => board.outb port (change mask)

/-- Mask an IRQ by number (0-15). -/
def picMaskIrq (board : Board) (num : UInt8) : Board :=
  if num < 8 then board.changeMask pic1Data fun mask => mask ||| 1 <<< num
  else if num < 16 then board.changeMask pic2Data fun mask => mask ||| 1 <<< (num - 8)
  else board

/-- Unmask an IRQ by number (0-15). -/
def picUnmaskIrq (board : Board) (num : UInt8) : Board :=
  if num < 8 then board.changeMask pic1Data fun mask => mask &&& ~~~(1 <<< num)
  else if num < 16 then board.changeMask pic2Data fun mask => mask &&& ~~~(1 <<< (num - 8))
  else board

end Board
end StarterKernel
