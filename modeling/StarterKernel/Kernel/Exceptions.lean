import StarterKernel.Kernel.Translate
import StarterKernel.Kernel.Interrupts
import Mathlib.Data.Fin.VecNotation

/-!
# The handlers of exceptions (`interrupts.c`)

Each handler prints a message, with the error code if it takes one, and halts.
-/

namespace StarterKernel

/-- A handler with its format.  The processor must push an error code for it or not. -/
structure ExceptionHandler where
  format : String
  errorCode : Bool

/-- What a handler prints before it halts. -/
def ExceptionHandler.print (handler : ExceptionHandler) (ec : Nat) : Kernel Unit :=
  Kernel.kprintf handler.format (if handler.errorCode then [.word ec] else [])

def handler0 : ExceptionHandler := ⟨"Debug Exception\n", false⟩
def handler1 : ExceptionHandler := ⟨"NMI Interrupt\n", false⟩
def handler2 : ExceptionHandler := ⟨"Breakpoint\n", false⟩
def handler3 : ExceptionHandler := ⟨"Overflow\n", false⟩
def handler4 : ExceptionHandler := ⟨"BOUND Range Exceeded\n", false⟩
def handler5 : ExceptionHandler := ⟨"Invalid Opcode (Undefined Opcode)\n", false⟩
def handler6 : ExceptionHandler := ⟨"Device Not Available (No Math Coprocessor)\n", false⟩
def handler7 : ExceptionHandler := ⟨"Double Fault (error code = %d)\n", true⟩
def handler8 : ExceptionHandler := ⟨"Coprocessor Segment Overrun (reserved)\n", false⟩
def handler9 : ExceptionHandler := ⟨"Invalid TSS (error code = %d)\n", true⟩
def handler10 : ExceptionHandler := ⟨"Segment Not Present (error code = %d)\n", true⟩
def handler11 : ExceptionHandler := ⟨"Stack-Segment Fault (error code = %d)\n", true⟩
def handler12 : ExceptionHandler := ⟨"General Protection (error code = %d)\n", true⟩
def handler13 : ExceptionHandler := ⟨"Page Fault (error code = %d)\n", true⟩
def handler14 : ExceptionHandler := ⟨"(Intel reserved. Do not use)\n", false⟩
def handler15 : ExceptionHandler := ⟨"x87 FPU Floating Point Error (Math Fault)\n", false⟩
def handler16 : ExceptionHandler := ⟨"Alignment Check (error code = %d)\n", true⟩
def handler17 : ExceptionHandler := ⟨"Machine Check\n", false⟩
def handler18 : ExceptionHandler := ⟨"SIMD Floating Point Exception\n", false⟩
def handler19 : ExceptionHandler := ⟨"Virtualization Exception\n", false⟩
def handler20 : ExceptionHandler := ⟨"Control Protection Exception (error code = %d)\n", true⟩

/-- The handlers in the order of their symbols. -/
def exceptionHandlers : Fin exceptionCount -> ExceptionHandler :=
  ![handler0, handler1, handler2, handler3, handler4, handler5, handler6, handler7, handler8,
    handler9, handler10, handler11, handler12, handler13, handler14, handler15, handler16,
    handler17, handler18, handler19, handler20]

end StarterKernel
