import StarterKernel.Processor.Cpu

/-!
# The assembly routines (`syscall.s`, `syscall_entry.s`, `usermode_entry.s`)

The instructions of the three routines between programs and the kernel, in their order.
-/

namespace StarterKernel

open Instruction

/-- Issue a system call. -/
def syscallRoutine : List Instruction :=
  -- Pull argument 5 up into `rax`.
  [load 8 .rsp .rax,
    -- Trigger the system call interrupt.
    int 0x80,
    ret]

/-- The interrupt handler routine called when a system call is issued, with the address of
`syscall_handler`. -/
def syscallEntryRoutine (syscallHandler : UInt64) : List Instruction :=
  -- `rax` holds the sixth system call argument.
  [push .rax,
    call syscallHandler,
    -- `rax` now holds the return value.
    add 8 .rsp,
    iretq]

/-- Enter a program. -/
def usermodeEntryRoutine : List Instruction :=
  -- Set data segment selectors (in first argument).
  [movSegment .rdi .ds,
    movSegment .rdi .es,
    movSegment .rdi .fs,
    movSegment .rdi .gs,
    -- The stack segment selector, the stack pointer, the flags, the code selector and the
    -- instruction pointer.
    push .rdi,
    push .rsi,
    pushf,
    push .rdx,
    push .rcx,
    -- Shift the remaining arguments.
    mov .r8 .rdi,
    mov .r9 .rsi,
    load 48 .rsp .rdx,
    load 56 .rsp .rcx,
    load 64 .rsp .r8,
    load 72 .rsp .r9,
    iretq]

end StarterKernel
