import StarterKernel.Paging.Runs

/-!
# What the page table editors never touch

The page table editors change physical memory, the freelist with its counter and the
terminal.  Every other part of the machine, such as CR3 or the keyboard buffer, is the
same after them.
-/

namespace StarterKernel

/-- A part of the machine outside of what the page table editors change. -/
def Machine.OutsideEditors {γ : Type} (part : Machine -> γ) : Prop :=
  ∀ (machine : Machine) (memory : Nat -> UInt8) (freelist : Nat)
    (freePageCounter : Int32) (terminal : List UInt8),
    part { machine with
      memory := memory
      freelist := freelist
      freePageCounter := freePageCounter
      terminal := terminal } = part machine

variable {γ : Type} {part : Machine -> γ} {machine other : Machine}
variable {root table level address : Nat} {user writable executable : Bool}

/-! ## The page table editors -/

namespace Machine.OutsideEditors

theorem storeDirect (outside : OutsideEditors part) (machine : Machine)
    (pointer count value : Nat) :
    part (machine.storeDirect pointer count value) = part machine :=
  outside machine _ machine.freelist machine.freePageCounter machine.terminal

theorem modifyEntry (outside : OutsideEditors part) (machine : Machine)
    (pointer : Nat) (change : PtEntry -> PtEntry) :
    part (machine.modifyEntry pointer change) = part machine :=
  outside.storeDirect machine pointer 8 _

theorem memset (outside : OutsideEditors part) (machine : Machine)
    (arr c len : Nat) : part (machine.memset arr c len) = part machine := by
  have step (machine : Machine) (i : Nat) :
      part (machine.storeDirect (arr + i) 1 c) = part machine :=
    outside.storeDirect machine (arr + i) 1 c
  rw [Machine.memset, foldl_keeps part step]

theorem kprintf (outside : OutsideEditors part) (machine : Machine) (text : String) :
    part (machine.kprintf text) = part machine :=
  outside machine machine.memory machine.freelist machine.freePageCounter _

theorem pmemAlloc (outside : OutsideEditors part) (machine : Machine) :
    part machine.pmemAlloc.2 = part machine := by
  unfold Machine.pmemAlloc
  split
  · exact outside.kprintf machine _
  · exact outside machine machine.memory _ _ machine.terminal

theorem pmemFree (outside : OutsideEditors part) (machine : Machine) (frame : Nat) :
    part (machine.pmemFree frame) = part machine :=
  outside machine _ _ _ machine.terminal

theorem unmapLowerHalf (outside : OutsideEditors part) (machine : Machine)
    (root : Nat) : part (machine.unmapLowerHalf root) = part machine := by
  have level2 (table : Nat) (machine : Machine) (index : Nat) :
      part (unmapL2Entry table machine index) = part machine := by
    unfold unmapL2Entry
    dsimp only
    split
    · exact outside.pmemFree _ _
    · rfl
  have level3 (table : Nat) (machine : Machine) (index : Nat) :
      part (unmapL3Entry table machine index) = part machine := by
    unfold unmapL3Entry
    dsimp only
    split
    · rw [outside.pmemFree, foldl_keeps part (level2 _)]
    · rfl
  have level4 (table : Nat) (machine : Machine) (index : Nat) :
      part (unmapL4Entry table machine index) = part machine := by
    unfold unmapL4Entry
    dsimp only
    split
    · rw [outside.pmemFree, foldl_keeps part (level3 _), outside.modifyEntry]
    · rfl
  unfold Machine.unmapLowerHalf
  dsimp only
  rw [writeCr3_readCr3, foldl_keeps part (level4 _)]

theorem vmMapLoop (outside : OutsideEditors part) (machine : Machine) :
    part (machine.vmMapLoop address user writable executable level table).2 =
      part machine := by
  induction level generalizing table machine with
  | zero => exact outside.kprintf machine _
  | succ level inductionHypothesis =>
      have allocated := outside.pmemAlloc machine
      rw [Machine.vmMapLoop]
      dsimp only
      by_cases present :
        (machine.loadEntry (table + 8 * indices address (level + 1))).present = true
      · rw [if_pos present]
        by_cases last : level = 0
        · rw [if_pos last]
        · rw [if_neg last, inductionHypothesis]
      · rw [if_neg present]
        generalize machine.pmemAlloc = allocation at allocated ⊢
        obtain ⟨newTable, popped⟩ := allocation
        dsimp only at allocated ⊢
        by_cases exhausted : newTable = 0
        · rw [if_pos exhausted, allocated]
        · rw [if_neg exhausted]
          by_cases last : level = 0
          · rw [if_pos last, invalidateTlb_eq, outside.modifyEntry,
              outside.modifyEntry, outside.memset, allocated]
          · rw [if_neg last, inductionHypothesis, outside.modifyEntry,
              outside.modifyEntry, outside.memset, allocated]

theorem vmProtectLoop (outside : OutsideEditors part) (machine : Machine) :
    part (machine.vmProtectLoop address user writable executable level table).2 =
      part machine := by
  induction level generalizing table machine with
  | zero => exact outside.kprintf machine _
  | succ level inductionHypothesis =>
      rw [Machine.vmProtectLoop]
      dsimp only
      by_cases present :
        (machine.loadEntry (table + 8 * indices address (level + 1))).present = true
      · rw [if_pos present]
        by_cases last : level = 0
        · rw [if_pos last, invalidateTlb_eq, outside.modifyEntry]
        · rw [if_neg last, inductionHypothesis]
      · rw [if_neg present]

theorem vmMap (outside : OutsideEditors part) (machine : Machine) :
    part (machine.vmMap root address user writable executable).2 = part machine := by
  rw [Machine.vmMap, outside.vmMapLoop]

theorem vmProtect (outside : OutsideEditors part) (machine : Machine) :
    part (machine.vmProtect root address user writable executable).2 =
      part machine := by
  rw [Machine.vmProtect, outside.vmProtectLoop]

/-- A step of the kernel or of a user program. -/
theorem step (outside : OutsideEditors part) (step : Step root machine other) :
    part other = part machine := by
  cases step with
  | vmMap => exact outside.vmMap machine
  | vmProtect => exact outside.vmProtect machine
  | unmapLowerHalf => exact outside.unmapLowerHalf machine root
  | userStore address value lower mapped translates user =>
      exact outside machine (Function.update machine.memory mapped.physical value)
        machine.freelist machine.freePageCounter machine.terminal

/-- A run. -/
theorem run (outside : OutsideEditors part) (run : Run root machine other) :
    part other = part machine := by
  induction run with
  | refl => rfl
  | tail _ step inductionHypothesis =>
      rw [outside.step step, inductionHypothesis]

end Machine.OutsideEditors

end StarterKernel
