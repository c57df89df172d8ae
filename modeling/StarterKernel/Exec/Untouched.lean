import StarterKernel.Exec.Setup
import StarterKernel.Paging.Untouched

/-!
# What the loader never touches

`exec_setup` leaves the parts of the machine alone that the page table editors leave
alone, however it ends.
-/

namespace StarterKernel

open Kernel StateError

variable {γ : Type} {part : Machine -> γ}

section Loader

variable (outside : Machine.OutsideEditors part)

include outside

theorem keepsPart_storeByte (address : Nat) (value : UInt8) :
    KeepsPart part (storeByte address value) := by
  intro machine
  cases run : storeByte address value machine with
  | ok _ after =>
      obtain ⟨_, _, _, rfl⟩ := storeByte_ok run
      exact outside machine _ machine.freelist machine.freePageCounter machine.terminal
  | error trap after =>
      obtain rfl := storeByte_error run
      rfl

theorem keepsPart_memcpyLoop (size fuel i cdest csrc : Nat) :
    KeepsPart part (memcpyLoop size fuel i cdest csrc) := by
  induction fuel generalizing i cdest csrc with
  | zero => exact KeepsPart.of_keeps (Keeps.throw _)
  | succ fuel inductionHypothesis =>
      rw [memcpyLoop]
      apply KeepsPart.ite
      · apply KeepsPart.bind (KeepsPart.of_keeps (keeps_loadByte csrc))
        intro byte
        apply KeepsPart.bind (keepsPart_storeByte outside cdest byte)
        intro _
        exact inductionHypothesis _ _ _
      · exact KeepsPart.of_keeps (Keeps.pure _)

theorem keepsPart_loadSegment (header cr3 phEntry : Nat) :
    KeepsPart part (loadSegment header cr3 phEntry) := by
  have field (struct offset count : Nat) :
      KeepsPart part (loadField struct offset count) :=
    KeepsPart.of_keeps (keeps_loadField _ _ _)
  have mapped (vaddr : Nat) : KeepsPart part
      (modifyGet fun machine => machine.vmMap cr3 vaddr true true false : Kernel Bool) :=
    KeepsPart.modifyGet fun machine => outside.vmMap machine
  have permitted (vaddr : Nat) (writable executable : Bool) :
      KeepsPart part
        (modifyGet fun machine =>
          machine.vmProtect machine.readCr3 vaddr true writable executable : Kernel Bool) :=
    KeepsPart.modifyGet fun machine => outside.vmProtect machine
  have skipped : KeepsPart part (pure ⟨⟩ : Kernel Unit) :=
    KeepsPart.of_keeps (Keeps.pure _)
  apply (field _ _ _).bind
  intro type
  refine KeepsPart.ite ?_ skipped
  apply (field _ _ _).bind
  intro filesz
  refine KeepsPart.ite ?_ skipped
  apply (field _ _ _).bind
  intro vaddr
  apply (mapped vaddr).bind
  intro _
  apply (field _ _ _).bind
  intro offset
  apply (field _ _ _).bind
  intro size
  apply KeepsPart.bind (keepsPart_memcpyLoop outside _ _ _ _ _)
  intro _
  apply (field _ _ _).bind
  intro flags
  exact (permitted _ _ _).bind fun _ => skipped

theorem keepsPart_programHeaderLoop (header cr3 fuel i phEntry : Nat) :
    KeepsPart part (programHeaderLoop header cr3 fuel i phEntry) := by
  induction fuel generalizing i phEntry with
  | zero => exact KeepsPart.of_keeps (Keeps.pure _)
  | succ fuel inductionHypothesis =>
      rw [programHeaderLoop]
      apply KeepsPart.bind (KeepsPart.of_keeps (keeps_loadField _ _ _))
      intro phnum
      apply KeepsPart.ite
      · apply KeepsPart.bind (keepsPart_loadSegment outside _ _ _)
        intro _
        exact inductionHypothesis _ _
      · exact KeepsPart.of_keeps (Keeps.pure _)

theorem keepsPart_mapUserStack : KeepsPart part mapUserStack := by
  apply KeepsPart.forM
  intro page
  apply KeepsPart.bind
    (KeepsPart.modifyGet fun machine => outside.vmMap machine)
  intro _
  exact KeepsPart.of_keeps (Keeps.pure _)

theorem keepsPart_loadModule (header : Nat) :
    KeepsPart part (loadModule header) := by
  apply KeepsPart.bind (KeepsPart.of_keeps (keeps_loadField _ _ _))
  intro phoff
  apply KeepsPart.bind (KeepsPart.of_keeps fun _ => rfl)
  intro machine
  apply KeepsPart.bind (keepsPart_programHeaderLoop outside _ _ _ _ _)
  intro _
  apply (keepsPart_mapUserStack outside).bind
  intro _
  apply KeepsPart.bind (KeepsPart.of_keeps (keeps_loadField _ _ _))
  intro entry
  exact KeepsPart.of_keeps (Keeps.pure _)

/-- `exec_setup` leaves the other parts of the machine alone, however it ends. -/
theorem keepsPart_execSetup (hdr : Stivale2Struct) (modulename : Nat) :
    KeepsPart part (execSetup hdr modulename) := by
  have unmapped : KeepsPart part
      (modify fun machine => machine.unmapLowerHalf machine.readCr3 : Kernel Unit) :=
    KeepsPart.modify fun machine => outside.unmapLowerHalf machine _
  apply unmapped.bind
  intro _
  apply KeepsPart.bind (KeepsPart.of_keeps (keeps_findModule _ _))
  intro found
  cases found with
  | none =>
      have printed : KeepsPart part
          (modify fun machine => machine.kprintf
            "An error occured when trying to find the module. \n" : Kernel Unit) :=
        KeepsPart.modify fun machine => outside.kprintf machine _
      exact printed.bind fun _ => KeepsPart.of_keeps (Keeps.pure _)
  | some ourmod =>
      exact (keepsPart_loadModule outside _).bind fun _ => KeepsPart.of_keeps (Keeps.pure _)

end Loader

end StarterKernel
