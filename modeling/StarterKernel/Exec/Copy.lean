import StarterKernel.Exec.KernelMemory

/-!
# Copying into a program

`memcpy` to the lower half writes the address space of the program and nothing
else.  It ends only if every byte of the destination is mapped, and it does end
if the destination is writable and the source is an image.
-/

namespace StarterKernel

open StateError

variable {root dest size fuel i start offset length : Nat} {pool : Set Nat}
variable {machine after : Machine} {free rest : List Nat} {image : Nat -> UInt8}

/-- The level 4 table stays. -/
theorem Extends.root_eq (extend : Extends root pool machine after free rest)
    (isRoot : machine.root = root) : after.root = root := by
  rw [← isRoot, Machine.root, Machine.root, extend.sameCr3]

/-- A canonical address of the lower half is below `2 ^ 47`. -/
theorem LowerHalf.lt_of_canonical (lower : LowerHalf dest) (canonical : Canonical dest) :
    dest < 2 ^ 47 := by
  have top : indices dest 4 = dest / 2 ^ 39 % 512 := rfl
  unfold LowerHalf at lower
  unfold Canonical wordSize at canonical
  omega

theorem exists_translation_of_lowerSpace {memory : Nat -> UInt8}
    {cell : PagedSpace.Cell Access} (visible : lowerSpace memory root dest = some cell) :
    dest < 2 ^ 47 ∧ ∃ mapped, translation memory root dest = some mapped ∧
      cell = { access := mapped.access, byte := memory mapped.physical } := by
  by_cases lower : dest < 2 ^ 47
  · rw [lowerSpace_eq lower] at visible
    obtain ⟨mapped, translates, same⟩ := Option.map_eq_some_iff.mp visible
    exact ⟨lower, mapped, translates, same.symm⟩
  · rw [lowerSpace_of_le (by omega)] at visible
    cases visible

namespace Kernel

/-- A copy that ends has written the destination, all of which is mapped. -/
theorem memcpyLoop_ok {cdest csrc : Nat}
    (owned : Owned root pool machine free) (isRoot : machine.root = root)
    (lower : Canonical cdest -> cdest < 2 ^ 47)
    (run : memcpyLoop size fuel i cdest csrc machine = .ok () after) :
    Extends root pool machine after free free ∧
      (∀ offset < size - i, lowerSpace machine.memory root (cdest + offset) ≠ none) ∧
      ∃ source, lowerSpace after.memory root =
        PagedSpace.write (lowerSpace machine.memory root) cdest (size - i) source := by
  induction fuel generalizing i cdest csrc machine with
  | zero => cases run
  | succ fuel inductionHypothesis =>
      rw [memcpyLoop] at run
      by_cases more : i < size
      · rw [if_pos more] at run
        obtain ⟨byte, _, loads, run⟩ := ok_of_bind run
        rw [(keeps_loadByte csrc).of_ok loads] at run
        obtain ⟨_, stored, stores, run⟩ := ok_of_bind run
        obtain ⟨canonical, mapped, translates, isStored⟩ := storeByte_ok stores
        have small := lower canonical
        rw [isRoot] at translates
        obtain ⟨extend, _, space⟩ := owned.store_extends byte small translates
        rw [← isStored] at extend space
        have next : (cdest + 1) % wordSize = cdest + 1 :=
          Nat.mod_eq_of_lt (by unfold wordSize; omega)
        rw [next] at run
        obtain ⟨later, laterMapped, source, written⟩ := inductionHypothesis extend.kept
          (extend.root_eq isRoot)
          (by unfold Canonical wordSize; omega) run
        have count : size - i = size - (i + 1) + 1 := by omega
        have visible : lowerSpace machine.memory root cdest ≠ none := by
          rw [Ne, lowerSpace_eq_none_iff small, translates]
          simp
        refine ⟨extend.trans later, ?_,
          fun offset => if offset = 0 then byte else source (offset - 1), ?_⟩
        · intro offset inside
          cases offset with
          | zero => exact visible
          | succ offset =>
              have isMapped := laterMapped offset (by omega)
              rw [space, Ne, PagedSpace.write_eq_none_iff, Nat.add_assoc,
                Nat.add_comm 1 offset] at isMapped
              exact isMapped
        · rw [written, space, count, PagedSpace.write_succ (size - (i + 1))]
          simp
      · rw [if_neg more] at run
        cases run
        rw [show size - i = 0 by omega]
        exact ⟨Extends.refl owned, by simp, fun _ => 0, by simp⟩

/-- Copying an image to writable pages ends. -/
theorem memcpyLoop_image {cdest : Nat}
    (owned : Owned root pool machine free) (isRoot : machine.root = root)
    (imageAt : ImageAt root pool machine start length image)
    (inside : offset + (size - i) ≤ length)
    (writable : ∀ k < size - i, ∃ cell,
      lowerSpace machine.memory root (cdest + k) = some cell ∧
        cell.access.writable = true)
    (enough : size - i < fuel) :
    ∃ after, memcpyLoop size fuel i cdest ((start + offset) % wordSize) machine =
        .ok () after ∧
      Extends root pool machine after free free ∧
      lowerSpace after.memory root =
        PagedSpace.write (lowerSpace machine.memory root) cdest (size - i)
          fun k => image (offset + k) := by
  induction fuel generalizing i cdest offset machine with
  | zero => omega
  | succ fuel inductionHypothesis =>
      by_cases more : i < size
      · have bound := imageAt.bound
        have noWrap : (start + offset) % wordSize = start + offset :=
          Nat.mod_eq_of_lt (by omega)
        have count : size - i = size - (i + 1) + 1 := by omega
        have loads := imageAt.loadByte isRoot (show offset < length by omega)
        obtain ⟨cell, visible, isWritable⟩ := writable 0 (by omega)
        obtain ⟨small, mapped, translates, rfl⟩ :=
          exists_translation_of_lowerSpace visible
        rw [Nat.add_zero] at small translates
        have stores := storeByte_of_writable (image offset)
          (show Canonical cdest from Or.inl small) (isRoot ▸ translates) isWritable
        obtain ⟨extend, _, space⟩ := owned.store_extends (image offset) small translates
        have next : (cdest + 1) % wordSize = cdest + 1 :=
          Nat.mod_eq_of_lt (by unfold wordSize; omega)
        obtain ⟨after, run, later, written⟩ := @inductionHypothesis (i + 1) (offset + 1)
          _ (cdest + 1) extend.kept (extend.root_eq isRoot) (imageAt.mono extend)
          (by omega)
          (by
            intro k small
            obtain ⟨cell, visible, isWritable⟩ := writable (k + 1) (by omega)
            refine ⟨cell, ?_, isWritable⟩
            rw [space, PagedSpace.write_outside (by omega), Nat.add_assoc,
              Nat.add_comm 1 k]
            exact visible)
          (by omega)
        refine ⟨after, ?_, extend.trans later, ?_⟩
        · rw [memcpyLoop, if_pos more, noWrap, bind_of_ok loads, bind_of_ok stores,
            next, Nat.add_assoc]
          exact run
        · rw [written, space, count, PagedSpace.write_succ (size - (i + 1))]
          congr 1
          funext k
          rw [Nat.add_assoc, Nat.add_comm 1 k]
      · rw [memcpyLoop, if_neg more, show size - i = 0 by omega,
          PagedSpace.write_zero]
        exact ⟨machine, rfl, Extends.refl owned, rfl⟩

/-- `memcpy` to the lower half. -/
theorem memcpy_ok {src : Nat}
    (owned : Owned root pool machine free) (isRoot : machine.root = root)
    (lower : LowerHalf dest) (run : memcpy dest src size machine = .ok () after) :
    Extends root pool machine after free free ∧
      (∀ offset < size, lowerSpace machine.memory root (dest + offset) ≠ none) ∧
      ∃ source, lowerSpace after.memory root =
        PagedSpace.write (lowerSpace machine.memory root) dest size source := by
  have spec := memcpyLoop_ok owned isRoot lower.lt_of_canonical run
  rwa [Nat.sub_zero] at spec

/-- `memcpy` from an image to writable pages. -/
theorem memcpy_image
    (owned : Owned root pool machine free) (isRoot : machine.root = root)
    (imageAt : ImageAt root pool machine start length image)
    (inside : offset + size ≤ length) (short : size < 2 ^ 31)
    (writable : ∀ k < size, ∃ cell,
      lowerSpace machine.memory root (dest + k) = some cell ∧
        cell.access.writable = true) :
    ∃ after, memcpy dest ((start + offset) % wordSize) size machine = .ok () after ∧
      Extends root pool machine after free free ∧
      lowerSpace after.memory root =
        PagedSpace.write (lowerSpace machine.memory root) dest size
          fun k => image (offset + k) :=
  memcpyLoop_image owned isRoot imageAt inside writable short

end Kernel
end StarterKernel
