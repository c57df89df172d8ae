import StarterKernel.Kernel.Executables
import StarterKernel.Library.StateError
import StarterKernel.Exec.AddressSpace
import Mathlib.Data.Nat.Bitwise

/-!
# What the kernel reads while it loads a program

A module image lies in kernel memory outside the frames of the pool, so it stays
as it is while the loader uses up frames.  Reading a field of it gives the word
the image holds there.
-/

namespace StarterKernel

open StateError

variable {root address start size offset count : Nat} {pool : Set Nat}
variable {machine after : Machine} {free rest : List Nat} {image : Nat -> UInt8}

/-- CR3 holds a frame and no flags. -/
theorem IsFrame.root_eq (isFrame : IsFrame machine.cr3) :
    machine.root = machine.cr3 := by
  have aligned := isFrame.aligned
  have bound := isFrame.bound
  rw [Machine.root, Nat.mod_eq_of_lt bound]
  omega

/-- Clearing the flags of CR3. -/
theorem and_cr3Mask {word : Nat} (bound : word < wordSize) :
    word &&& cr3Mask = word / 4096 * 4096 := by
  have mask : cr3Mask = (2 ^ 52 - 1) * 2 ^ 12 := by decide
  apply Nat.eq_of_testBit_eq
  intro bit
  rw [mask, show word / 4096 * 4096 = word / 2 ^ 12 * 2 ^ 12 from rfl, Nat.testBit_and,
    Nat.testBit_mul_two_pow, Nat.testBit_mul_two_pow, Nat.testBit_two_pow_sub_one,
    Nat.testBit_div_two_pow]
  by_cases inPage : bit < 12
  · simp [Nat.not_le.mpr inPage]
  · rw [show bit - 12 + 12 = bit by omega]
    by_cases inWord : bit < 64
    · simp [show 12 ≤ bit by omega, show bit - 12 < 52 by omega]
    · have above : word.testBit bit = false :=
        Nat.testBit_lt_two_pow (bound.trans_le (Nat.pow_le_pow_right (by omega) (by omega)))
      simp [above]

/-- Clearing the flags of CR3 changes nothing when there are none. -/
theorem IsFrame.and_cr3Mask {frame : Nat} (isFrame : IsFrame frame) :
    frame &&& cr3Mask = frame := by
  have aligned := isFrame.aligned
  rw [StarterKernel.and_cr3Mask isFrame.isPage.word]
  omega

/-- `size` bytes of kernel memory from `start` on, outside the frames of the pool
and the level 4 table. -/
structure ImageAt
    (root : Nat) (pool : Set Nat) (machine : Machine) (start size : Nat)
    (image : Nat -> UInt8) : Prop where
  bound : start + size ≤ wordSize
  upper : ∀ offset < size,
    Canonical (start + offset) ∧ ¬LowerHalf (start + offset)
  stored : ∀ offset < size, ∃ mapped,
    translation machine.memory root (start + offset) = some mapped ∧
      frameOf mapped.physical ∉ pool ∧ frameOf mapped.physical ≠ root ∧
      machine.memory mapped.physical = image offset

namespace ImageAt

/-- An image stays where neither its translation nor its frames change. -/
theorem congr (imageAt : ImageAt root pool machine start size image)
    (upper : ∀ address, ¬LowerHalf address ->
      translation after.memory root address = translation machine.memory root address)
    (reserved : ∀ frame, frame ∉ pool -> frame ≠ root ->
      AgreeOn machine.memory after.memory frame) :
    ImageAt root pool after start size image where
  bound := imageAt.bound
  upper := imageAt.upper
  stored := by
    intro offset inside
    obtain ⟨mapped, translates, outside, notRoot, same⟩ :=
      imageAt.stored offset inside
    refine ⟨mapped, ?_, outside, notRoot, ?_⟩
    · rw [upper _ (imageAt.upper offset inside).2, translates]
    · rw [reserved _ outside notRoot _ rfl, same]

/-- The loader keeps the image. -/
theorem mono (imageAt : ImageAt root pool machine start size image)
    (extend : Extends root pool machine after free rest) :
    ImageAt root pool after start size image :=
  imageAt.congr extend.upper extend.reserved

/-- So does `unmap_lower_half`. -/
theorem unmapLowerHalf (imageAt : ImageAt root pool machine start size image)
    (owned : Owned root pool machine free) :
    ImageAt root pool (machine.unmapLowerHalf root) start size image := by
  apply imageAt.congr
  · intro address upper
    rw [translation_eq, translation_eq,
      Machine.treeWalk_unmapLowerHalf_of_upper owned.rootFrame owned.tree
        (mt (lowerPath_walkPath address 3).mp upper)]
  · intro frame outside notRoot
    apply Machine.agreeOn_unmapLowerHalf owned.rootFrame owned.tree notRoot
    intro member
    obtain ⟨path, lower, reached⟩ := mem_lowerTables.mp member
    exact outside (owned.lowerTable path frame lower reached).1

/-- The end of an image is an image. -/
theorem drop {skipped rest : Nat}
    (imageAt : ImageAt root pool machine start (skipped + rest) image) :
    ImageAt root pool machine (start + skipped) rest
      (fun offset => image (skipped + offset)) where
  bound := by
    have := imageAt.bound
    omega
  upper := by
    intro offset inside
    rw [Nat.add_assoc]
    exact imageAt.upper (skipped + offset) (by omega)
  stored := by
    intro offset inside
    rw [Nat.add_assoc]
    exact imageAt.stored (skipped + offset) (by omega)

theorem loadByte (imageAt : ImageAt root pool machine start size image)
    (isRoot : machine.root = root) (inside : offset < size) :
    Kernel.loadByte (start + offset) machine = .ok (image offset) machine := by
  obtain ⟨mapped, translates, _, _, same⟩ := imageAt.stored offset inside
  have resolves : Kernel.resolve (start + offset) machine = .ok mapped machine := by
    rw [Kernel.resolve, if_pos (imageAt.upper offset inside).1, isRoot, translates]
  rw [Kernel.loadByte, bind_of_ok resolves, bind_of_ok (get_apply machine), same]
  rfl

theorem loadWord (imageAt : ImageAt root pool machine start size image)
    (isRoot : machine.root = root) (inside : offset + count ≤ size) :
    Kernel.loadWord ((start + offset) % wordSize) count machine =
      .ok (ByteMemory.load image offset count) machine := by
  have bound := imageAt.bound
  induction count generalizing offset with
  | zero =>
      rw [ByteMemory.load_zero]
      rfl
  | succ count inductionHypothesis =>
      have noWrap : (start + offset) % wordSize = start + offset :=
        Nat.mod_eq_of_lt (by omega)
      have later := inductionHypothesis (show offset + 1 + count ≤ size by omega)
      rw [← Nat.add_assoc] at later
      rw [Kernel.loadWord, noWrap,
        bind_of_ok (imageAt.loadByte isRoot (by omega)), bind_of_ok later,
        ByteMemory.load_succ]
      rfl

/-- Reading a field of the structure at the start of the image. -/
theorem loadHeaderField
    (imageAt : ImageAt root pool machine start size image)
    (isRoot : machine.root = root) (inside : offset + count ≤ size) :
    StarterKernel.loadField start offset count machine =
      .ok (ByteMemory.load image offset count) machine :=
  imageAt.loadWord isRoot inside

/-- Reading a field of a structure in the image. -/
theorem loadField {struct : Nat}
    (imageAt : ImageAt root pool machine start size image)
    (isRoot : machine.root = root) (inside : struct + offset + count ≤ size) :
    StarterKernel.loadField ((start + struct) % wordSize) offset count machine =
      .ok (ByteMemory.load image (struct + offset) count) machine := by
  rw [StarterKernel.loadField, Nat.mod_add_mod, Nat.add_assoc]
  exact imageAt.loadWord isRoot inside

end ImageAt

namespace Kernel

theorem resolve_ok {mapped : Translation}
    (run : resolve address machine = .ok mapped after) :
    Canonical address ∧ translation machine.memory machine.root address = some mapped ∧
      after = machine := by
  unfold resolve at run
  split at run
  next canonical =>
    split at run
    next => cases run
    next translates =>
      cases run
      exact ⟨canonical, translates, rfl⟩
  next => cases run

theorem keeps_resolve (address : Nat) : Keeps (resolve address) := by
  intro machine
  unfold resolve
  split
  · split <;> rfl
  · rfl

/-- A load leaves the machine alone. -/
theorem keeps_loadByte (address : Nat) : Keeps (loadByte address) :=
  (keeps_resolve address).bind fun _ => fun _ => rfl

theorem keeps_loadWord (address count : Nat) : Keeps (loadWord address count) := by
  induction count generalizing address with
  | zero => exact Keeps.pure _
  | succ count inductionHypothesis =>
      exact (keeps_loadByte address).bind fun _ =>
        (inductionHypothesis _).bind fun _ => Keeps.pure _

/-- What a load does. -/
theorem loadByte_ok_iff {byte : UInt8} :
    loadByte address machine = .ok byte after ↔
      Canonical address ∧ (∃ mapped,
        translation machine.memory machine.root address = some mapped ∧
        byte = machine.memory mapped.physical) ∧ after = machine := by
  constructor
  · intro run
    obtain ⟨mapped, middle, resolves, rest⟩ := ok_of_bind run
    obtain ⟨canonical, translates, rfl⟩ := resolve_ok resolves
    cases rest
    exact ⟨canonical, ⟨mapped, translates, rfl⟩, rfl⟩
  · rintro ⟨canonical, ⟨mapped, translates, rfl⟩, rfl⟩
    have resolves : resolve address after = .ok mapped after := by
      rw [resolve, if_pos canonical, translates]
    rw [loadByte, bind_of_ok resolves, bind_of_ok (get_apply after), pure_apply]

/-- What a store does. -/
theorem storeByte_ok_iff {value : UInt8} :
    storeByte address value machine = .ok () after ↔
      Canonical address ∧ ∃ mapped,
        translation machine.memory machine.root address = some mapped ∧
        (mapped.writable || !machine.writeProtect) = true ∧
        after = { machine with
          memory := Function.update machine.memory mapped.physical value } := by
  constructor
  · intro run
    obtain ⟨mapped, middle, resolves, rest⟩ := ok_of_bind run
    obtain ⟨canonical, translates, rfl⟩ := resolve_ok resolves
    obtain ⟨_, _, got, rest⟩ := ok_of_bind rest
    cases got
    refine ⟨canonical, mapped, translates, ?_⟩
    split at rest
    next allowed =>
      cases rest
      exact ⟨allowed, rfl⟩
    next => cases rest
  · rintro ⟨canonical, mapped, translates, allowed, rfl⟩
    have resolves : resolve address machine = .ok mapped machine := by
      rw [resolve, if_pos canonical, translates]
    rw [storeByte, bind_of_ok resolves, bind_of_ok (get_apply machine), if_pos allowed]
    rfl

/-- A store needs a mapped address that the kernel may write. -/
theorem storeByte_ok {value : UInt8}
    (run : storeByte address value machine = .ok () after) :
    Canonical address ∧ ∃ mapped,
      translation machine.memory machine.root address = some mapped ∧
      after = { machine with
        memory := Function.update machine.memory mapped.physical value } := by
  obtain ⟨canonical, mapped, translates, -, isAfter⟩ := storeByte_ok_iff.mp run
  exact ⟨canonical, mapped, translates, isAfter⟩

/-- A store that traps writes nothing. -/
theorem storeByte_error {value : UInt8} {trap : Trap}
    (run : storeByte address value machine = .error trap after) : after = machine := by
  cases resolves : resolve address machine with
  | error trap middle =>
      rw [storeByte, bind_of_error resolves] at run
      cases run
      exact (keeps_resolve address).of_error resolves
  | ok mapped middle =>
      rw [storeByte, bind_of_ok resolves, (keeps_resolve address).of_ok resolves,
        bind_of_ok (get_apply machine)] at run
      split at run
      · cases run
      · cases run
        rfl

/-- A store through a writable mapping succeeds. -/
theorem storeByte_of_writable {mapped : Translation} (value : UInt8)
    (canonical : Canonical address)
    (translates : translation machine.memory machine.root address = some mapped)
    (writable : mapped.writable = true) :
    storeByte address value machine = .ok ()
      { machine with
        memory := Function.update machine.memory mapped.physical value } := by
  have allowed : (mapped.writable || !machine.writeProtect) = true := by
    simp [writable]
  exact storeByte_ok_iff.mpr ⟨canonical, mapped, translates, allowed, rfl⟩

end Kernel

theorem keeps_loadField (struct offset count : Nat) :
    Keeps (loadField struct offset count) :=
  Kernel.keeps_loadWord _ _

end StarterKernel
