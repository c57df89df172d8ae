import StarterKernel.Memory.Plain
import StarterKernel.Terminal.Cells
import StarterKernel.Exec.BootImage
import Mathlib.Order.Interval.Set.Defs

/-!
# Copying plain memory (`memory.c`)

On plain memory the loop of `memcpy` is the copy of one cell after the other.  So the
destination holds what the source held, also if it overlaps a source behind it, and no
other byte of the machine changes.
-/

namespace StarterKernel

open StateError

variable {machine middle after : Machine} {readable writable : Set Nat}
variable {physical : Nat -> Nat} {dest src size count fuel i : Nat}

/-- The second machine is the first one after `count` bytes were copied from `src` on to
`dest`. -/
structure Copied (machine after : Machine) (readable : Set Nat) (physical : Nat -> Nat)
    (dest src count : Nat) : Prop where
  rest : after = { machine with memory := after.memory }
  view : ∀ address ∈ readable, after.memory (physical address) =
    ForwardCopy.copy (fun cell => machine.memory (physical cell)) dest src count address
  frame : ∀ position, (∀ offset < count, position ≠ physical (dest + offset)) ->
    after.memory position = machine.memory position

theorem Copied.none : Copied machine machine readable physical dest src 0 where
  rest := rfl
  view _ _ := by rw [ForwardCopy.copy_zero]
  frame _ _ := rfl

/-- One byte more at the front. -/
theorem Copied.cons (plain : Plain machine readable writable physical)
    (isDest : dest ∈ writable) (sources : ∀ offset < count + 1, src + offset ∈ readable)
    (copied : Copied (machine.poke (physical dest) (machine.memory (physical src))) after
      readable physical (dest + 1) (src + 1) count) :
    Copied machine after readable physical dest src (count + 1) where
  rest := copied.rest
  view address member := by
    rw [copied.view address member, ForwardCopy.copy_succ]
    refine ForwardCopy.copy_congr (fun cell inside => plain.view_poke isDest inside) ?_ member
    intro offset small
    rw [Nat.add_assoc, Nat.add_comm 1]
    exact sources (offset + 1) (by omega)
  frame position outside := by
    have different : position ≠ physical dest := outside 0 (Nat.succ_pos _)
    rw [copied.frame position, Machine.poke_memory, Function.update_of_ne different]
    intro offset small
    rw [Nat.add_assoc, Nat.add_comm 1]
    exact outside (offset + 1) (by omega)

/-- The loop of `memcpy` copies what is left of its range. -/
theorem Plain.memcpyLoop (plain : Plain machine readable writable physical)
    (destBound : dest + (size - i) ≤ wordSize) (srcBound : src + (size - i) ≤ wordSize)
    (dests : ∀ offset < size - i, dest + offset ∈ writable)
    (sources : ∀ offset < size - i, src + offset ∈ readable) (enough : size - i < fuel) :
    ∃ after, Kernel.memcpyLoop size fuel i (dest % wordSize) (src % wordSize) machine =
        .ok () after ∧
      Plain after readable writable physical ∧
      Copied machine after readable physical dest src (size - i) := by
  induction fuel generalizing i dest src machine with
  | zero => omega
  | succ fuel inductionHypothesis =>
      rw [Kernel.memcpyLoop]
      by_cases more : i < size
      · have isDest : dest ∈ writable := dests 0 (by omega)
        have isSource : src ∈ readable := sources 0 (by omega)
        have left : size - i = size - (i + 1) + 1 := by omega
        rw [if_pos more, Nat.mod_eq_of_lt (show dest < wordSize by omega),
          Nat.mod_eq_of_lt (show src < wordSize by omega),
          bind_of_ok (plain.loadByte isSource), bind_of_ok (plain.storeByte isDest)]
        obtain ⟨after, run, stays, copied⟩ := @inductionHypothesis _ (dest + 1) (src + 1)
          (i + 1) (plain.poke isDest) (by omega) (by omega)
          (fun offset small => by
            rw [Nat.add_assoc, Nat.add_comm 1]
            exact dests (offset + 1) (by omega))
          (fun offset small => by
            rw [Nat.add_assoc, Nat.add_comm 1]
            exact sources (offset + 1) (by omega)) (by omega)
        refine ⟨after, run, stays, ?_⟩
        rw [left] at sources ⊢
        exact copied.cons plain isDest sources
      · rw [if_neg more, show size - i = 0 by omega]
        exact ⟨machine, rfl, plain, .none⟩

/-- Two ranges of fewer than `2 ^ 31` bytes that do not wrap, and that overlap only if the
destination begins before the source. -/
structure CopyRanges (limit dest src size : Nat) : Prop where
  short : size < 2 ^ 31
  destBound : dest + size ≤ limit
  srcBound : src + size ≤ limit
  order : dest + size ≤ src ∨ src + size ≤ dest ∨ dest ≤ src

/-- Copying within plain memory. -/
theorem Plain.memcpy (plain : Plain machine readable writable physical)
    (ranges : CopyRanges wordSize dest src size)
    (dests : ∀ offset < size, dest + offset ∈ writable)
    (sources : ∀ offset < size, src + offset ∈ readable) :
    ∃ after, Kernel.memcpy dest src size machine = .ok () after ∧
      Plain after readable writable physical ∧
      Copied machine after readable physical dest src size := by
  have destBound := ranges.destBound
  have srcBound := ranges.srcBound
  rw [Kernel.memcpy]
  obtain rfl | nonempty := Nat.eq_zero_or_pos size
  · exact ⟨machine, rfl, plain, .none⟩
  · obtain ⟨after, run, stays, copied⟩ := @memcpyLoop machine readable writable physical dest
      src size (2 ^ 31) 0 plain destBound srcBound dests sources ranges.short
    rw [Nat.mod_eq_of_lt (by omega), Nat.mod_eq_of_lt (by omega)] at run
    exact ⟨after, run, stays, copied⟩

/-- The destination of a copy holds what the source held before. -/
theorem Copied.inside (copied : Copied machine after readable physical dest src size)
    (ranges : CopyRanges wordSize dest src size) (subset : ∀ offset < size,
      dest + offset ∈ readable) {offset : Nat} (small : offset < size) :
    after.memory (physical (dest + offset)) = machine.memory (physical (src + offset)) := by
  have order := ranges.order
  rw [copied.view _ (subset offset small), ForwardCopy.copy_inside (by omega) (by omega)
    (by omega), Nat.add_sub_cancel_left]

/-- The other addresses hold what they held before. -/
theorem Copied.outside {address : Nat}
    (copied : Copied machine after readable physical dest src size)
    (member : address ∈ readable) (outside : address ∉ Set.Ico dest (dest + size)) :
    after.memory (physical address) = machine.memory (physical address) := by
  rw [Set.mem_Ico, not_and_or] at outside
  rw [copied.view _ member, ForwardCopy.copy_outside (by omega)]

/-- `memcpy` copies exactly its range, for ranges apart from each other and for a
destination that begins before the source: in plain memory, where it also changes no
physical byte but those of the destination, and in the buffer of the terminal. -/
theorem memcpy_copies_exactly (plain : Plain machine readable writable physical)
    (ranges : CopyRanges wordSize dest src size)
    (dests : Set.Ico dest (dest + size) ⊆ writable)
    (sources : Set.Ico src (src + size) ⊆ readable) :
    (∃ after, Kernel.memcpy dest src size machine = .ok () after ∧
      (∀ i < size,
        after.memory (physical (dest + i)) = machine.memory (physical (src + i))) ∧
      (∀ address ∈ readable, address ∉ Set.Ico dest (dest + size) ->
        after.memory (physical address) = machine.memory (physical address)) ∧
      (∀ position, (∀ i < size, position ≠ physical (dest + i)) ->
        after.memory position = machine.memory position) ∧
      after = { machine with memory := after.memory }) ∧
    ∀ (terminal : Terminal) (dest src size : Nat), CopyRanges 4000 dest src size ->
      ∃ after, TerminalM.memcpy dest src size terminal = .ok ⟨⟩ after ∧
        (∀ i < size, after.buffer (dest + i) = terminal.buffer (src + i)) ∧
        (∀ position, position ∉ Set.Ico dest (dest + size) ->
          after.buffer position = terminal.buffer position) ∧
        after = { terminal with buffer := after.buffer } := by
  constructor
  · have isDest (offset : Nat) (small : offset < size) : dest + offset ∈ writable :=
      dests ⟨by omega, by omega⟩
    obtain ⟨after, run, _, copied⟩ := plain.memcpy ranges isDest
      fun offset small => sources ⟨by omega, by omega⟩
    exact ⟨after, run,
      fun i small => copied.inside ranges (fun _ less => plain.subset _ (isDest _ less)) small,
      fun address => copied.outside, copied.frame, copied.rest⟩
  · intro terminal dest src size ranges
    have order := ranges.order
    refine ⟨_, TerminalM.memcpyLoop_eq ranges.short ranges.destBound ranges.srcBound,
      fun i small => ?_, fun position outside => ?_, rfl⟩
    · dsimp only
      rw [Nat.sub_zero, ForwardCopy.copy_inside (by omega) (by omega) (by omega),
        Nat.add_sub_cancel_left]
    · rw [Set.mem_Ico, not_and_or] at outside
      dsimp only
      rw [Nat.sub_zero, ForwardCopy.copy_outside (by omega)]

/-! ## The direct map -/

/-- The direct map of the boot machine from behind its page tables on. -/
def bootDirectMap : Set Nat := Set.Ico (bootHhdmBase + 0x4000) (bootHhdmBase + 2 ^ 30)

/-- The physical address of an address of the direct map. -/
def bootPhysical (address : Nat) : Nat := address - bootHhdmBase

theorem root_bootMachine (content : Nat -> UInt8) : (bootMachine content).root = bootRoot :=
  @IsFrame.root_eq (bootMachine content) isFrame_bootRoot

/-- The direct map of the boot machine is plain memory. -/
theorem plain_bootMachine (content : Nat -> UInt8) :
    Plain (bootMachine content) bootDirectMap bootDirectMap bootPhysical where
  subset _ member := member
  mapped address member := by
    obtain ⟨lower, upper⟩ := member
    obtain ⟨offset, rfl⟩ := Nat.exists_eq_add_of_le
      (show bootHhdmBase ≤ address from (Nat.le_add_right _ _).trans lower)
    have small : offset < 2 ^ 30 := Nat.lt_of_add_lt_add_left upper
    have canonical : Canonical (bootHhdmBase + offset) := by
      unfold Canonical bootHhdmBase wordSize
      omega
    have translates := translation_bootMemory content small
    rw [← root_bootMachine content] at translates
    refine ⟨canonical, _, translates, ?_, fun _ => rfl⟩
    rw [bootPhysical, Nat.add_sub_cancel_left]
  apart address member other otherMember same := by
    obtain ⟨lower, _⟩ := member
    obtain ⟨otherLower, _⟩ := otherMember
    unfold bootPhysical at same
    omega
  noTable address member path reached := by
    obtain ⟨lower, _⟩ := member
    rw [root_bootMachine] at reached
    have isTable := mem_of_tableAt_bootMemory reached
    unfold frameOf bootPhysical bootLowerTable bootUpperTable bootRoot at isTable
    omega

/-- Two bytes of the direct map move down by one. -/
theorem memcpy_copies_exactly_bootMachine :
    ∃ after, Kernel.memcpy (bootHhdmBase + 0x10000) (bootHhdmBase + 0x10001) 2
        (bootMachine fun position => UInt8.ofNat position) = .ok () after ∧
      after.memory 0x10000 = 1 ∧ after.memory 0x10001 = 2 ∧ after.memory 0x10002 = 2 := by
  obtain ⟨⟨after, run, inside, outside, _⟩, _⟩ := @memcpy_copies_exactly
    (bootMachine fun position => UInt8.ofNat position) bootDirectMap bootDirectMap
    bootPhysical (bootHhdmBase + 0x10000) (bootHhdmBase + 0x10001) 2
    (plain_bootMachine _) ⟨by decide, by decide, by decide, by decide⟩
    (fun address member => ⟨(by decide : _ ≤ bootHhdmBase + 0x10000).trans member.1,
      member.2.trans_le (by decide)⟩)
    (fun address member => ⟨(by decide : _ ≤ bootHhdmBase + 0x10001).trans member.1,
      member.2.trans_le (by decide)⟩)
  have last := outside (bootHhdmBase + 0x10002) ⟨by decide, by decide⟩
    (fun member => absurd member.2 (by decide))
  refine ⟨after, run, (inside 0 (by decide)).trans ?_, (inside 1 (by decide)).trans ?_,
    last.trans ?_⟩
  · exact bootMemory_outside (by decide)
  · exact bootMemory_outside (by decide)
  · exact bootMemory_outside (by decide)

end StarterKernel
