import StarterKernel.Kernel.Strings
import StarterKernel.Memory.Copies
import StarterKernel.Strings.Compare

/-!
# Copying strings (`strcpy`)

`strcpy` copies the characters of a string and leaves the terminator behind.  It returns
the pointer behind the last character.
-/

namespace StarterKernel

open StateError

variable {machine after : Machine} {readable writable : Set Nat} {physical : Nat -> Nat}
variable {dest src fuel i count : Nat} {bytes : List UInt8}

/-- The loop of `strcpy` is that of `memcpy`, and ends behind the last character. -/
theorem strcpyLoop_eq (enough : count < fuel + i) (inside : i ≤ count) :
    strcpyLoop count fuel i (dest % wordSize) (src % wordSize) =
      (Kernel.memcpyLoop count fuel i (dest % wordSize) (src % wordSize) >>= fun _ =>
        return (dest + (count - i)) % wordSize) := by
  induction fuel generalizing i dest src with
  | zero => omega
  | succ fuel inductionHypothesis =>
      rw [strcpyLoop, Kernel.memcpyLoop]
      by_cases more : i < count
      · have ends : dest + 1 + (count - (i + 1)) = dest + (count - i) := by omega
        have later := @inductionHypothesis (dest + 1) (src + 1) (i + 1) (by omega) more
        rw [ends] at later
        rw [if_pos (by omega), if_pos more, Nat.mod_add_mod, Nat.mod_add_mod]
        simp only [bind_assoc, later]
      · rw [if_neg (by omega), if_neg more, pure_bind, show count - i = 0 by omega,
          Nat.add_zero]

theorem Plain.readsString (plain : Plain machine readable writable physical)
    (bound : src + bytes.length < wordSize)
    (inside : ∀ i ≤ bytes.length, src + i ∈ readable)
    (held : ∀ i ≤ bytes.length, machine.memory (physical (src + i)) = bytes.getD i 0) :
    ReadsString (pointerString src) machine bytes := by
  intro i small
  rw [pointerString, Nat.mod_eq_of_lt (by omega), plain.loadByte (inside i small),
    held i small]

/-- What `strcpy` is called with: a string in plain memory, and apart from it a region that
holds anything and has a place for each of its characters and the terminator. -/
structure StrcpyInput where
  machine : Machine
  readable : Set Nat
  writable : Set Nat
  physical : Nat -> Nat
  plain : Plain machine readable writable physical
  dest : Nat
  src : Nat
  bytes : List UInt8
  noNul : 0 ∉ bytes
  short : bytes.length < 2 ^ 31
  destBound : dest + bytes.length < wordSize
  srcBound : src + bytes.length < wordSize
  dests : ∀ i ≤ bytes.length, dest + i ∈ writable
  sources : ∀ i ≤ bytes.length, src + i ∈ readable
  held : ∀ i ≤ bytes.length, machine.memory (physical (src + i)) = bytes.getD i 0
  disjoint : dest + bytes.length < src ∨ src + bytes.length < dest

namespace StrcpyInput

variable (input : StrcpyInput)

/-- The region holds a string equal to the source. -/
structure EqualString (after : Machine) : Prop where
  contents : ∀ i ≤ input.bytes.length,
    after.memory (input.physical (input.dest + i)) = input.bytes.getD i 0
  length : strlen (pointerString input.dest) after = .ok input.bytes.length after
  equal : strcmp (pointerString input.dest) (pointerString input.src) after = .ok 0 after

/-- The call returns the pointer to the region, which holds an equal string, and changes
nothing outside of it. -/
def Copies : Prop :=
  ∃ after, strcpy input.dest input.src input.machine = .ok input.dest after ∧
    input.EqualString after ∧
    ∀ position, (∀ i ≤ input.bytes.length, position ≠ input.physical (input.dest + i)) ->
      after.memory position = input.machine.memory position

theorem copyRanges : CopyRanges wordSize input.dest input.src input.bytes.length := by
  have disjoint := input.disjoint
  exact ⟨input.short, input.destBound.le, input.srcBound.le, by omega⟩

/-- The call copies the characters, and returns the pointer behind the last of them. -/
theorem strcpy_eq :
    ∃ after,
      strcpy input.dest input.src input.machine =
        .ok (input.dest + input.bytes.length) after ∧
      Plain after input.readable input.writable input.physical ∧
      Copied input.machine after input.readable input.physical input.dest input.src
        input.bytes.length := by
  have short := input.short
  have destBound := input.destBound
  have srcBound := input.srcBound
  have reads := input.plain.readsString srcBound input.sources input.held
  obtain ⟨after, run, plain, copied⟩ := input.plain.memcpy input.copyRanges
    (fun i small => input.dests i small.le) fun i small => input.sources i small.le
  have loop := @strcpyLoop_eq input.dest input.src (2 ^ 31) 0 input.bytes.length short
    (Nat.zero_le _)
  rw [Nat.mod_eq_of_lt (show input.dest < wordSize by omega),
    Nat.mod_eq_of_lt (show input.src < wordSize by omega), Nat.sub_zero,
    Nat.mod_eq_of_lt destBound] at loop
  refine ⟨after, ?_, plain, copied⟩
  rw [strcpy, bind_of_ok (strlen_eq reads input.noNul (by omega)), toInt32_of_lt short, loop]
  exact bind_of_ok run

variable {input}

/-- The source is as it was, and so is the place of the terminator. -/
theorem kept {address : Nat}
    (copied : Copied input.machine after input.readable input.physical input.dest input.src
      input.bytes.length)
    (outside : address < input.dest ∨ input.dest + input.bytes.length ≤ address)
    (member : address ∈ input.readable) :
    after.memory (input.physical address) = input.machine.memory (input.physical address) :=
  copied.outside member fun inside => by
    obtain ⟨lower, upper⟩ := inside
    omega

/-- The region holds an equal string exactly if the place of the terminator held NUL. -/
theorem equalString_iff (plain : Plain after input.readable input.writable input.physical)
    (copied : Copied input.machine after input.readable input.physical input.dest input.src
      input.bytes.length) :
    input.EqualString after ↔
      input.machine.memory (input.physical (input.dest + input.bytes.length)) = 0 := by
  have disjoint := input.disjoint
  have isRegion (i : Nat) (inside : i ≤ input.bytes.length) :
      input.dest + i ∈ input.readable := input.plain.subset _ (input.dests i inside)
  have terminator := kept copied (Or.inr (Nat.le_refl _)) (isRegion _ (Nat.le_refl _))
  constructor
  · intro equal
    rw [← terminator, equal.contents _ (Nat.le_refl _),
      List.getD_eq_default _ _ (Nat.le_refl _)]
  · intro isNul
    have contents : ∀ i ≤ input.bytes.length,
        after.memory (input.physical (input.dest + i)) = input.bytes.getD i 0 := by
      intro i inside
      obtain character | rfl := Nat.lt_or_eq_of_le inside
      · rw [copied.inside input.copyRanges (fun k small => isRegion k small.le) character,
          input.held i inside]
      · rw [terminator, isNul, List.getD_eq_default _ _ (Nat.le_refl _)]
    have source : ∀ i ≤ input.bytes.length,
        after.memory (input.physical (input.src + i)) = input.bytes.getD i 0 := by
      intro i inside
      rw [kept copied (by omega) (input.sources i inside), input.held i inside]
    have readsDest := plain.readsString input.destBound isRegion contents
    have readsSource := plain.readsString input.srcBound input.sources source
    have equal := CString.strcmp_eq
      { read := pointerString input.dest, bytes := input.bytes, reads := readsDest,
        noNul := input.noNul, short := input.short }
      { read := pointerString input.src, bytes := input.bytes, reads := readsSource,
        noNul := input.noNul, short := input.short }
    refine ⟨contents, strlen_eq readsDest input.noNul ?_, ?_⟩
    · exact (Nat.le_add_left ..).trans_lt input.destBound
    · rwa [ThreeWay.compare_self] at equal

/-- A copy is right exactly if there are no characters to copy and the region begins with
NUL. -/
theorem copies_iff :
    input.Copies ↔
      input.bytes = [] ∧ input.machine.memory (input.physical input.dest) = 0 := by
  obtain ⟨after, run, plain, copied⟩ := input.strcpy_eq
  have equal := equalString_iff plain copied
  constructor
  · rintro ⟨other, runs, equalString, _⟩
    obtain ⟨sameValue, rfl⟩ := ok_unique run runs
    have empty : input.bytes = [] := List.eq_nil_of_length_eq_zero (by omega)
    have isNul := equal.mp equalString
    rw [empty, List.length_nil, Nat.add_zero] at isNul
    exact ⟨empty, isNul⟩
  · rintro ⟨empty, isNul⟩
    rw [empty, List.length_nil, Nat.add_zero] at run equal
    refine ⟨after, run, equal.mpr isNul, fun position outside => ?_⟩
    exact copied.frame position fun i small => outside i small.le

end StrcpyInput

/-- `strcpy` makes an equal string and returns it exactly if the source is empty and the
region begins with NUL: it returns the pointer behind the characters, and it makes an equal
string exactly if the place of the terminator held NUL. -/
theorem strcpy_copies_iff (input : StrcpyInput) :
    (input.Copies ↔
      input.bytes = [] ∧ input.machine.memory (input.physical input.dest) = 0) ∧
    ∃ after,
      strcpy input.dest input.src input.machine =
        .ok (input.dest + input.bytes.length) after ∧
      (input.EqualString after ↔
        input.machine.memory (input.physical (input.dest + input.bytes.length)) = 0) := by
  obtain ⟨after, run, plain, copied⟩ := input.strcpy_eq
  exact ⟨StrcpyInput.copies_iff, after, run, StrcpyInput.equalString_iff plain copied⟩

/-! ## A region that was used before -/

/-- The string `a` at `0x10000`, and other characters everywhere else. -/
def usedMemory (position : Nat) : UInt8 :=
  if position = 0x10000 then 97 else if position = 0x10001 then 0 else 120

theorem usedMemory_places :
    (∀ i ≤ 1, bootHhdmBase + 0x20000 + i ∈ bootDirectMap) ∧
      ∀ i ≤ 1, bootHhdmBase + 0x10000 + i ∈ bootDirectMap :=
  ⟨fun i small => ⟨by omega, by omega⟩, fun i small => ⟨by omega, by omega⟩⟩

theorem usedMemory_held :
    ∀ i ≤ 1, (bootMachine usedMemory).memory (bootPhysical (bootHhdmBase + 0x10000 + i)) =
      [97].getD i 0 := by
  intro i small
  obtain rfl | rfl : i = 0 ∨ i = 1 := by omega
  · exact bootMemory_outside (by decide)
  · exact bootMemory_outside (by decide)

theorem usedMemory_noNul : (0 : UInt8) ∉ [(97 : UInt8)] := by
  decide

theorem usedMemory_short : [(97 : UInt8)].length < 2 ^ 31 := by
  decide

/-- The string is copied to another place of the direct map. -/
def strcpySample : StrcpyInput where
  machine := bootMachine usedMemory
  readable := bootDirectMap
  writable := bootDirectMap
  physical := bootPhysical
  plain := plain_bootMachine usedMemory
  dest := bootHhdmBase + 0x20000
  src := bootHhdmBase + 0x10000
  bytes := [97]
  noNul := usedMemory_noNul
  short := usedMemory_short
  destBound := by decide
  srcBound := by decide
  dests := usedMemory_places.1
  sources := usedMemory_places.2
  held := usedMemory_held
  disjoint := by decide

/-- The copy has no terminator, and the pointer returned is not that of the region. -/
theorem strcpy_leaves_terminator :
    ¬strcpySample.Copies ∧
      ∃ after,
        strcpy strcpySample.dest strcpySample.src strcpySample.machine =
          .ok (strcpySample.dest + 1) after ∧
        ¬strcpySample.EqualString after := by
  obtain ⟨after, run, plain, copied⟩ := strcpySample.strcpy_eq
  have used : strcpySample.machine.memory
      (strcpySample.physical (strcpySample.dest + strcpySample.bytes.length)) = 120 :=
    bootMemory_outside (by decide)
  refine ⟨fun copies => ?_, after, run, fun equal => ?_⟩
  · exact absurd (StrcpyInput.copies_iff.mp copies).1 (by decide)
  · rw [StrcpyInput.equalString_iff plain copied, used] at equal
    exact absurd equal (by decide)

end StarterKernel
