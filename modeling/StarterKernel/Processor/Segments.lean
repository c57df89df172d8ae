import StarterKernel.Kernel.Gdt

/-!
# The segments of the processor

The processor reads an entry of the global descriptor table as a segment.  `gdt_setup`
leaves a table of one code and one data segment for the kernel, one of each for programs,
and the descriptor of a task state segment that gives the stack of the kernel.
-/

namespace StarterKernel

open ByteMemory

/-- A segment of the x86-64 processor. -/
structure Segment where
  base : Nat
  limit : Nat
  present : Bool
  dpl : Nat
  /-- A code or data segment rather than a system one. -/
  ordinary : Bool
  executable : Bool
  conforming : Bool
  /-- Code may be read, or data be written. -/
  permissive : Bool
  /-- Code for 64-bit mode. -/
  long : Bool
  deriving DecidableEq

/-- The segment with these base, limit, access byte and flags. -/
def Segment.ofAccess (base limit access flags : Nat) : Segment where
  base := base
  limit := limit
  present := access.testBit 7
  dpl := access / 2 ^ 5 % 2 ^ 2
  ordinary := access.testBit 4
  executable := access.testBit 3
  conforming := access.testBit 2
  permissive := access.testBit 1
  long := flags.testBit 1

/-- The segment in the 8 bytes at an address. -/
def Segment.decode (memory : Nat -> UInt8) (address : Nat) : Segment :=
  .ofAccess
    (load memory (address + 2) 3 + 2 ^ 24 * load memory (address + 7) 1)
    (load memory address 2 + 2 ^ 16 * (load memory (address + 6) 1 % 2 ^ 4))
    (load memory (address + 5) 1) (load memory (address + 6) 1 / 2 ^ 4)

/-- A task state segment. -/
structure TaskSegment where
  base : Nat
  limit : Nat
  type : Nat
  dpl : Nat
  present : Bool
  deriving DecidableEq

/-- The task state segment in the 16 bytes at an address. -/
def TaskSegment.decode (memory : Nat -> UInt8) (address : Nat) : TaskSegment where
  base := load memory (address + 2) 3 + 2 ^ 24 * load memory (address + 7) 5
  limit := load memory address 2 + 2 ^ 16 * (load memory (address + 6) 1 % 2 ^ 4)
  type := load memory (address + 5) 1 % 2 ^ 5
  dpl := load memory (address + 5) 1 / 2 ^ 5 % 2 ^ 2
  present := (load memory (address + 5) 1).testBit 7

theorem Segment.decode_congr {memory other : Nat -> UInt8} {address : Nat}
    (same : ∀ position, address ≤ position -> position < address + 8 ->
      other position = memory position) :
    Segment.decode other address = Segment.decode memory address := by
  have sameLoad (position count : Nat) (above : address ≤ position)
      (inside : position + count ≤ address + 8) :
      load other position count = load memory position count :=
    load_congr fun offset bound => same _ (by omega) (by omega)
  simp only [decode, sameLoad _ 3 (Nat.le_add_right _ _) (by omega : address + 2 + 3 ≤ _),
    sameLoad _ 1 (Nat.le_add_right _ _) (by omega : address + 7 + 1 ≤ _),
    sameLoad _ 1 (Nat.le_add_right _ _) (by omega : address + 6 + 1 ≤ _),
    sameLoad _ 1 (Nat.le_add_right _ _) (by omega : address + 5 + 1 ≤ _),
    sameLoad _ 2 (le_refl _) (by omega : address + 2 ≤ _)]

/-! ## Accessed bits -/

/-- The bytes of the table that hold the accessed bits of its code and data segments. -/
def accessBytes : List Nat :=
  [kernelCodeSelector + 5, kernelDataSelector + 5, userCodeSelector + 5, userDataSelector + 5]

/-- The processor does not look at the accessed bit when it reads a segment. -/
theorem Segment.ofAccess_accessed (base limit access flags : Nat) :
    Segment.ofAccess base limit (access ||| 1) flags = .ofAccess base limit access flags := by
  have level : (access ||| 1) / 2 ^ 5 = access / 2 ^ 5 := by
    rw [← Nat.shiftRight_eq_div_pow, ← Nat.shiftRight_eq_div_pow, Nat.shiftRight_or_distrib]
    exact Nat.or_zero _
  have other (bit : Nat) (upper : bit ≠ 0) :
      (access ||| 1).testBit bit = access.testBit bit := by
    have clear : Nat.testBit 1 bit = false :=
      Bool.eq_false_iff.mpr (mt Nat.testBit_one_eq_true_iff_self_eq_zero.mp upper)
    rw [Nat.testBit_or, clear, Bool.or_false]
  rw [ofAccess, ofAccess, level, other 7 (by decide), other 4 (by decide),
    other 3 (by decide), other 2 (by decide), other 1 (by decide)]

/-- Setting accessed bits does not change a segment of the table. -/
theorem Segment.decode_accessed {table bytes : Nat -> UInt8} {index : Nat}
    (same : ∀ position, 8 * index ≤ position -> position < 8 * index + 8 ->
      bytes position = table position ∨
        position ∈ accessBytes ∧ bytes position = table position ||| 1) :
    Segment.decode bytes (8 * index) = Segment.decode table (8 * index) := by
  have listed (position : Nat) (member : position ∈ accessBytes) : position % 8 = 5 := by
    revert position
    decide
  have other (position : Nat) (above : 8 * index ≤ position) (below : position < 8 * index + 8)
      (notAccess : position % 8 ≠ 5) : bytes position = table position :=
    (same position above below).resolve_right fun accessed =>
      notAccess (listed position accessed.1)
  have rest (offset count : Nat) (inside : offset + count ≤ 8)
      (apart : offset + count ≤ 5 ∨ 6 ≤ offset) :
      load bytes (8 * index + offset) count = load table (8 * index + offset) count :=
    load_congr fun number bound => other _ (by omega) (by omega) (by omega)
  have low := rest 0 2 (by decide) (by decide)
  rw [Nat.add_zero] at low
  rw [decode, decode, low, rest 2 3 (by decide) (by decide), rest 6 1 (by decide) (by decide),
    rest 7 1 (by decide) (by decide), @load_one bytes (8 * index + 5),
    @load_one table (8 * index + 5)]
  rcases same (8 * index + 5) (by omega) (by omega) with equal | ⟨_, accessed⟩
  · rw [equal]
  · rw [accessed, UInt8.toNat_or]
    exact ofAccess_accessed _ _ _ _

namespace GdtState

variable {state : GdtState} {offset size position : Nat} {user : Bool} {tss : UInt64}

theorem reserve_gdt : (state.reserve offset size).gdt position =
    if offset ≤ position ∧ position < offset + size then 0 else state.gdt position :=
  memsetBytes_apply _ _ _ _ _

theorem load_reserve {address count : Nat} (inside : address + count ≤ size) :
    load (state.reserve offset size).gdt (offset + address) count = 0 :=
  load_eq_zero fun number bound => by rw [reserve_gdt, if_pos (by omega)]

theorem assign_gdt_outside {field : DescriptorField} {value : Nat}
    (inside : field.position + field.width ≤ 8 * size)
    (outside : position < offset ∨ offset + size ≤ position) :
    (state.assign offset field value).gdt position = state.gdt position :=
  BitFields.set_outside inside outside

/-! ## One descriptor -/

/-- The bytes of other descriptors stay. -/
theorem gdtCodeDescriptor_outside (outside : position < offset ∨ offset + 8 ≤ position) :
    (state.gdtCodeDescriptor offset user).gdt position = state.gdt position := by
  rw [gdtCodeDescriptor, assign_gdt_outside (by decide) outside,
    assign_gdt_outside (by decide) outside, reserve_gdt, if_neg (by omega)]

theorem gdtDataDescriptor_outside (outside : position < offset ∨ offset + 8 ≤ position) :
    (state.gdtDataDescriptor offset user).gdt position = state.gdt position := by
  rw [gdtDataDescriptor, assign_gdt_outside (by decide) outside, reserve_gdt,
    if_neg (by omega)]

theorem gdtTssDescriptor_outside (outside : position < offset ∨ offset + 16 ≤ position) :
    (state.gdtTssDescriptor offset tss).gdt position = state.gdt position := by
  rw [gdtTssDescriptor, assign_gdt_outside (by decide) outside,
    assign_gdt_outside (by decide) outside, assign_gdt_outside (by decide) outside,
    assign_gdt_outside (by decide) outside, assign_gdt_outside (by decide) outside,
    reserve_gdt, if_neg (by omega)]

section Fields

variable {field : DescriptorField} {value address count : Nat}

theorem load_assign_whole (first : field.position = 8 * address)
    (whole : field.width = 8 * count) :
    load (state.assign offset field value).gdt (offset + address) count =
      value % 2 ^ (8 * count) :=
  BitFields.load_set_whole first whole

theorem load_assign_other
    (apart : 8 * (address + count) ≤ field.position ∨
      field.position + field.width ≤ 8 * address) :
    load (state.assign offset field value).gdt (offset + address) count =
      load state.gdt (offset + address) count :=
  BitFields.load_set_other apart

/-- The byte of the flags. -/
theorem load_assign_flags :
    load (state.assign offset .flags value).gdt (offset + 6) 1 =
      BitFields.insert (load state.gdt (offset + 6) 1) 4 4 value % 256 :=
  BitFields.load_set_word

/-- The same byte holds the upper bits of the limit. -/
theorem load_assign_limit1 :
    load (state.assign offset .limit1 value).gdt (offset + 6) 1 =
      BitFields.insert (load state.gdt (offset + 6) 1) 0 4 value % 256 :=
  BitFields.load_set_word

end Fields

/-- The processor reads the code segment that was asked for. -/
theorem gdtCodeDescriptor_decode :
    Segment.decode (state.gdtCodeDescriptor offset user).gdt offset =
      .ofAccess 0 0 (0x9A ||| if user then 0x60 else 0) 0x2 := by
  have rest {address count : Nat} (inside : address + count ≤ 8)
      (apart : address + count ≤ 5 ∨ 7 ≤ address) :
      load (state.gdtCodeDescriptor offset user).gdt (offset + address) count = 0 := by
    have access : DescriptorField.access.position = 40 := rfl
    have accessWidth : DescriptorField.access.width = 8 := rfl
    have flags : DescriptorField.flags.position = 52 := rfl
    have flagsWidth : DescriptorField.flags.width = 4 := rfl
    rw [gdtCodeDescriptor, load_assign_other (by omega), load_assign_other (by omega),
      load_reserve inside]
  have access : load (state.gdtCodeDescriptor offset user).gdt (offset + 5) 1 =
      (0x9A ||| if user then 0x60 else 0) % 2 ^ (8 * 1) := by
    rw [gdtCodeDescriptor, load_assign_other (by decide), load_assign_whole rfl rfl]
  have flags : load (state.gdtCodeDescriptor offset user).gdt (offset + 6) 1 = 0x20 := by
    rw [gdtCodeDescriptor, load_assign_flags, load_assign_other (by decide),
      load_reserve (by decide)]
    rfl
  have low := @rest 0 2 (by decide) (by decide)
  rw [Nat.add_zero] at low
  rw [Segment.decode, low, rest (by decide) (by decide), rest (by decide) (by decide), access,
    flags]
  cases user <;> rfl

/-- The processor reads the data segment that was asked for. -/
theorem gdtDataDescriptor_decode :
    Segment.decode (state.gdtDataDescriptor offset user).gdt offset =
      .ofAccess 0 0 (0x92 ||| if user then 0x60 else 0) 0 := by
  have rest {address count : Nat} (inside : address + count ≤ 8)
      (apart : address + count ≤ 5 ∨ 6 ≤ address) :
      load (state.gdtDataDescriptor offset user).gdt (offset + address) count = 0 := by
    have position : DescriptorField.access.position = 40 := rfl
    have width : DescriptorField.access.width = 8 := rfl
    rw [gdtDataDescriptor, load_assign_other (by omega), load_reserve inside]
  have access : load (state.gdtDataDescriptor offset user).gdt (offset + 5) 1 =
      (0x92 ||| if user then 0x60 else 0) % 2 ^ (8 * 1) := by
    rw [gdtDataDescriptor, load_assign_whole rfl rfl]
  have low := @rest 0 2 (by decide) (by decide)
  rw [Nat.add_zero] at low
  rw [Segment.decode, low, rest (by decide) (by decide), rest (by decide) (by decide),
    rest (by decide) (by decide), access]
  cases user <;> rfl

/-- The processor reads a task state segment at the address that was passed. -/
theorem gdtTssDescriptor_decode :
    TaskSegment.decode (state.gdtTssDescriptor offset tss).gdt offset =
      { base := tss.toNat
        limit := tssSize
        type := 9
        dpl := 0
        present := true } := by
  have wide : tss.toNat < 2 ^ 64 := tss.toNat_lt
  have limit0 : load (state.gdtTssDescriptor offset tss).gdt (offset + 0) 2 = tssSize := by
    rw [gdtTssDescriptor, load_assign_other (by decide), load_assign_other (by decide),
      load_assign_whole rfl rfl]
    rfl
  have base0 : load (state.gdtTssDescriptor offset tss).gdt (offset + 2) 3 =
      tss.toNat % 2 ^ (8 * 3) := by
    rw [gdtTssDescriptor, load_assign_other (by decide), load_assign_other (by decide),
      load_assign_other (by decide), load_assign_other (by decide),
      load_assign_whole rfl rfl]
  have base1 : load (state.gdtTssDescriptor offset tss).gdt (offset + 7) 5 =
      (tss.toNat >>> 24) % 2 ^ (8 * 5) := by
    rw [gdtTssDescriptor, load_assign_other (by decide), load_assign_other (by decide),
      load_assign_other (by decide), load_assign_whole rfl rfl]
  have access : load (state.gdtTssDescriptor offset tss).gdt (offset + 5) 1 = 0x89 := by
    rw [gdtTssDescriptor, load_assign_whole rfl rfl]
    rfl
  have limit1 : load (state.gdtTssDescriptor offset tss).gdt (offset + 6) 1 = 0 := by
    rw [gdtTssDescriptor, load_assign_other (by decide), load_assign_limit1,
      load_assign_other (by decide), load_assign_other (by decide),
      load_assign_other (by decide), load_reserve (by decide)]
    rfl
  rw [Nat.add_zero] at limit0
  rw [TaskSegment.decode, limit0, base0, base1, access, limit1,
    Nat.shiftRight_eq_div_pow]
  have whole : tss.toNat % 2 ^ (8 * 3) + 2 ^ 24 * (tss.toNat / 2 ^ 24 % 2 ^ (8 * 5)) =
      tss.toNat := by
    omega
  rw [whole]
  rfl

/-- The bytes of access rights in the two halves of the descriptor. -/
theorem gdtTssDescriptor_access :
    load (state.gdtTssDescriptor offset tss).gdt (offset + 5) 1 = 0x89 ∧
      load (state.gdtTssDescriptor offset tss).gdt (offset + 13) 1 = 0 := by
  constructor
  · rw [gdtTssDescriptor, load_assign_whole rfl rfl]
    rfl
  · rw [gdtTssDescriptor, load_assign_other (by decide), load_assign_other (by decide),
      load_assign_other (by decide), load_assign_other (by decide),
      load_assign_other (by decide), load_reserve (by decide)]

/-- A segment outside the next descriptor stays. -/
theorem decode_gdtCodeDescriptor {address : Nat}
    (apart : address + 8 ≤ offset ∨ offset + 8 ≤ address) :
    Segment.decode (state.gdtCodeDescriptor offset user).gdt address =
      Segment.decode state.gdt address :=
  Segment.decode_congr fun _ _ _ => gdtCodeDescriptor_outside (by omega)

theorem decode_gdtDataDescriptor {address : Nat}
    (apart : address + 8 ≤ offset ∨ offset + 8 ≤ address) :
    Segment.decode (state.gdtDataDescriptor offset user).gdt address =
      Segment.decode state.gdt address :=
  Segment.decode_congr fun _ _ _ => gdtDataDescriptor_outside (by omega)

theorem decode_gdtTssDescriptor {address : Nat}
    (apart : address + 8 ≤ offset ∨ offset + 16 ≤ address) :
    Segment.decode (state.gdtTssDescriptor offset tss).gdt address =
      Segment.decode state.gdt address :=
  Segment.decode_congr fun _ _ _ => gdtTssDescriptor_outside (by omega)

/-! ## The busy bit -/

theorem ltr_gdt_other (apart : position ≠ offset + 5) :
    (state.ltr offset).gdt position = state.gdt position :=
  Function.update_of_ne apart _ _

theorem load_ltr_other {address count : Nat}
    (apart : address + count ≤ offset + 5 ∨ offset + 6 ≤ address) :
    load (state.ltr offset).gdt address count = load state.gdt address count :=
  load_congr fun _ _ => ltr_gdt_other (by omega)

theorem load_ltr_access :
    load (state.ltr offset).gdt (offset + 5) 1 = load state.gdt (offset + 5) 1 ||| 2 := by
  have busy : (state.ltr offset).gdt (offset + 5) = state.gdt (offset + 5) ||| 2 :=
    Function.update_self _ _ _
  rw [load_one, load_one, busy]
  exact UInt8.toNat_or _ _

/-- A segment apart from the descriptor of the task stays. -/
theorem decode_ltr {address : Nat} (apart : address + 8 ≤ offset + 5 ∨ offset + 6 ≤ address) :
    Segment.decode (state.ltr offset).gdt address = Segment.decode state.gdt address :=
  Segment.decode_congr fun _ _ _ => ltr_gdt_other (by omega)

/-- The processor finds its task busy. -/
theorem ltr_decode :
    TaskSegment.decode ((state.gdtTssDescriptor offset tss).ltr offset).gdt offset =
      { base := tss.toNat
        limit := tssSize
        type := 11
        dpl := 0
        present := true } := by
  have before := @gdtTssDescriptor_decode state offset tss
  rw [TaskSegment.decode, TaskSegment.mk.injEq] at before
  obtain ⟨base, limit, _⟩ := before
  rw [TaskSegment.decode, load_ltr_other (by omega), load_ltr_other (by omega),
    load_ltr_other (by omega), load_ltr_other (by omega), load_ltr_access,
    gdtTssDescriptor_access.1, base, limit]
  rfl

/-! ## The whole table -/

variable {symbols : GdtSymbols}

/-- The table with everything zeroed. -/
def cleared (state : GdtState) : GdtState :=
  { state with gdt := memsetBytes state.gdt 0 0 maxGdtSize }

theorem cleared_gdt : state.cleared.gdt = memsetBytes state.gdt 0 0 maxGdtSize := by
  simp only [cleared]

theorem gdtSetup_gdt : (state.gdtSetup symbols).gdt =
    ((((((state.cleared.gdtCodeDescriptor kernelCodeSelector false).gdtDataDescriptor
      kernelDataSelector false).gdtCodeDescriptor userCodeSelector true).gdtDataDescriptor
        userDataSelector true).gdtTssDescriptor tssSelector symbols.tss).ltr tssSelector).gdt := rfl

/-- Nothing is at selector 0. -/
theorem gdtSetup_null (inside : position < 8) : (state.gdtSetup symbols).gdt position = 0 := by
  rw [gdtSetup_gdt, ltr_gdt_other (by unfold tssSelector; omega),
    gdtTssDescriptor_outside (Or.inl (by unfold tssSelector; omega)),
    gdtDataDescriptor_outside (Or.inl (by unfold userDataSelector; omega)),
    gdtCodeDescriptor_outside (Or.inl (by unfold userCodeSelector; omega)),
    gdtDataDescriptor_outside (Or.inl (by unfold kernelDataSelector; omega)),
    gdtCodeDescriptor_outside (Or.inl (by unfold kernelCodeSelector; omega))]
  rw [cleared_gdt, memsetBytes_apply, if_pos (by unfold maxGdtSize; omega)]

theorem gdtSetup_segments :
    Segment.decode (state.gdtSetup symbols).gdt kernelCodeSelector = .ofAccess 0 0 0x9A 0x2 ∧
      Segment.decode (state.gdtSetup symbols).gdt kernelDataSelector =
        .ofAccess 0 0 0x92 0 ∧
      Segment.decode (state.gdtSetup symbols).gdt userCodeSelector = .ofAccess 0 0 0xFA 0x2 ∧
      Segment.decode (state.gdtSetup symbols).gdt userDataSelector =
        .ofAccess 0 0 0xF2 0 := by
  rw [gdtSetup_gdt]
  refine ⟨?_, ?_, ?_, ?_⟩
  · rw [decode_ltr (by decide), decode_gdtTssDescriptor (by decide),
      decode_gdtDataDescriptor (by decide), decode_gdtCodeDescriptor (by decide),
      decode_gdtDataDescriptor (by decide), gdtCodeDescriptor_decode]
    rfl
  · rw [decode_ltr (by decide), decode_gdtTssDescriptor (by decide),
      decode_gdtDataDescriptor (by decide), decode_gdtCodeDescriptor (by decide),
      gdtDataDescriptor_decode]
    rfl
  · rw [decode_ltr (by decide), decode_gdtTssDescriptor (by decide),
      decode_gdtDataDescriptor (by decide), gdtCodeDescriptor_decode]
    rfl
  · rw [decode_ltr (by decide), decode_gdtTssDescriptor (by decide), gdtDataDescriptor_decode]
    rfl

/-- The descriptor of the task is in use. -/
theorem gdtSetup_task :
    TaskSegment.decode (state.gdtSetup symbols).gdt (state.gdtSetup symbols).tr =
      { base := symbols.tss.toNat
        limit := tssSize
        type := 11
        dpl := 0
        present := true } :=
  ltr_decode

/-- Neither half of it is a code or data segment. -/
theorem gdtSetup_system :
    (Segment.decode (state.gdtSetup symbols).gdt tssSelector).ordinary = false ∧
      (Segment.decode (state.gdtSetup symbols).gdt (tssSelector + 8)).ordinary = false := by
  have upper : load (state.gdtSetup symbols).gdt (tssSelector + 13) 1 = 0 := by
    rw [gdtSetup_gdt, load_ltr_other (Or.inr (by decide)), gdtTssDescriptor_access.2]
  constructor
  · rw [gdtSetup_gdt, Segment.decode, load_ltr_access, gdtTssDescriptor_access.1]
    rfl
  · rw [Segment.decode, Nat.add_assoc tssSelector 8 5, upper]
    rfl

/-- The size is the end of the last descriptor. -/
theorem gdtSetup_gdtSize :
    (state.gdtSetup symbols).gdtr = (max state.gdtSize 0x38 - 1, symbols.gdt.toNat) := by
  have size (state : GdtState) (offset size : Nat) :
      (state.reserve offset size).gdtSize = max state.gdtSize (offset + size) := by
    simp only [reserve]
    split <;> omega
  have whole : (state.gdtSetup symbols).gdtr =
      (max (max (max (max (max state.gdtSize (kernelCodeSelector + 8))
        (kernelDataSelector + 8)) (userCodeSelector + 8)) (userDataSelector + 8))
          (tssSelector + 16) - 1, symbols.gdt.toNat) := by
    simp only [gdtSetup, ltr, gdtTssDescriptor, gdtDataDescriptor, gdtCodeDescriptor, assign,
      size]
  rw [whole, Prod.mk.injEq]
  unfold kernelCodeSelector kernelDataSelector userCodeSelector userDataSelector tssSelector
  exact ⟨by omega, rfl⟩

/-- The task state segment holds the top of the interrupt stack and is zero otherwise. -/
theorem gdtSetup_tss :
    load (state.gdtSetup symbols).tss 4 8 = (symbols.interruptStack + 0x7FF8).toNat ∧
      ∀ position < tssSize, position < 4 ∨ 12 ≤ position ->
        (state.gdtSetup symbols).tss position = 0 := by
  have stack : symbols.interruptStack + 0x8000 - 8 = symbols.interruptStack + 0x7FF8 := by
    have sum : (0x8000 : UInt64) + -8 = 0x7FF8 := rfl
    rw [UInt64.sub_eq_add_neg, UInt64.add_assoc, sum]
  have isTss : (state.gdtSetup symbols).tss =
      store (memsetBytes state.tss 0 0 tssSize) 4 8
        (symbols.interruptStack + 0x8000 - 8).toNat := rfl
  rw [isTss, stack]
  constructor
  · rw [load_store]
    exact Nat.mod_eq_of_lt (UInt64.toNat_lt _)
  · intro position inside apart
    rw [store_outside (by omega), memsetBytes_apply, if_pos (by omega)]

end GdtState

/-- After `gdt_setup` the processor finds, for any addresses of the variables and whatever
they held: no segment at selector 0, the segments of the kernel and of programs with their
privileges at the selectors the kernel uses, and a busy task state segment that is all
zero but for the top of the interrupt stack.  The limit of the table is the end of the
last descriptor. -/
theorem gdt_setup_segments (symbols : GdtSymbols) (state : GdtState) :
    (∀ position < 8, (state.gdtSetup symbols).gdt position = 0) ∧
      (Segment.decode (state.gdtSetup symbols).gdt kernelCodeSelector =
          .ofAccess 0 0 0x9A 0x2 ∧
        Segment.decode (state.gdtSetup symbols).gdt kernelDataSelector =
          .ofAccess 0 0 0x92 0 ∧
        Segment.decode (state.gdtSetup symbols).gdt userCodeSelector =
          .ofAccess 0 0 0xFA 0x2 ∧
        Segment.decode (state.gdtSetup symbols).gdt userDataSelector =
          .ofAccess 0 0 0xF2 0) ∧
      TaskSegment.decode (state.gdtSetup symbols).gdt (state.gdtSetup symbols).tr =
        { base := symbols.tss.toNat
          limit := tssSize
          type := 11
          dpl := 0
          present := true } ∧
      (state.gdtSetup symbols).gdtr = (max state.gdtSize 0x38 - 1, symbols.gdt.toNat) ∧
      load (state.gdtSetup symbols).tss 4 8 = (symbols.interruptStack + 0x7FF8).toNat ∧
      ∀ position < tssSize, position < 4 ∨ 12 ≤ position ->
        (state.gdtSetup symbols).tss position = 0 :=
  ⟨fun _ => GdtState.gdtSetup_null, GdtState.gdtSetup_segments,
    GdtState.gdtSetup_task, GdtState.gdtSetup_gdtSize, GdtState.gdtSetup_tss⟩

/-! ## The ports that programs may use -/

/-- Whether code with a privilege level may use a port.  Below the I/O privilege level it
depends on a bitmap that the task state segment points to; the processor reads two bytes
of it, which the limit of the segment must contain. -/
def portAllowed (tss : Nat -> UInt8) (limit cpl iopl port : Nat) : Bool :=
  let iomap := load tss 102 2
  decide (cpl ≤ iopl) ||
    decide (iomap + port / 8 + 1 ≤ limit) &&
      !(load tss (iomap + port / 8) 2).testBit (port % 8)

/-- The bits of the task state segment that `gdt_setup` leaves. -/
theorem GdtState.bit_gdtSetup_tss {symbols : GdtSymbols} {state : GdtState} {number : Nat}
    (inside : number < 8 * tssSize) :
    BitFields.bit (state.gdtSetup symbols).tss 0 number =
      (decide (32 ≤ number ∧ number < 96) &&
        (symbols.interruptStack + 0x7FF8).toNat.testBit (number - 32)) := by
  obtain ⟨stack, zero⟩ := @gdtSetup_tss state symbols
  by_cases inStack : 32 ≤ number ∧ number < 96
  · have bit := @BitFields.testBit_load (state.gdtSetup symbols).tss (0 + 4) (number - 8 * 4) 8
    rw [BitFields.bit_offset (by omega), decide_eq_true (by omega), Bool.true_and] at bit
    rw [decide_eq_true inStack, Bool.true_and, ← bit, ← stack]
  · unfold tssSize at inside zero
    rw [decide_eq_false inStack, Bool.false_and, BitFields.bit, zero _ (by omega) (by omega)]
    exact Nat.zero_testBit _

/-- `gdt_setup` leaves the offset of the bitmap zero, so the task state segment is its own
bitmap: programs may use exactly the ports below 832 but for those from 32 to 95 whose bit
is set in the top of the interrupt stack.  That gives them the ports of the keyboard
controller, of the secondary interrupt controller and of the primary disk controller. -/
theorem ports_of_programs (symbols : GdtSymbols) (state : GdtState) (iopl : Nat)
    (unprivileged : iopl < 3) :
    (∀ port, portAllowed (state.gdtSetup symbols).tss
        (TaskSegment.decode (state.gdtSetup symbols).gdt (state.gdtSetup symbols).tr).limit
        3 iopl port = true ↔
      port < 832 ∧ (32 ≤ port -> port < 96 ->
        (symbols.interruptStack + 0x7FF8).toNat.testBit (port - 32) = false)) ∧
    ∀ port ∈ [0x60, 0x64, 0xA0, 0xA1] ++ (List.range 8).map (0x1F0 + ·),
      portAllowed (state.gdtSetup symbols).tss
        (TaskSegment.decode (state.gdtSetup symbols).gdt (state.gdtSetup symbols).tr).limit
        3 iopl port = true := by
  have exact (port : Nat) : portAllowed (state.gdtSetup symbols).tss
      (TaskSegment.decode (state.gdtSetup symbols).gdt (state.gdtSetup symbols).tr).limit
        3 iopl port = true ↔
      port < 832 ∧ (32 ≤ port -> port < 96 ->
        (symbols.interruptStack + 0x7FF8).toNat.testBit (port - 32) = false) := by
    have limit : (TaskSegment.decode (state.gdtSetup symbols).gdt
        (state.gdtSetup symbols).tr).limit = 104 :=
      congrArg TaskSegment.limit GdtState.gdtSetup_task
    have iomap : load (state.gdtSetup symbols).tss 102 2 = 0 :=
      load_eq_zero fun offset bound =>
        GdtState.gdtSetup_tss.2 _ (by unfold tssSize; omega) (by omega)
    have privileged : decide (3 ≤ iopl) = false := decide_eq_false (by omega)
    unfold portAllowed
    simp only [limit, iomap, Nat.zero_add, privileged, Bool.false_or]
    by_cases inside : port < 832
    · have bit : (load (state.gdtSetup symbols).tss (port / 8) 2).testBit (port % 8) =
          BitFields.bit (state.gdtSetup symbols).tss 0 port := by
        have small : port % 8 < 8 * 2 := by omega
        rw [BitFields.testBit_load, decide_eq_true small, Bool.true_and, BitFields.bit,
          BitFields.bit, Nat.zero_add, Nat.mod_mod, show port % 8 / 8 = 0 by omega,
          Nat.add_zero]
      have within : port / 8 + 1 ≤ 104 := by omega
      rw [bit, GdtState.bit_gdtSetup_tss (by unfold tssSize; omega), decide_eq_true within]
      cases (symbols.interruptStack + 0x7FF8).toNat.testBit (port - 32)
      · simp [inside]
      · simp only [inside, Bool.and_true, Bool.true_and, Bool.not_eq_true', Bool.true_eq_false,
          decide_eq_false_iff_not, true_and]
        exact not_and
    · have beyond : ¬port / 8 + 1 ≤ 104 := by omega
      rw [decide_eq_false beyond]
      simp [inside]
  refine ⟨exact, fun port listed => (exact port).mpr ?_⟩
  have apart : 96 ≤ port ∧ port < 832 := by
    revert port
    decide
  exact ⟨apart.2, fun _ below => absurd below (by omega)⟩

/-- An ordinary interrupt stack. -/
theorem ports_of_programs_stack : portAllowed
    (GdtState.gdtSetup ⟨0x1000, 0x2000, 0x3000⟩ ⟨fun _ => 0, 0, fun _ => 0, (0, 0), 0⟩).tss
    (TaskSegment.decode
      (GdtState.gdtSetup ⟨0x1000, 0x2000, 0x3000⟩
        ⟨fun _ => 0, 0, fun _ => 0, (0, 0), 0⟩).gdt
      (GdtState.gdtSetup ⟨0x1000, 0x2000, 0x3000⟩
        ⟨fun _ => 0, 0, fun _ => 0, (0, 0), 0⟩).tr).limit 3 0 0x1F0 = true :=
  (ports_of_programs _ _ 0 (by decide)).2 0x1F0 (by decide)

end StarterKernel
