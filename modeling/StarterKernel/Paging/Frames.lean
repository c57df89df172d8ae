import StarterKernel.Paging.Walk

/-!
# Frames and the memory operations on them

A frame is a page-aligned physical address below `2 ^ 52`, which is what the
address field of an entry can hold.  Every operation of the kernel on a page
table or a free page writes inside one frame, so entries of other frames keep
their values.
-/

namespace StarterKernel

/-- A page-aligned physical address that an entry can point to. -/
structure IsFrame (frame : Nat) : Prop where
  aligned : frame % 4096 = 0
  bound : frame < 2 ^ 52

/-- A page-aligned physical address. -/
structure IsPage (page : Nat) : Prop where
  aligned : page % 4096 = 0
  word : page < wordSize

/-- The direct-map pointer of a physical address is not null and does not
wrap. -/
structure DirectMapped (hhdmBase paddr : Nat) : Prop where
  nonNull : 0 < hhdmBase + paddr
  noWrap : hhdmBase + paddr < wordSize

/-- The frame that contains a physical address. -/
def frameOf (position : Nat) : Nat := position / 4096 * 4096

/-- Two memories hold the same bytes in a frame. -/
def AgreeOn (memory other : Nat -> UInt8) (frame : Nat) : Prop :=
  ∀ position, frameOf position = frame -> other position = memory position

variable {memory other : Nat -> UInt8} {root table index frame : Nat}

theorem IsFrame.isPage (isFrame : IsFrame frame) : IsPage frame where
  aligned := isFrame.aligned
  word := Nat.lt_trans isFrame.bound (by decide)

theorem IsPage.frameOf_eq_iff {position : Nat} (isPage : IsPage frame) :
    frameOf position = frame ↔ frame ≤ position ∧ position < frame + 4096 := by
  have aligned := isPage.aligned
  unfold frameOf
  omega

theorem frameOf_eq_iff {position : Nat} (isFrame : IsFrame frame) :
    frameOf position = frame ↔ frame ≤ position ∧ position < frame + 4096 :=
  isFrame.isPage.frameOf_eq_iff

theorem AgreeOn.refl (memory : Nat -> UInt8) (frame : Nat) :
    AgreeOn memory memory frame :=
  fun _ _ => rfl

theorem AgreeOn.trans {last : Nat -> UInt8}
    (first : AgreeOn memory other frame) (second : AgreeOn other last frame) :
    AgreeOn memory last frame :=
  fun position inFrame =>
    (second position inFrame).trans (first position inFrame)

/-- Entries of a table depend on the bytes of its frame only. -/
theorem AgreeOn.entryAt_eq
    (agree : AgreeOn memory other table) (isFrame : IsFrame table) :
    entryAt other table index = entryAt memory table index := by
  unfold entryAt
  split
  next inTable =>
    rw [ByteMemory.load_congr]
    intro offset small
    apply agree
    rw [frameOf_eq_iff isFrame]
    omega
  next => rfl

/-- A store inside one frame leaves every other frame alone. -/
theorem agreeOn_store
    {address count value : Nat}
    (inFrame : ∀ offset < count, frameOf (address + offset) ≠ frame) :
    AgreeOn memory (ByteMemory.store memory address count value) frame := by
  intro position inside
  apply ByteMemory.store_outside
  by_contra overlaps
  apply inFrame (position - address) (by omega)
  rwa [show address + (position - address) = position by omega]

theorem IsPage.frameOf_add_of_lt
    (isPage : IsPage table) {offset : Nat} (small : offset < 4096) :
    frameOf (table + offset) = table := by
  rw [isPage.frameOf_eq_iff]
  omega

theorem frameOf_add_of_lt
    (isFrame : IsFrame table) {offset : Nat} (small : offset < 4096) :
    frameOf (table + offset) = table :=
  isFrame.isPage.frameOf_add_of_lt small

theorem agreeOn_store_entry
    (isFrame : IsFrame table) (inTable : index < 512) {value : Nat}
    (different : frame ≠ table) :
    AgreeOn memory
      (ByteMemory.store memory (table + 8 * index) 8 value) frame := by
  apply agreeOn_store
  intro offset small
  rw [show table + 8 * index + offset = table + (8 * index + offset) by omega,
    frameOf_add_of_lt isFrame (by omega)]
  exact different.symm

theorem agreeOn_fill
    (isFrame : IsFrame table) {byte : UInt8} (different : frame ≠ table) :
    AgreeOn memory (ByteMemory.fill memory table 4096 byte) frame := by
  intro position inside
  apply ByteMemory.fill_outside
  by_contra overlaps
  apply different
  rw [← inside, frameOf_eq_iff isFrame]
  omega

/-- Writing one entry of a table. -/
theorem entryAt_store
    (tableFrame : IsFrame table) (inTable : index < 512)
    (frameFrame : IsFrame frame) (entry : PtEntry) (position : Nat) :
    entryAt (ByteMemory.store memory (table + 8 * index) 8 entry.encode)
        frame position =
      if frame = table ∧ position = index then entry
      else entryAt memory frame position := by
  split
  next same =>
    obtain ⟨rfl, rfl⟩ := same
    have small : entry.encode % 256 ^ 8 = entry.encode :=
      Nat.mod_eq_of_lt entry.encode_lt
    rw [entryAt, if_pos inTable, ByteMemory.load_store, small,
      PtEntry.decode_encode]
  next different =>
    by_cases sameTable : frame = table
    · subst sameTable
      unfold entryAt
      split
      next => rw [ByteMemory.load_store_of_disjoint (by omega)]
      next => rfl
    · exact (agreeOn_store_entry tableFrame inTable sameTable).entryAt_eq
        frameFrame

/-- The entries of a zeroed frame are all zero. -/
theorem entryAt_fill_self :
    entryAt (ByteMemory.fill memory table 4096 0) table index = .decode 0 := by
  unfold entryAt
  split
  next inTable =>
    rw [ByteMemory.load_eq_zero]
    intro offset small
    exact ByteMemory.fill_inside (by omega) (by omega)
  next => rfl

@[simp] theorem decode_zero_present : (PtEntry.decode 0).present = false := rfl

theorem classify_decode_zero (depth : Nat) :
    classify depth (.decode 0) = .absent :=
  classify_of_absent decode_zero_present

/-- Tables are frames. -/
theorem isFrame_of_tableAt {path : List Nat}
    (rootFrame : IsFrame root)
    (reached : tableAt memory root path = some frame) : IsFrame frame := by
  cases path with
  | nil =>
      obtain rfl : root = frame := Option.some.inj reached
      exact rootFrame
  | cons index path =>
      obtain ⟨parent, _, slot⟩ := RadixTree.tableAt_cons.mp reached
      unfold classify at slot
      split at slot
      · cases slot
      · split at slot
        · cases slot
        · cases slot
          exact ⟨PtEntry.frame_mod _, PtEntry.frame_lt _⟩

theorem index_lt_of_classify {depth : Nat}
    (slot : classify depth (entryAt memory table index) = .table frame) :
    index < 512 := by
  by_contra outside
  rw [entryAt, if_neg outside, classify_decode_zero] at slot
  cases slot

namespace Machine

variable {machine : Machine}

/-- Reading an entry through the direct map. -/
theorem loadEntry_eq (isFrame : IsFrame table) (inTable : index < 512) :
    machine.loadEntry (machine.ptov table + 8 * index) =
      entryAt machine.memory table index := by
  have bound := isFrame.bound
  rw [loadEntry, loadDirect, physicalOf_ptov_add _ (by unfold wordSize; omega),
    entryAt, if_pos inTable]

/-- Changing an entry through the direct map. -/
theorem modifyEntry_eq
    (isFrame : IsFrame table) (inTable : index < 512)
    (change : PtEntry -> PtEntry) :
    machine.modifyEntry (machine.ptov table + 8 * index) change =
      { machine with
        memory := ByteMemory.store machine.memory (table + 8 * index) 8
          (change (entryAt machine.memory table index)).encode } := by
  have bound := isFrame.bound
  rw [modifyEntry, loadEntry_eq isFrame inTable, storeDirect,
    physicalOf_ptov_add _ (by unfold wordSize; omega)]

/-- Two changes of the same entry are one change. -/
theorem modifyEntry_modifyEntry
    (isFrame : IsFrame table) (inTable : index < 512)
    (first second : PtEntry -> PtEntry) :
    (machine.modifyEntry (machine.ptov table + 8 * index) first).modifyEntry
        (machine.ptov table + 8 * index) second =
      machine.modifyEntry (machine.ptov table + 8 * index)
        fun entry => second (first entry) := by
  let changed := machine.modifyEntry (machine.ptov table + 8 * index) first
  have pointer : machine.ptov table = changed.ptov table := rfl
  change changed.modifyEntry (machine.ptov table + 8 * index) second = _
  rw [pointer, modifyEntry_eq isFrame inTable, ← pointer]
  simp only [changed, modifyEntry_eq isFrame inTable,
    entryAt_store isFrame inTable isFrame, true_and, if_true,
    ByteMemory.store_store]

/-- `memset` over a page through the direct map. -/
theorem memset_eq {count : Nat} (c : Nat)
    (bound : frame + count ≤ wordSize) :
    machine.memset (machine.ptov frame) c count =
      { machine with
        memory := ByteMemory.fill machine.memory frame count (UInt8.ofNat c) } := by
  induction count with
  | zero =>
      have unchanged :
          ByteMemory.fill machine.memory frame 0 (UInt8.ofNat c) =
            machine.memory := by
        funext position
        exact ByteMemory.fill_outside (by omega)
      rw [unchanged]
      rfl
  | succ count inductionHypothesis =>
      have previous := inductionHypothesis (by omega)
      have address := physicalOf_ptov_add machine
        (show frame + count < wordSize by omega)
      have extended :
          ByteMemory.store
              (ByteMemory.fill machine.memory frame count (UInt8.ofNat c))
              (frame + count) 1 c =
            ByteMemory.fill machine.memory frame (count + 1) (UInt8.ofNat c) := by
        funext position
        unfold ByteMemory.store ByteMemory.fill
        by_cases last : position = frame + count
        · simp [last]
        · rw [if_neg (by omega)]
          congr 1
          simp only [eq_iff_iff]
          omega
      unfold memset at previous ⊢
      rw [List.range_succ, List.foldl_append, previous, ← extended, ← address]
      rfl

end Machine
end StarterKernel
