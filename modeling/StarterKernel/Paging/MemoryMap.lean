import StarterKernel.Paging.Allocator
import StarterKernel.Paging.BootTables

/-!
# The memory map

The loops of `mem_init` put the pages of the usable entries on the freelist.  They
write into these pages only, so they keep reading the same memory map.
-/

namespace StarterKernel

/-- An entry of the memory map. -/
structure MmapEntry where
  base : Nat
  length : Nat
  type : Nat

/-- The pages of a range of physical memory. -/
def rangeFrames (base count : Nat) : List Nat :=
  (List.range count).map fun page => base + 4096 * page

/-- The pages of an entry of the memory map, if it is usable. -/
def MmapEntry.frames (entry : MmapEntry) : List Nat :=
  if entry.type = 1 then rangeFrames entry.base (entry.length / 4096) else []

/-- What the loops of `mem_init` may change: they push these frames. -/
structure Released (machine after : Machine) (freed : List Nat) : Prop where
  sameBase : after.hhdmBase = machine.hhdmBase
  sameCr3 : after.cr3 = machine.cr3
  sameWriteProtect : after.writeProtect = machine.writeProtect
  /-- The counter goes up in `pmem_free` and in the loop itself. -/
  counter : after.freePageCounter = machine.freePageCounter + .ofNat (2 * freed.length)
  contents : ∀ frame, frame ∉ freed -> AgreeOn machine.memory after.memory frame

variable {machine after other : Machine} {free freed : List Nat}
variable {frame memmap index count offset : Nat}

/-- The pages of the first `count` entries. -/
theorem mem_flatMap_frames {entries : Nat -> MmapEntry} :
    (frame ∈ (List.range count).flatMap fun index => (entries index).frames) ↔
      ∃ index < count, (entries index).type = 1 ∧
        frame ∈ rangeFrames (entries index).base ((entries index).length / 4096) := by
  unfold MmapEntry.frames
  rw [List.mem_flatMap]
  constructor
  · rintro ⟨index, small, member⟩
    split at member
    next usable => exact ⟨index, List.mem_range.mp small, usable, member⟩
    next => cases member
  · rintro ⟨index, small, usable, member⟩
    refine ⟨index, List.mem_range.mpr small, ?_⟩
    rwa [if_pos usable]

theorem Released.refl (machine : Machine) : Released machine machine [] :=
  ⟨rfl, rfl, rfl, (Int32.add_zero _).symm, fun _ _ => AgreeOn.refl _ _⟩

theorem Released.trans {middle : Machine} {later : List Nat}
    (first : Released machine middle freed) (second : Released middle after later) :
    Released machine after (freed ++ later) where
  sameBase := second.sameBase.trans first.sameBase
  sameCr3 := second.sameCr3.trans first.sameCr3
  sameWriteProtect := second.sameWriteProtect.trans first.sameWriteProtect
  counter := by
    rw [second.counter, first.counter, List.length_append, Nat.mul_add, Int32.ofNat_add,
      Int32.add_assoc]
  contents := by
    intro frame absent
    rw [List.mem_append, not_or] at absent
    exact (first.contents frame absent.1).trans (second.contents frame absent.2)

theorem mem_rangeFrames {base count : Nat} :
    frame ∈ rangeFrames base count ↔ ∃ page < count, frame = base + 4096 * page := by
  simp only [rangeFrames, List.mem_map, List.mem_range]
  exact ⟨fun ⟨page, small, same⟩ => ⟨page, small, same.symm⟩,
    fun ⟨page, small, same⟩ => ⟨page, small, same.symm⟩⟩

theorem nodup_rangeFrames (base count : Nat) : (rangeFrames base count).Nodup := by
  apply List.Nodup.map _ List.nodup_range
  intro left right same
  dsimp only at same
  omega

theorem rangeFrames_succ (base count : Nat) :
    rangeFrames base (count + 1) = base :: rangeFrames (base + 4096) count := by
  unfold rangeFrames
  rw [List.range_succ_eq_map, List.map_cons, List.map_map]
  congr 1
  apply List.map_congr_left
  intro page _
  simp only [Function.comp_apply]
  omega

namespace Machine

/-- The inner loop of `mem_init` pushes the pages of a region. -/
theorem memInitRegion_spec
    {regionEnd fuel curr count : Nat}
    (regionEq : regionEnd = curr + 4096 * count) (bound : regionEnd < wordSize)
    (enough : count < fuel)
    (freelist : machine.FreelistIs free)
    (freePages : ∀ frame ∈ free, IsPage frame)
    (pages : ∀ frame ∈ rangeFrames curr count,
      IsPage frame ∧ DirectMapped machine.hhdmBase frame)
    (disjoint : ∀ frame ∈ rangeFrames curr count, frame ∉ free) :
    ∃ after, memInitRegion regionEnd fuel curr machine = some after ∧
      Released machine after (rangeFrames curr count) ∧
      after.FreelistIs ((rangeFrames curr count).reverse ++ free) := by
  induction count generalizing fuel curr machine free with
  | zero =>
      obtain ⟨fuel, rfl⟩ := Nat.exists_eq_succ_of_ne_zero (show fuel ≠ 0 by omega)
      refine ⟨machine, ?_, Released.refl machine, freelist⟩
      rw [memInitRegion, if_neg (by omega)]
  | succ count inductionHypothesis =>
      obtain ⟨fuel, rfl⟩ := Nat.exists_eq_succ_of_ne_zero (show fuel ≠ 0 by omega)
      have nextAddress : (curr + 0x1000) % wordSize = curr + 4096 :=
        Nat.mod_eq_of_lt (by omega)
      rw [rangeFrames_succ] at pages disjoint ⊢
      simp only [List.mem_cons, forall_eq_or_imp] at pages disjoint
      let next : Machine :=
        { machine.pmemFree curr with
          freePageCounter := (machine.pmemFree curr).freePageCounter + 1 }
      have nextList : next.FreelistIs (curr :: free) :=
        freelist.pmemFree_page freePages pages.1.1 pages.1.2 disjoint.1
      have released : Released machine next [curr] := by
        refine ⟨rfl, rfl, rfl, ?_, ?_⟩
        · exact Int32.add_assoc _ 1 1
        · intro frame absent
          exact agreeOn_pmemFree_page pages.1.1 (by simpa using absent)
      have currAbsent : curr ∉ rangeFrames (curr + 4096) count := by
        intro member
        obtain ⟨page, _, same⟩ := mem_rangeFrames.mp member
        omega
      have nextPages : ∀ frame ∈ curr :: free, IsPage frame := by
        simp only [List.mem_cons, forall_eq_or_imp]
        exact ⟨pages.1.1, freePages⟩
      have nextDisjoint : ∀ frame ∈ rangeFrames (curr + 4096) count,
          frame ∉ curr :: free := by
        intro frame member
        rw [List.mem_cons, not_or]
        exact ⟨fun same => currAbsent (same ▸ member), disjoint.2 frame member⟩
      obtain ⟨after, run, later, list⟩ := inductionHypothesis
        (show regionEnd = curr + 4096 + 4096 * count by omega)
        (Nat.lt_of_succ_lt_succ enough) nextList nextPages pages.2 nextDisjoint
      refine ⟨after, ?_, released.trans later, ?_⟩
      · rw [memInitRegion, if_pos (by omega)]
        dsimp only
        rw [nextAddress]
        exact run
      · rw [List.reverse_cons, List.append_assoc]
        exact list

end Machine

/-! ## The entries -/

namespace Machine

/-- The number of entries of the memory map at a pointer. -/
def mmapCount (machine : Machine) (memmap : Nat) : Nat :=
  machine.loadDirect (memmap + 16) 8

/-- An entry of the memory map at a pointer. -/
def mmapAt (machine : Machine) (memmap index : Nat) : MmapEntry where
  base := machine.loadDirect (memmap + (24 + 24 * index)) 8
  length := machine.loadDirect (memmap + (24 + 24 * index + 8)) 8
  type := machine.loadDirect (memmap + (24 + 24 * index + 16)) 4

/-- The pages of the usable ones of the first `count` entries. -/
def usablePages (machine : Machine) (memmap count : Nat) : List Nat :=
  (List.range count).flatMap fun index => (machine.mmapAt memmap index).frames

theorem usablePages_succ :
    machine.usablePages memmap (count + 1) =
      machine.usablePages memmap count ++ (machine.mmapAt memmap count).frames := by
  unfold usablePages
  rw [List.range_succ, List.flatMap_append, List.flatMap_singleton]

theorem mem_usablePages :
    frame ∈ machine.usablePages memmap count ↔
      ∃ index < count, (machine.mmapAt memmap index).type = 1 ∧
        frame ∈ rangeFrames (machine.mmapAt memmap index).base
          ((machine.mmapAt memmap index).length / 4096) :=
  mem_flatMap_frames

end Machine

/-- What the loops rely on: the usable entries are whole pages, pairwise disjoint,
without page 0, without the memory map itself, and behind the direct map. -/
structure UsableMap (machine : Machine) (memmap : Nat) : Prop where
  aligned : ∀ index < machine.mmapCount memmap,
    (machine.mmapAt memmap index).type = 1 ->
    (machine.mmapAt memmap index).base % 4096 = 0 ∧
      (machine.mmapAt memmap index).length % 4096 = 0
  word : ∀ index < machine.mmapCount memmap,
    (machine.mmapAt memmap index).type = 1 ->
    (machine.mmapAt memmap index).base + (machine.mmapAt memmap index).length < wordSize
  noWrap : ∀ page ∈ machine.usablePages memmap (machine.mmapCount memmap),
    machine.hhdmBase + page < wordSize
  disjoint : ∀ left < machine.mmapCount memmap, ∀ right < machine.mmapCount memmap,
    left ≠ right -> ∀ page ∈ (machine.mmapAt memmap left).frames,
      page ∉ (machine.mmapAt memmap right).frames
  nonzero : 0 ∉ machine.usablePages memmap (machine.mmapCount memmap)
  reserved : ∀ offset < 24 + 24 * machine.mmapCount memmap,
    frameOf (machine.physicalOf (memmap + offset)) ∉
      machine.usablePages memmap (machine.mmapCount memmap)

namespace UsableMap

theorem mem_of_le {left right : Nat} (le : left ≤ right)
    (member : frame ∈ machine.usablePages memmap left) :
    frame ∈ machine.usablePages memmap right := by
  obtain ⟨index, small, rest⟩ := Machine.mem_usablePages.mp member
  exact Machine.mem_usablePages.mpr ⟨index, by omega, rest⟩

/-- Usable pages can be put on the freelist. -/
theorem page (usableMap : UsableMap machine memmap)
    (member : frame ∈ machine.usablePages memmap (machine.mmapCount memmap)) :
    IsPage frame ∧ DirectMapped machine.hhdmBase frame := by
  have noWrap := usableMap.noWrap frame member
  have nonzero : frame ≠ 0 := fun isZero => usableMap.nonzero (isZero ▸ member)
  obtain ⟨index, small, usable, inRange⟩ := Machine.mem_usablePages.mp member
  obtain ⟨page, inRegion, rfl⟩ := mem_rangeFrames.mp inRange
  have aligned := usableMap.aligned index small usable
  have word := usableMap.word index small usable
  exact ⟨⟨by omega, by omega⟩, ⟨by omega, noWrap⟩⟩

/-- The loops do not change the memory map they read. -/
theorem load_eq (usableMap : UsableMap machine memmap)
    (released : Released machine other freed)
    (subset : ∀ frame ∈ freed,
      frame ∈ machine.usablePages memmap (machine.mmapCount memmap))
    (inside : offset + count ≤ 24 + 24 * machine.mmapCount memmap) :
    other.loadDirect (memmap + offset) count =
      machine.loadDirect (memmap + offset) count := by
  have samePhysical : other.physicalOf (memmap + offset) =
      machine.physicalOf (memmap + offset) := by
    rw [Machine.physicalOf, Machine.physicalOf, released.sameBase]
  rw [Machine.loadDirect, Machine.loadDirect, samePhysical]
  apply ByteMemory.load_congr
  intro step small
  refine released.contents (frameOf (machine.physicalOf (memmap + offset) + step)) ?_ _
    rfl
  intro member
  have usable := subset _ member
  -- An address of a usable page is a word, so it is the address of a later byte.
  have below : frameOf (machine.physicalOf (memmap + offset) + step) < wordSize :=
    (usableMap.page usable).1.word
  have later : machine.physicalOf (memmap + (offset + step)) =
      machine.physicalOf (memmap + offset) + step := by
    unfold frameOf Machine.physicalOf wordSize at below
    unfold Machine.physicalOf wordSize
    omega
  apply usableMap.reserved (offset + step) (by omega)
  rwa [later]

/-- One entry of the memory map is put on the freelist. -/
theorem memInitEntry_spec
    (usableMap : UsableMap machine memmap)
    (small : index < machine.mmapCount memmap)
    (released : Released machine other (machine.usablePages memmap index))
    (freelist : other.FreelistIs (machine.usablePages memmap index).reverse) :
    ∃ after, other.memInitEntry memmap index = some after ∧
      Released machine after (machine.usablePages memmap (index + 1)) ∧
      after.FreelistIs (machine.usablePages memmap (index + 1)).reverse := by
  have subset : ∀ frame ∈ machine.usablePages memmap index,
      frame ∈ machine.usablePages memmap (machine.mmapCount memmap) :=
    fun frame => mem_of_le small.le
  have base := usableMap.load_eq released subset
    (show 24 + 24 * index + 8 ≤ _ by omega)
  have length := usableMap.load_eq released subset
    (show 24 + 24 * index + 8 + 8 ≤ _ by omega)
  have type := usableMap.load_eq released subset
    (show 24 + 24 * index + 16 + 4 ≤ _ by omega)
  simp only [← Nat.add_assoc] at base length type
  rw [Machine.memInitEntry, base, length, type, Machine.usablePages_succ,
    MmapEntry.frames]
  simp only [Nat.add_assoc memmap]
  change ∃ after, (if (machine.mmapAt memmap index).type = 1 then
    other.memInitRegion
      (((machine.mmapAt memmap index).base +
        (machine.mmapAt memmap index).length) % wordSize) wordSize
      (machine.mmapAt memmap index).base else some other) = some after ∧ _
  split
  next usable =>
    have aligned := usableMap.aligned index small usable
    have word := usableMap.word index small usable
    have inUsable : ∀ frame ∈ rangeFrames (machine.mmapAt memmap index).base
        ((machine.mmapAt memmap index).length / 4096),
        frame ∈ machine.usablePages memmap (machine.mmapCount memmap) :=
      fun frame member =>
        Machine.mem_usablePages.mpr ⟨index, small, usable, member⟩
    rw [Nat.mod_eq_of_lt word]
    obtain ⟨after, run, later, list⟩ := Machine.memInitRegion_spec
      (show (machine.mmapAt memmap index).base +
          (machine.mmapAt memmap index).length =
        (machine.mmapAt memmap index).base +
          4096 * ((machine.mmapAt memmap index).length / 4096) by omega)
      word (show _ < wordSize by omega)
      freelist
      (fun frame member =>
        (usableMap.page (subset frame (List.mem_reverse.mp member))).1)
      (fun frame member => released.sameBase ▸ usableMap.page (inUsable frame member))
      (by
        intro frame member before
        obtain ⟨earlier, earlierSmall, earlierUsable, inEarlier⟩ :=
          Machine.mem_usablePages.mp (List.mem_reverse.mp before)
        refine usableMap.disjoint index small earlier (by omega) (by omega) frame ?_ ?_
        · rwa [MmapEntry.frames, if_pos usable]
        · rwa [MmapEntry.frames, if_pos earlierUsable])
    refine ⟨after, run, released.trans later, ?_⟩
    rw [List.reverse_append]
    exact list
  next =>
    rw [List.append_nil]
    exact ⟨other, rfl, released, freelist⟩

/-- The outer loop of `mem_init` puts all usable pages on the freelist. -/
theorem memInitLoop_spec {remaining fuel : Nat}
    (usableMap : UsableMap machine memmap)
    (position : index + remaining = machine.mmapCount memmap)
    (enough : remaining < fuel)
    (released : Released machine other (machine.usablePages memmap index))
    (freelist : other.FreelistIs (machine.usablePages memmap index).reverse) :
    ∃ after, other.memInitLoop memmap fuel index = some after ∧
      Released machine after
        (machine.usablePages memmap (machine.mmapCount memmap)) ∧
      after.FreelistIs
        (machine.usablePages memmap (machine.mmapCount memmap)).reverse := by
  have subset : ∀ frame ∈ machine.usablePages memmap index,
      frame ∈ machine.usablePages memmap (machine.mmapCount memmap) :=
    fun frame => mem_of_le (by omega)
  have count : other.loadDirect (memmap + 16) 8 = machine.mmapCount memmap :=
    usableMap.load_eq released subset (show 16 + 8 ≤ _ by omega)
  induction remaining generalizing other index fuel with
  | zero =>
      obtain ⟨fuel, rfl⟩ := Nat.exists_eq_succ_of_ne_zero (show fuel ≠ 0 by omega)
      obtain rfl : index = machine.mmapCount memmap := by omega
      refine ⟨other, ?_, released, freelist⟩
      rw [Machine.memInitLoop, count, if_neg (by omega)]
  | succ remaining inductionHypothesis =>
      obtain ⟨fuel, rfl⟩ := Nat.exists_eq_succ_of_ne_zero (show fuel ≠ 0 by omega)
      obtain ⟨next, run, nextReleased, nextList⟩ :=
        usableMap.memInitEntry_spec (by omega) released freelist
      have nextSubset : ∀ frame ∈ machine.usablePages memmap (index + 1),
          frame ∈ machine.usablePages memmap (machine.mmapCount memmap) :=
        fun frame => mem_of_le (by omega)
      obtain ⟨after, laterRun, rest⟩ := inductionHypothesis (by omega)
        (Nat.lt_of_succ_lt_succ enough) nextReleased nextList nextSubset
        (usableMap.load_eq nextReleased nextSubset (show 16 + 8 ≤ _ by omega))
      refine ⟨after, ?_, rest⟩
      rw [Machine.memInitLoop, count, if_pos (by omega), run]
      exact laterRun

/-- The loops of `mem_init`, started with an empty freelist. -/
theorem memInitLoop_start
    (usableMap : UsableMap machine memmap) (empty : machine.freelist = 0) :
    ∃ after, machine.memInitLoop memmap wordSize 0 = some after ∧
      Released machine after
        (machine.usablePages memmap (machine.mmapCount memmap)) ∧
      after.FreelistIs
        (machine.usablePages memmap (machine.mmapCount memmap)).reverse :=
  usableMap.memInitLoop_spec (Nat.zero_add _) ByteMemory.load_lt (Released.refl _) empty

end UsableMap

end StarterKernel
