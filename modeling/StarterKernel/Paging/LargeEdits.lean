import StarterKernel.Paging.LargePages
import StarterKernel.Paging.WellFormed
import StarterKernel.Paging.Untouched

/-!
# Editing below a large page

Where a large page covers an address, `vm_map`, `vm_unmap` and `vm_protect` go on in the
first frame of the page.  So they keep to the page tables and leave the large page and
the freelist alone only where no large page covers the address, or where the frames
they go on in happen to be page tables, the walk stops there, and `vm_map` finds no
frame to go on with.
-/

namespace StarterKernel

open RadixTree (Slot Walk)

variable {root address depth level table frame : Nat}
variable {machine after : Machine} {free : List Nat}
variable {user writable executable : Bool}

namespace Machine

/-! ## The loops below the root -/

/-- A loop that descends through present entries reaches the frames that are taken for
tables. -/
theorem loop_follows {α : Type} (rootFrame : IsFrame root) (loop : Nat -> Nat -> α)
    (descends : ∀ level table, IsFrame table ->
      (entryAt machine.memory table (indices address (level + 2))).present = true ->
      loop (level + 2) (machine.ptov table) =
        loop (level + 1) (machine.ptov
          (entryAt machine.memory table (indices address (level + 2))).frame))
    (bound : depth ≤ 3) (taken : takenTable machine.memory root address depth = some table) :
    loop 4 (machine.ptov root) = loop (4 - depth) (machine.ptov table) := by
  induction depth generalizing table with
  | zero =>
      obtain rfl : root = table := Option.some.inj taken
      rfl
  | succ depth inductionHypothesis =>
      obtain ⟨parent, parentTaken, present, rfl⟩ := takenTable_succ_some taken
      have above : 4 - depth = (2 - depth) + 2 := by omega
      have below : 4 - (depth + 1) = (2 - depth) + 1 := by omega
      rw [inductionHypothesis (by omega) parentTaken, below]
      rw [above] at present ⊢
      exact descends _ parent (isFrame_of_takenTable rootFrame parentTaken) present

theorem vmMap_follows (rootFrame : IsFrame root) (bound : depth ≤ 3)
    (taken : takenTable machine.memory root address depth = some table) :
    machine.vmMap root address user writable executable =
      machine.vmMapLoop address user writable executable (4 - depth)
        (machine.ptov table) :=
  loop_follows rootFrame
    (fun level pointer => machine.vmMapLoop address user writable executable level pointer)
    (fun _ _ => vmMapLoop_descend user writable executable) bound taken

theorem vmUnmap_follows (rootFrame : IsFrame root) (bound : depth ≤ 3)
    (taken : takenTable machine.memory root address depth = some table) :
    machine.vmUnmap root address =
      machine.vmUnmapLoop address (4 - depth) (machine.ptov table) :=
  loop_follows rootFrame
    (fun level pointer => machine.vmUnmapLoop address level pointer)
    (fun _ _ => vmUnmapLoop_descend) bound taken

theorem vmProtect_follows (rootFrame : IsFrame root) (bound : depth ≤ 3)
    (taken : takenTable machine.memory root address depth = some table) :
    machine.vmProtect root address user writable executable =
      machine.vmProtectLoop address user writable executable (4 - depth)
        (machine.ptov table) :=
  loop_follows rootFrame
    (fun level pointer =>
      machine.vmProtectLoop address user writable executable level pointer)
    (fun _ _ => vmProtectLoop_descend user writable executable) bound taken

/-! ## `vm_map` at an entry that is not present -/

/-- Frames were taken off the freelist, and memory changed in them and in one table. -/
structure TakesFrames
    (machine after : Machine) (table : Nat) (taken rest : List Nat) : Prop where
  list : after.FreelistIs rest
  changes : ∀ position, after.memory position ≠ machine.memory position ->
    frameOf position = table ∨ frameOf position ∈ taken

theorem installed_changes {index fresh : Nat} (tableFrame : IsFrame table)
    (inTable : index < 512) (freshFrame : IsFrame fresh) (position : Nat)
    (changed : (machine.installed table index fresh user writable executable).memory
      position ≠ machine.memory position) :
    frameOf position = table ∨ frameOf position = fresh := by
  by_contra outside
  rw [not_or] at outside
  exact changed (agreeOn_installFrame tableFrame inTable freshFrame outside.1 outside.2
    position rfl)

/-- Installing a frame leaves the freelist behind it alone. -/
theorem installed_freelist {index fresh : Nat} {rest : List Nat}
    (tableFrame : IsFrame table) (inTable : index < 512)
    (list : machine.FreelistIs (fresh :: rest))
    (frames : ∀ frame ∈ fresh :: rest, IsFrame frame) (notFree : table ∉ rest) :
    (machine.installed table index fresh user writable executable).FreelistIs rest := by
  have freshFrame : IsFrame fresh := frames fresh (by simp)
  have freshAbsent : fresh ∉ rest := (List.nodup_cons.mp list.nodup).1
  have popped : machine.popped.FreelistIs rest := (pmemAlloc_cons list freshFrame).2
  have agree : ∀ frame ∈ rest, AgreeOn machine.popped.memory
      (machine.installed table index fresh user writable executable).memory frame := by
    intro frame member
    apply agreeOn_installFrame tableFrame inTable freshFrame
    · rintro rfl
      exact notFree member
    · rintro rfl
      exact freshAbsent member
  exact FreelistIs.congr popped
    (fun frame member => frames frame (List.mem_cons_of_mem _ member)) rfl rfl agree

/-- Without a frame that `vm_map` can use it writes nothing: it takes none, or physical
page 0. -/
theorem vmMapLoop_takes_unusable (tableFrame : IsFrame table) (list : machine.FreelistIs free)
    (frames : ∀ frame ∈ free, IsFrame frame)
    (vacant :
      (entryAt machine.memory table (indices address (level + 1))).present = false)
    (noFrame : free = [] ∨ ∃ rest, free = 0 :: rest) :
    ∃ taken rest, free = taken ++ rest ∧ (free ≠ [] -> taken ≠ []) ∧
      TakesFrames machine
        (machine.vmMapLoop address user writable executable (level + 1)
          (machine.ptov table)).2 table taken rest := by
  rcases noFrame with rfl | ⟨rest, rfl⟩
  · rw [vmMapLoop_exhausted _ _ _ tableFrame list vacant]
    exact ⟨[], [], rfl, fun some => absurd rfl some, list, fun _ changed => absurd rfl changed⟩
  · rw [vmMapLoop_zero _ _ _ tableFrame list vacant]
    exact ⟨[0], rest, rfl, fun _ => List.cons_ne_nil _ _,
      (pmemAlloc_cons list (frames 0 (by simp))).2, fun _ changed => absurd rfl changed⟩

/-- From an entry that is not present on `vm_map` takes frames off the freelist. -/
theorem vmMapLoop_takes (tableFrame : IsFrame table) (list : machine.FreelistIs free)
    (frames : ∀ frame ∈ free, IsFrame frame) (notFree : table ∉ free)
    (vacant :
      (entryAt machine.memory table (indices address (level + 1))).present = false) :
    ∃ taken rest, free = taken ++ rest ∧ (free ≠ [] -> taken ≠ []) ∧
      TakesFrames machine
        (machine.vmMapLoop address user writable executable (level + 1)
          (machine.ptov table)).2 table taken rest := by
  induction level generalizing machine table free with
  | zero =>
      by_cases noFrame : free = [] ∨ ∃ rest, free = 0 :: rest
      · exact vmMapLoop_takes_unusable tableFrame list frames vacant noFrame
      obtain ⟨fresh, rest, rfl, nonzero⟩ := exists_usable_frame noFrame
      have freshFrame : IsFrame fresh := frames fresh (by simp)
      have different : table ≠ fresh := fun same => notFree (by simp [same])
      have inTable := indices_lt address 0
      rw [vmMapLoop_installPage _ _ _ tableFrame list freshFrame nonzero different vacant]
      refine ⟨[fresh], rest, rfl, fun _ => List.cons_ne_nil _ _,
        installed_freelist tableFrame inTable list frames
          (fun member => notFree (List.mem_cons_of_mem _ member)), ?_⟩
      intro position changed
      rw [List.mem_singleton]
      exact installed_changes tableFrame inTable freshFrame position changed
  | succ level inductionHypothesis =>
      by_cases noFrame : free = [] ∨ ∃ rest, free = 0 :: rest
      · exact vmMapLoop_takes_unusable tableFrame list frames vacant noFrame
      obtain ⟨fresh, rest, rfl, nonzero⟩ := exists_usable_frame noFrame
      have freshFrame : IsFrame fresh := frames fresh (by simp)
      have different : table ≠ fresh := fun same => notFree (by simp [same])
      have inTable := indices_lt address (level + 1)
      have freeRest : table ∉ rest :=
        fun member => notFree (List.mem_cons_of_mem _ member)
      have below : (machine.installed table (indices address (level + 2)) fresh true
          true true).FreelistIs rest :=
        installed_freelist tableFrame inTable list frames freeRest
      have vacantBelow : (entryAt (machine.installed table (indices address (level + 2))
          fresh true true true).memory fresh (indices address (level + 1))).present =
            false := by
        rw [installed, entryAt_installFrame_fresh tableFrame inTable freshFrame
          different.symm]
        exact decode_zero_present
      obtain ⟨taken, pending, split, _, took⟩ := inductionHypothesis freshFrame below
        (fun frame member => frames frame (List.mem_cons_of_mem _ member))
        (List.nodup_cons.mp list.nodup).1 vacantBelow
      rw [vmMapLoop_installTable _ _ _ tableFrame list freshFrame nonzero different vacant]
      refine ⟨fresh :: taken, pending, by rw [split, List.cons_append],
        fun _ => List.cons_ne_nil _ _, took.list, ?_⟩
      intro position changed
      by_cases kept : (machine.installed table (indices address (level + 2)) fresh true
          true true).memory position = machine.memory position
      · rw [← kept] at changed
        exact Or.inr (List.mem_cons.mpr (took.changes position changed))
      · exact (installed_changes tableFrame inTable freshFrame position kept).imp_right
          fun same => List.mem_cons.mpr (Or.inl same)

/-- The freelist holds the same frames, and the counter of its pages is the same. -/
structure SameFree (machine after : Machine) (free : List Nat) : Prop where
  list : after.FreelistIs free
  counter : after.freePageCounter = machine.freePageCounter

/-- On a present entry of level 1 `vm_unmap` frees a page, writing its number's eight
bytes, and changes the table. -/
theorem vmUnmapLoop_writes (tableFrame : IsFrame table)
    (present : (entryAt machine.memory table (indices address 1)).present = true) :
    ((machine.vmUnmapLoop address 1 (machine.ptov table)).2.freePageCounter =
        machine.freePageCounter + 1) ∧
      ∀ position,
        (machine.vmUnmapLoop address 1 (machine.ptov table)).2.memory position ≠
          machine.memory position ->
        frameOf position = table ∨
          (entryAt machine.memory table (indices address 1)).frame / 4096 ≤ position ∧
            position < (entryAt machine.memory table (indices address 1)).frame / 4096 + 8 := by
  have inTable := indices_lt address 0
  have number : (entryAt machine.memory table (indices address 1)).address.toNat =
      (entryAt machine.memory table (indices address 1)).frame / 4096 := by
    rw [PtEntry.frame_eq]
    omega
  have bound := PtEntry.frame_lt (entryAt machine.memory table (indices address 1))
  rw [vmUnmapLoop]
  dsimp only
  rw [loadEntry_eq tableFrame inTable, if_pos present, if_pos rfl, invalidateTlb_eq, number]
  generalize (entryAt machine.memory table (indices address 1)).frame / 4096 = page at *
  have pointer : machine.ptov table = (machine.pmemFree page).ptov table := rfl
  rw [pointer, modifyEntry_eq tableFrame inTable]
  refine ⟨rfl, ?_⟩
  intro position changed
  by_contra outside
  rw [not_or] at outside
  apply changed
  have freed : (machine.pmemFree page).memory position = machine.memory position := by
    rw [pmemFree_eq_of_lt (by unfold wordSize; omega)]
    exact ByteMemory.store_outside (by omega)
  rw [← freed]
  exact agreeOn_store_entry tableFrame inTable outside.1 position rfl

/-! ## The ends of the three walks -/

section Ends

variable (user writable executable)

/-- Where the walk reaches a page, `vm_map` refuses it and the others edit it. -/
theorem editors_reach {page : Nat} (rootFrame : IsFrame root)
    (taken : takenTable machine.memory root address 4 = some page) :
    ∃ table, takenTable machine.memory root address 3 = some table ∧ IsFrame table ∧
      (entryAt machine.memory table (indices address 1)).present = true ∧
      (entryAt machine.memory table (indices address 1)).frame = page ∧
      machine.vmMap root address user writable executable = (false, machine) ∧
      machine.vmUnmap root address =
        machine.vmUnmapLoop address 1 (machine.ptov table) ∧
      (machine.vmProtect root address user writable executable).2.memory =
        writeEntry machine.memory table (indices address 1)
          (protectedEntry (entryAt machine.memory table (indices address 1)) user
            writable executable) := by
  obtain ⟨table, last, present, frame⟩ := takenTable_succ_some taken
  have tableFrame := isFrame_of_takenTable rootFrame last
  refine ⟨table, last, tableFrame, present, frame, ?_, ?_, ?_⟩
  · rw [vmMap_follows rootFrame (le_refl 3) last]
    exact vmMapLoop_mapped user writable executable tableFrame present
  · exact vmUnmap_follows rootFrame (le_refl 3) last
  · rw [vmProtect_follows rootFrame (le_refl 3) last,
      vmProtectLoop_mapped user writable executable tableFrame present]

/-- Where the walk stops before, `vm_map` goes on from there and the others do nothing. -/
theorem editors_stop (rootFrame : IsFrame root)
    (unreached : takenTable machine.memory root address 4 = none) :
    ∃ level ≤ 3, ∃ table,
      takenTable machine.memory root address (3 - level) = some table ∧ IsFrame table ∧
      (entryAt machine.memory table (indices address (level + 1))).present = false ∧
      machine.vmMap root address user writable executable =
        machine.vmMapLoop address user writable executable (level + 1)
          (machine.ptov table) ∧
      machine.vmUnmap root address = (false, machine) ∧
      machine.vmProtect root address user writable executable = (false, machine) := by
  obtain ⟨depth, bound, table, taken, absent⟩ := takenTable_stops unreached
  have tableFrame := isFrame_of_takenTable rootFrame taken
  have below : 4 - depth = 3 - depth + 1 := by omega
  have above : 3 - (3 - depth) = depth := by omega
  rw [below] at absent
  refine ⟨3 - depth, Nat.sub_le _ _, table, by rw [above]; exact taken, tableFrame, absent,
    ?_, ?_, ?_⟩
  · rw [vmMap_follows rootFrame bound taken, below]
  · rw [vmUnmap_follows rootFrame bound taken, below]
    exact vmUnmapLoop_fails tableFrame absent
  · rw [vmProtect_follows rootFrame bound taken, below]
    exact vmProtectLoop_fails user writable executable tableFrame absent

end Ends

end Machine

/-! ## Keeping to the page tables -/

/-- The frame holds a page table of the tree. -/
def HoldsTable (memory : Nat -> UInt8) (root frame : Nat) : Prop :=
  ∃ path, tableAt memory root path = some frame

/-- All frames that the editors read entries of on the way to an address are page
tables. -/
def ReadsTables (memory : Nat -> UInt8) (root address : Nat) : Prop :=
  ∀ depth < 4, ∀ frame, takenTable memory root address depth = some frame ->
    HoldsTable memory root frame

/-- An editor leaves the freelist and the bytes of a large page alone. -/
structure KeepsLargePage (machine after : Machine) (free : List Nat) (entry : PtEntry)
    (depth : Nat) : Prop where
  free : machine.SameFree after free
  bytes : ∀ position,
    position / 2 ^ (12 + 9 * (4 - depth)) = entry.frame / 2 ^ (12 + 9 * (4 - depth)) ->
    after.memory position = machine.memory position

/-- The editors read and write entries of page tables only, and a large page at the
address stops them.  Besides, `vm_map` writes in the frames it takes from the freelist, and
`pmem_free` writes the eight bytes at what `vm_unmap` passes to it, the number of the frame
of the page. -/
structure StopsAtLargePages (root : Nat) (machine : Machine) (free : List Nat)
    (address : Nat) (user writable executable : Bool) : Prop where
  reads : ReadsTables machine.memory root address
  mapWrites : ∃ taken rest, free = taken ++ rest ∧
    (machine.vmMap root address user writable executable).2.FreelistIs rest ∧
    ∀ position,
      (machine.vmMap root address user writable executable).2.memory position ≠
        machine.memory position ->
      HoldsTable machine.memory root (frameOf position) ∨ frameOf position ∈ taken
  unmapWrites : ∀ position,
    (machine.vmUnmap root address).2.memory position ≠ machine.memory position ->
    HoldsTable machine.memory root (frameOf position) ∨
      ∃ page, takenTable machine.memory root address 4 = some page ∧
        page / 4096 ≤ position ∧ position < page / 4096 + 8
  protectWrites : ∀ position,
    (machine.vmProtect root address user writable executable).2.memory position ≠
      machine.memory position ->
    HoldsTable machine.memory root (frameOf position)
  large : ∀ depth < 4, ∀ entry links,
    treeWalk machine.memory root (walkPath address depth) = .leaf (entry :: links) ->
    (machine.vmMap root address user writable executable).1 = false ∧
      KeepsLargePage machine (machine.vmMap root address user writable executable).2 free
        entry depth ∧
      KeepsLargePage machine (machine.vmUnmap root address).2 free entry depth ∧
      KeepsLargePage machine
        (machine.vmProtect root address user writable executable).2 free entry depth

theorem KeepsLargePage.refl (list : machine.FreelistIs free) (entry : PtEntry) :
    KeepsLargePage machine machine free entry depth where
  free := ⟨list, rfl⟩
  bytes := fun _ _ => rfl

section Writes

variable (user writable executable)

/-- What `vm_map` writes is in page tables where all it reads is. -/
theorem WellFormed.mapWrites (wellFormed : WellFormed root machine free)
    (reads : ReadsTables machine.memory root address) :
    ∃ taken rest, free = taken ++ rest ∧
      (machine.vmMap root address user writable executable).2.FreelistIs rest ∧
      ∀ position,
        (machine.vmMap root address user writable executable).2.memory position ≠
          machine.memory position ->
        HoldsTable machine.memory root (frameOf position) ∨ frameOf position ∈ taken := by
  cases taken : takenTable machine.memory root address 4 with
  | some page =>
      obtain ⟨_, _, _, _, _, mapped, _⟩ :=
        Machine.editors_reach user writable executable wellFormed.rootFrame taken
      rw [mapped]
      exact ⟨[], free, rfl, wellFormed.freelist, fun _ changed => absurd rfl changed⟩
  | none =>
      obtain ⟨level, bound, table, reached, tableFrame, absent, follows, _⟩ :=
        Machine.editors_stop user writable executable wellFormed.rootFrame taken
      obtain ⟨path, isTable⟩ := reads _ (by omega) table reached
      obtain ⟨new, rest, split, _, takes⟩ := Machine.vmMapLoop_takes tableFrame
        wellFormed.freelist (fun frame member => (wellFormed.poolFrame frame member).toIsFrame)
        (wellFormed.notFree path table isTable) absent
      rw [follows]
      refine ⟨new, rest, split, takes.list, fun position changed => ?_⟩
      exact (takes.changes position changed).imp_left fun same =>
        ⟨path, by rw [same]; exact isTable⟩

theorem WellFormed.unmapWrites (wellFormed : WellFormed root machine free)
    (reads : ReadsTables machine.memory root address) (position : Nat)
    (changed : (machine.vmUnmap root address).2.memory position ≠
      machine.memory position) :
    HoldsTable machine.memory root (frameOf position) ∨
      ∃ page, takenTable machine.memory root address 4 = some page ∧
        page / 4096 ≤ position ∧ position < page / 4096 + 8 := by
  cases taken : takenTable machine.memory root address 4 with
  | some page =>
      obtain ⟨table, reached, tableFrame, present, frame, _, follows, _⟩ :=
        Machine.editors_reach true true true wellFormed.rootFrame taken
      rw [follows] at changed
      have writes := (Machine.vmUnmapLoop_writes tableFrame present).2 position changed
      rw [frame] at writes
      refine writes.imp (fun same => ?_) fun inWord => ⟨page, rfl, inWord⟩
      rw [same]
      exact reads 3 (by omega) table reached
  | none =>
      obtain ⟨_, _, _, _, _, _, _, unmapped, _⟩ :=
        Machine.editors_stop true true true wellFormed.rootFrame taken
      rw [unmapped] at changed
      exact absurd rfl changed

theorem WellFormed.protectWrites (wellFormed : WellFormed root machine free)
    (reads : ReadsTables machine.memory root address) (position : Nat)
    (changed : (machine.vmProtect root address user writable executable).2.memory
      position ≠ machine.memory position) :
    HoldsTable machine.memory root (frameOf position) := by
  cases taken : takenTable machine.memory root address 4 with
  | some page =>
      obtain ⟨table, reached, tableFrame, _, _, _, _, written⟩ :=
        Machine.editors_reach user writable executable wellFormed.rootFrame taken
      rw [written] at changed
      by_contra outside
      apply changed
      apply agreeOn_writeEntry tableFrame (indices_lt address 0) _ position rfl
      intro same
      rw [same] at outside
      exact outside (reads 3 (by omega) table reached)
  | none =>
      obtain ⟨_, _, _, _, _, _, _, _, kept⟩ :=
        Machine.editors_stop user writable executable wellFormed.rootFrame taken
      rw [kept] at changed
      exact absurd rfl changed

end Writes

/-- Where the walk stops and there is no frame to go on with, nothing changes. -/
theorem editors_idle (user writable executable : Bool) (wellFormed : WellFormed root machine [])
    (unreached : takenTable machine.memory root address 4 = none) :
    machine.vmMap root address user writable executable =
        (false, machine.kprintf "No free space, sorry :(\n") ∧
      machine.vmUnmap root address = (false, machine) ∧
      machine.vmProtect root address user writable executable = (false, machine) := by
  obtain ⟨_, _, _, _, tableFrame, absent, follows, unmapped, kept⟩ :=
    Machine.editors_stop user writable executable wellFormed.rootFrame unreached
  refine ⟨?_, unmapped, kept⟩
  rw [follows]
  exact Machine.vmMapLoop_exhausted user writable executable tableFrame
    wellFormed.freelist absent

/-- A large page at the address that the editors keep was met by chance: the walk
through its bytes stops, and there is no free frame. -/
theorem StopsAtLargePages.stops (wellFormed : WellFormed root machine free)
    (stops : StopsAtLargePages root machine free address user writable executable)
    (large : LargePage machine.memory root address) :
    free = [] ∧ takenTable machine.memory root address 4 = none := by
  obtain ⟨depth, bound, entry, links, leaf⟩ := large
  obtain ⟨_, keptByMap, keptByUnmap, _⟩ := stops.large depth bound entry links leaf
  cases taken : takenTable machine.memory root address 4 with
  | some page =>
      -- `vm_unmap` frees what it takes for the page.
      obtain ⟨_, _, tableFrame, present, _, _, follows, _⟩ :=
        Machine.editors_reach true true true wellFormed.rootFrame taken
      have counted := keptByUnmap.free.counter
      rw [follows, (Machine.vmUnmapLoop_writes tableFrame present).1] at counted
      exact absurd (Int32.add_eq_left.mp counted) (by decide)
  | none =>
      refine ⟨?_, rfl⟩
      by_contra some
      -- `vm_map` allocates a frame for what it takes for a missing table.
      obtain ⟨level, below, table, reached, tableFrame, absent, follows, _⟩ :=
        Machine.editors_stop user writable executable wellFormed.rootFrame taken
      obtain ⟨path, isTable⟩ := stops.reads _ (by omega) table reached
      obtain ⟨new, rest, split, allocates, takes⟩ := Machine.vmMapLoop_takes tableFrame
        wellFormed.freelist (fun frame member => (wellFormed.poolFrame frame member).toIsFrame)
        (wellFormed.notFree path table isTable) absent
      rw [← follows] at takes
      have sameBase : (machine.vmMap root address user writable executable).2.hhdmBase =
          machine.hhdmBase :=
        Machine.OutsideEditors.vmMap (fun _ _ _ _ _ => rfl)
          machine
      have same : free = rest := keptByMap.free.list.unique takes.list
        (by rw [sameBase]; exact wellFormed.poolFrame)
        (by
          rw [sameBase]
          intro frame member
          exact wellFormed.poolFrame frame (by rw [split]; exact List.mem_append_right new member))
      rw [← same] at split
      exact allocates some (List.self_eq_append_left.mp split)

/-- The page table editors keep to the page tables and are stopped by a large page
exactly where no large page covers the address, or where by chance the frames they go on
in are page tables, the walk through them stops, and the freelist is empty.  The frames
they go on in are those of `takenTable`. -/
theorem editors_stop_at_large_pages_iff {root : Nat} {machine : Machine} {free : List Nat}
    (wellFormed : WellFormed root machine free) (address : Nat)
    (user writable executable : Bool) :
    (StopsAtLargePages root machine free address user writable executable ↔
      ¬LargePage machine.memory root address ∨
        free = [] ∧ takenTable machine.memory root address 4 = none ∧
          ReadsTables machine.memory root address) ∧
    ∀ depth < 4, ∀ table, takenTable machine.memory root address depth = some table ->
      machine.vmMap root address user writable executable =
        machine.vmMapLoop address user writable executable (4 - depth)
          (machine.ptov table) ∧
      machine.vmUnmap root address =
        machine.vmUnmapLoop address (4 - depth) (machine.ptov table) ∧
      machine.vmProtect root address user writable executable =
        machine.vmProtectLoop address user writable executable (4 - depth)
          (machine.ptov table) := by
  have rootFrame := wellFormed.rootFrame
  refine ⟨⟨?_, ?_⟩, ?_⟩
  · intro stops
    by_cases large : LargePage machine.memory root address
    · obtain ⟨empty, unreached⟩ := stops.stops wellFormed large
      exact Or.inr ⟨empty, unreached, stops.reads⟩
    · exact Or.inl large
  · rintro (small | ⟨rfl, unreached, reads⟩)
    · have reads : ReadsTables machine.memory root address :=
        fun depth bound frame taken =>
          ⟨_, tableAt_of_takenTable (by omega) small taken⟩
      exact
        { reads := reads
          mapWrites := wellFormed.mapWrites user writable executable reads
          unmapWrites := wellFormed.unmapWrites reads
          protectWrites := wellFormed.protectWrites user writable executable reads
          large := fun depth bound entry links leaf =>
            absurd ⟨depth, bound, entry, links, leaf⟩ small }
    · obtain ⟨mapped, unmapped, kept⟩ :=
        editors_idle user writable executable wellFormed unreached
      exact
        { reads := reads
          mapWrites := wellFormed.mapWrites user writable executable reads
          unmapWrites := wellFormed.unmapWrites reads
          protectWrites := wellFormed.protectWrites user writable executable reads
          large := by
            intro depth _ entry links _
            rw [mapped, unmapped, kept]
            exact ⟨rfl, ⟨⟨wellFormed.freelist, rfl⟩, fun _ _ => rfl⟩,
              .refl wellFormed.freelist entry, .refl wellFormed.freelist entry⟩ }
  · intro depth bound table taken
    exact ⟨Machine.vmMap_follows rootFrame (by omega) taken,
      Machine.vmUnmap_follows rootFrame (by omega) taken,
      Machine.vmProtect_follows rootFrame (by omega) taken⟩

/-- After boot no large page is left in the lower half. -/
theorem editors_stop_at_large_pages_bootMachine :
    ∃ start free, (bootMachine (bootContent [])).memInit (bootHdr []) = some start ∧
      StopsAtLargePages bootRoot start free 0x400000 true true false := by
  obtain ⟨start, free, init, initialized, _⟩ := boot_initialized [] []
  refine ⟨start, free, init, ?_⟩
  apply (editors_stop_at_large_pages_iff initialized.owned.wellFormed 0x400000 true true
    false).1.mpr
  left
  rintro ⟨depth, bound, entry, links, leaf⟩
  rcases depth with _ | depth
  · cases leaf
  · rw [initialized.lower _ ((lowerPath_walkPath _ depth).mpr (by decide))] at leaf
    cases leaf

/-- The direct map is made of large pages, and the editors take its first frame for a
page table. -/
theorem editors_enter_direct_map :
    ∃ start free, (bootMachine (bootContent [])).memInit (bootHdr []) = some start ∧
      WellFormed bootRoot start free ∧
      takenTable start.memory bootRoot bootHhdmBase 2 = some 0 ∧
      ¬HoldsTable start.memory bootRoot 0 ∧
      ¬StopsAtLargePages bootRoot start free bootHhdmBase true true false := by
  obtain ⟨start, free, init, initialized, _⟩ := boot_initialized [] []
  have wellFormed := initialized.owned.wellFormed
  have upper : ∀ path, ¬LowerPath path -> treeWalk start.memory bootRoot path =
      treeWalk (bootMemory (bootContent [])) bootRoot path := initialized.upper
  obtain ⟨top, direct⟩ := treeWalk_bootMemory_upper (bootContent [])
  have topWalk := (upper [256] (by simp [LowerPath])).trans top
  have directWalk := (upper [0, 256] (by simp [LowerPath])).trans direct
  have onWay : walkPath bootHhdmBase 2 = [0, 256] := by decide
  have taken : takenTable start.memory bootRoot bootHhdmBase 2 = some 0 := by
    have leaf : treeWalk start.memory bootRoot (walkPath bootHhdmBase (1 + 1)) =
        .leaf [bootEntry 0 true, bootEntry bootUpperTable false] := by
      rw [onWay]
      exact directWalk
    obtain ⟨table, reached, same, present, _⟩ := takenTable_of_leaf (by omega) leaf (by
      intro entries leaf
      rw [show walkPath bootHhdmBase 1 = [256] by decide, topWalk] at leaf
      cases leaf)
    rw [takenTable_succ (by rw [same]; exact present) reached, same]
    rfl
  have noTable : ¬HoldsTable start.memory bootRoot 0 := by
    rintro ⟨path, isTable⟩
    by_cases lower : LowerPath path
    · obtain ⟨entries, reached⟩ := RadixTree.tableAt_eq_some.mp isTable
      have fault : treeWalk start.memory bootRoot path = .fault :=
        initialized.lower path lower
      cases fault.symm.trans reached
    · rw [tableAt_congr (upper path lower)] at isTable
      rcases mem_of_tableAt_bootMemory isTable with ⟨same, _⟩ | ⟨same, _⟩ | ⟨same, _⟩ <;>
        cases same
  refine ⟨start, free, init, wellFormed, taken, noTable, ?_⟩
  intro stops
  exact noTable (stops.reads 2 (by omega) 0 taken)

end StarterKernel
