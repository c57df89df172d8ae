import StarterKernel.Paging.VmMapExact

/-!
# Unmapping a page

`vm_unmap` hands the address field of the entry to `pmem_free`, which expects a
physical address.  So on a mapped page the head of the freelist is not the frame
of the page, and the only states in which `vm_unmap` undoes a mapping are those
in which there is no mapping to undo.
-/

namespace StarterKernel

open RadixTree (Slot Walk)

variable {root table address level : Nat} {pool : Set Nat}
variable {machine : Machine} {free : List Nat}

namespace Machine

theorem vmUnmapLoop_descend
    (tableFrame : IsFrame table)
    (present :
      (entryAt machine.memory table (indices address (level + 2))).present = true) :
    machine.vmUnmapLoop address (level + 2) (machine.ptov table) =
      machine.vmUnmapLoop address (level + 1)
        (machine.ptov
          (entryAt machine.memory table (indices address (level + 2))).frame) := by
  have inTable := indices_lt address (level + 1)
  rw [vmUnmapLoop]
  dsimp only
  rw [loadEntry_eq tableFrame inTable, if_pos present, if_neg (by omega)]

theorem vmUnmapLoop_fails
    (tableFrame : IsFrame table)
    (absent :
      (entryAt machine.memory table (indices address (level + 1))).present = false) :
    machine.vmUnmapLoop address (level + 1) (machine.ptov table) =
      (false, machine) := by
  have inTable := indices_lt address level
  rw [vmUnmapLoop]
  dsimp only
  rw [loadEntry_eq tableFrame inTable, if_neg (by simp [absent])]

/-- On a mapped page the head of the freelist is made from the page frame
number. -/
theorem vmUnmapLoop_freelist
    (tableFrame : IsFrame table)
    (present : (entryAt machine.memory table (indices address 1)).present = true) :
    (machine.vmUnmapLoop address 1 (machine.ptov table)).2.freelist =
      machine.ptov
        (entryAt machine.memory table (indices address 1)).address.toNat := by
  have inTable := indices_lt address 0
  rw [vmUnmapLoop]
  dsimp only
  rw [loadEntry_eq tableFrame inTable, if_pos present, if_pos rfl]
  rfl

theorem vmUnmapLoop_hhdmBase (machine : Machine) (address level table : Nat) :
    (machine.vmUnmapLoop address level table).2.hhdmBase = machine.hhdmBase := by
  induction level generalizing table with
  | zero => rfl
  | succ level inductionHypothesis =>
      rw [vmUnmapLoop]
      dsimp only
      split
      · split
        · rfl
        · exact inductionHypothesis _
      · rfl

theorem vmUnmap_hhdmBase (machine : Machine) (root address : Nat) :
    (machine.vmUnmap root address).2.hhdmBase = machine.hhdmBase :=
  vmUnmapLoop_hhdmBase machine address 4 (machine.ptov root)

/-- `vm_unmap` on the lower half fails on a vacant page and otherwise pushes the
page frame number. -/
theorem vmUnmap_spec
    (owned : Owned root pool machine free) (lower : LowerHalf address) :
    (treeWalk machine.memory root (pagePath address) = .fault ∧
        machine.vmUnmap root address = (false, machine)) ∨
      ∃ entry links,
        treeWalk machine.memory root (pagePath address) = .leaf (entry :: links) ∧
        (machine.vmUnmap root address).2.freelist =
          machine.ptov entry.address.toNat := by
  have atRoot : treeWalk machine.memory root (walkPath address 0) =
      .table root [] := rfl
  have walk := owned.walk_loop lower
    (fun level table => machine.vmUnmapLoop address level table)
    (fun _ _ => vmUnmapLoop_descend) (fun _ _ => vmUnmapLoop_fails)
    3 (le_refl 3) atRoot
  rcases walk with ⟨fault, fails⟩ | ⟨table, links, reached, present, leaf, run⟩
  · exact Or.inl ⟨fault, fails⟩
  · refine Or.inr ⟨_, links, leaf, ?_⟩
    rw [← vmUnmapLoop_freelist (isFrame_of_treeWalk owned.rootFrame reached) present]
    exact congrArg (fun result : Bool × Machine => result.2.freelist) run

end Machine

/-- What undoing a mapping means: a mapped page is unmapped, its frame becomes
the head of the freelist, and nothing else changes its translation; on a vacant
page nothing happens. -/
structure UnmapUndoesMap
    (root : Nat) (machine : Machine) (free : List Nat) (address : Nat) : Prop where
  mapped : ∀ frame, PageAt machine.memory root (pagePath address) frame ->
    let result := machine.vmUnmap root address
    result.1 = true ∧
    translation result.2.memory root address = none ∧
    (∀ other, pagePath other ≠ pagePath address ->
      translation result.2.memory root other =
        translation machine.memory root other) ∧
    result.2.FreelistIs (frame :: free) ∧
    result.2.pmemAlloc.1 = frame
  vacant : translation machine.memory root address = none ->
    machine.vmUnmap root address = (false, machine)

/-- A step, or an unmapping of a page that is not mapped. -/
inductive UnmapStep (root : Nat) : Machine -> Machine -> Prop
  | step (machine other : Machine) (step : Step root machine other) :
      UnmapStep root machine other
  | vmUnmap (machine : Machine) (address : Nat) (lower : LowerHalf address)
      (vacant : translation machine.memory root address = none) :
      UnmapStep root machine (machine.vmUnmap root address).2

/-- The page frame number of a page is another address than its frame. -/
theorem ptov_address_ne
    {entry : PtEntry} (nonzero : entry.frame ≠ 0) :
    machine.ptov entry.address.toNat ≠ machine.ptov entry.frame := by
  intro same
  have bound := entry.address.isLt
  have frameEq := entry.frame_eq
  have recovered := congrArg machine.physicalOf same
  rw [Machine.physicalOf_ptov _ (by unfold wordSize; omega),
    Machine.physicalOf_ptov _ (by unfold wordSize; omega)] at recovered
  omega

theorem not_unmapUndoesMap
    (owned : Owned root pool machine free) (lower : LowerHalf address)
    (isMapped : translation machine.memory root address ≠ none) :
    ¬UnmapUndoesMap root machine free address := by
  intro undoes
  rcases Machine.vmUnmap_spec owned lower with ⟨fault, _⟩ | ⟨entry, links, leaf, head⟩
  · exact isMapped ((owned.translation_eq_none_iff lower).mpr fault)
  · have isPage : PageAt machine.memory root (pagePath address) entry.frame :=
      ⟨walkPath_length address 4, entry, links, leaf, rfl⟩
    have nonzero := (owned.page _ _ ((lowerPath_walkPath address 3).mpr lower)
      isPage).2.1
    obtain ⟨_, _, _, freelist, _⟩ := undoes.mapped entry.frame isPage
    have sameBase : (machine.vmUnmap root address).2.hhdmBase = machine.hhdmBase :=
      Machine.vmUnmap_hhdmBase machine root address
    have headIs := freelist.1
    rw [head, Machine.ptov_congr sameBase] at headIs
    exact ptov_address_ne nonzero headIs

/-- In every run whose unmappings hit vacant pages only, the free frames are
page-aligned frames of the pool; and in each of its states `vm_unmap` does what
undoing a mapping means exactly for the pages that are not mapped. -/
theorem vmUnmap_undoes_map_iff
    {root : Nat} {pool : Set Nat} {machine : Machine} {free : List Nat}
    (owned : Owned root pool machine free)
    {later : Machine} (run : Relation.ReflTransGen (UnmapStep root) machine later) :
    ∃ after, Owned root pool later after ∧
      (∀ frame ∈ after, frame % 4096 = 0 ∧ frame ∈ pool) ∧
      ∀ address, LowerHalf address ->
        (UnmapUndoesMap root later after address ↔
          translation later.memory root address = none) := by
  have kept : ∃ after, Owned root pool later after := by
    induction run with
    | refl => exact ⟨free, owned⟩
    | tail _ step inductionHypothesis =>
        obtain ⟨before, ownedBefore⟩ := inductionHypothesis
        cases step with
        | step _ isStep => exact ownedBefore.step isStep
        | vmUnmap address lower vacant =>
            rcases Machine.vmUnmap_spec ownedBefore lower with
              ⟨_, fails⟩ | ⟨_, _, leaf, _⟩
            · rw [fails]
              exact ⟨before, ownedBefore⟩
            · rw [ownedBefore.translation_eq_none_iff lower, leaf] at vacant
              cases vacant
  obtain ⟨after, ownedAfter⟩ := kept
  refine ⟨after, ownedAfter, ?_, ?_⟩
  · intro frame member
    exact ⟨(ownedAfter.isFrame member).aligned, ownedAfter.freeInPool frame member⟩
  · intro address lower
    constructor
    · intro undoes
      by_contra isMapped
      exact not_unmapUndoesMap ownedAfter lower isMapped undoes
    · intro vacant
      have fault := (ownedAfter.translation_eq_none_iff lower).mp vacant
      refine ⟨?_, fun _ => ?_⟩
      · rintro frame ⟨_, entry, links, leaf, _⟩
        rw [fault] at leaf
        cases leaf
      · rcases Machine.vmUnmap_spec ownedAfter lower with
          ⟨_, fails⟩ | ⟨_, _, leaf, _⟩
        · exact fails
        · rw [fault] at leaf
          cases leaf

/-- The page of a freshly booted kernel that `vm_map` has just mapped. -/
theorem vmUnmap_undoes_map_iff_bootMachine :
    ∃ machine free, Owned bootRoot
        (bootPool bootTag (bootMachine (bootContent []))) machine free ∧
      ∃ after, (UnmapUndoesMap bootRoot machine after 0x400000 ↔
        translation machine.memory bootRoot 0x400000 = none) := by
  have lower : LowerHalf 0x400000 := by decide
  obtain ⟨_, machine, free, _, _, _, owned, _⟩ := boot_vmMap [] [] lower
  obtain ⟨after, _, _, iff⟩ :=
    vmUnmap_undoes_map_iff owned Relation.ReflTransGen.refl
  exact ⟨machine, free, owned, after, iff 0x400000 lower⟩

/-- Unmapping the page that `vm_map` has just mapped does not undo the mapping:
the head of the freelist is not the frame of the page. -/
theorem vmUnmap_does_not_undo_map :
    ∃ start machine free, (bootMachine (bootContent [])).memInit (bootHdr []) =
        some start ∧
      start.vmMap bootRoot 0x400000 true true false = (true, machine) ∧
      Owned bootRoot (bootPool bootTag (bootMachine (bootContent []))) machine free ∧
      (∃ frame, PageAt machine.memory bootRoot (pagePath 0x400000) frame ∧
        (machine.vmUnmap bootRoot 0x400000).2.freelist ≠ machine.ptov frame) ∧
      ¬UnmapUndoesMap bootRoot machine free 0x400000 := by
  have lower : LowerHalf 0x400000 := by decide
  obtain ⟨start, machine, free, _, init, succeeds, owned, _, mapped⟩ :=
    boot_vmMap [] [] lower
  have isMapped : translation machine.memory bootRoot 0x400000 ≠ none := by
    obtain ⟨_, _, translates, _⟩ := mapped.translation_eq owned lower
    simp [translates]
  refine ⟨start, machine, free, init, succeeds, owned, ?_,
    not_unmapUndoesMap owned lower isMapped⟩
  rcases Machine.vmUnmap_spec owned lower with ⟨fault, _⟩ | ⟨entry, links, leaf, head⟩
  · exact absurd ((owned.translation_eq_none_iff lower).mpr fault) isMapped
  · have isPage : PageAt machine.memory bootRoot (pagePath 0x400000) entry.frame :=
      ⟨walkPath_length _ 4, entry, links, leaf, rfl⟩
    have nonzero := (owned.page _ _ ((lowerPath_walkPath _ 3).mpr lower) isPage).2.1
    refine ⟨entry.frame, isPage, ?_⟩
    rw [head]
    exact ptov_address_ne nonzero

end StarterKernel
