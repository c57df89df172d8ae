import StarterKernel.Paging.MemInit

/-!
# `vm_map` is exact

In every reachable state `vm_map` succeeds exactly when the page is vacant and
the freelist holds enough frames, maps a zeroed frame with exactly the requested
permissions, and changes no other page.
-/

namespace StarterKernel

open RadixTree (Slot Walk)

variable {root address : Nat} {pool : Set Nat} {machine : Machine}
variable {free : List Nat}

/-- The frames `vm_map` needs: the page and the missing intermediate tables. -/
def framesNeeded (memory : Nat -> UInt8) (root address : Nat) : Nat :=
  missingTables memory root address 3 + 1

theorem missingTables_le (memory : Nat -> UInt8) (root address level : Nat) :
    missingTables memory root address level ≤ level := by
  induction level with
  | zero => exact le_refl 0
  | succ level inductionHypothesis =>
      rw [missingTables]
      split <;> omega

theorem framesNeeded_bounds (memory : Nat -> UInt8) (root address : Nat) :
    1 ≤ framesNeeded memory root address ∧ framesNeeded memory root address ≤ 4 := by
  have := missingTables_le memory root address 3
  unfold framesNeeded
  omega

/-- An address of the lower half does not translate when its walk faults. -/
theorem Owned.translation_eq_none_iff
    (owned : Owned root pool machine free) (lower : LowerHalf address) :
    translation machine.memory root address = none ↔
      treeWalk machine.memory root (pagePath address) = .fault := by
  constructor
  · intro untranslated
    cases walk : treeWalk machine.memory root (pagePath address) with
    | fault => rfl
    | leaf entries =>
        obtain ⟨_, _, _, _, _, translates, _⟩ := owned.leaf_of_page lower walk
        rw [untranslated] at translates
        cases translates
    | table frame entries =>
        have tooDeep := length_le_of_tableAt (tableAt_of_treeWalk walk)
        rw [walkPath_length] at tooDeep
        omega
  · intro fault
    rw [translation_eq, fault]
    rfl

/-- Pages other than the one mapped translate as before. -/
theorem MapFootprint.translation_eq {after : Machine} {taken : List Nat}
    (footprint : MapFootprint root address machine after taken)
    {other : Nat} (different : pagePath other ≠ pagePath address) :
    translation after.memory root other = translation machine.memory root other := by
  rw [StarterKernel.translation_eq, StarterKernel.translation_eq,
    footprint.elsewhere _ (walkPath_length other 4) different]

/-- The pages of the lower half keep their contents. -/
theorem MapFootprint.page_contents {after : Machine} {taken : List Nat}
    (footprint : MapFootprint root address machine after taken)
    (owned : Owned root pool machine free) (fromFree : ∀ frame ∈ taken, frame ∈ free)
    {path : List Nat} {frame : Nat} (lower : LowerPath path)
    (isPage : PageAt machine.memory root path frame) :
    AgreeOn machine.memory after.memory frame := by
  obtain ⟨_, _, notFree, notTable⟩ := owned.page path frame lower isPage
  exact footprint.contents frame (fun member => notFree (fromFree frame member))
    fun depth => notTable (walkPath address depth)

/-- A mapped page translates to its frame with the requested permissions. -/
theorem Mapped.translation_eq
    {usable writable executable : Bool} {after : Machine} {taken rest : List Nat}
    {level : Nat}
    (mapped : Mapped root address usable writable executable machine after taken
      level)
    (kept : Owned root pool after rest) (lower : LowerHalf address) :
    ∃ frame ∈ taken,
      translation after.memory root address =
        some
          { physical := frame + address % 4096
            user := usable
            writable := writable
            noExecute := !executable } ∧
      ∀ offset < 4096, after.memory (frame + offset) = 0 := by
  obtain ⟨entry, links, leaf, _, fromTaken, zeroed, rfl, rfl, noExecute⟩ :=
    mapped.page
  obtain ⟨_, _, same, _, _, translates, _⟩ := kept.leaf_of_page lower leaf
  obtain ⟨rfl, rfl⟩ := List.cons.inj same
  refine ⟨entry.frame, fromTaken, ?_, zeroed⟩
  rw [translates, pageTranslation, noExecute]

/-- On a vacant page `vm_map` succeeds if there are enough frames. -/
theorem Owned.vmMap_succeeds
    (usable writable executable : Bool)
    (owned : Owned root pool machine free) (lower : LowerHalf address)
    (vacant : treeWalk machine.memory root (pagePath address) = .fault)
    (noZero : 0 ∉ free)
    (enough : framesNeeded machine.memory root address ≤ free.length) :
    ∃ after taken rest,
      machine.vmMap root address usable writable executable = (true, after) ∧
      free = taken ++ rest ∧ Owned root pool after rest ∧
      MapFootprint root address machine after taken ∧
      Mapped root address usable writable executable machine after taken 3 := by
  obtain ⟨taken, rest, split, kept, footprint, mapped, refused⟩ :=
    Machine.vmMap_spec usable writable executable owned lower
  have succeeds :
      (machine.vmMap root address usable writable executable).1 = true := by
    by_contra failed
    rcases (refused (by simpa using failed)).reason with isMapped | hasZero | tooFew
    · exact isMapped vacant
    · exact noZero hasZero
    · unfold framesNeeded at enough
      omega
  exact ⟨_, taken, rest, Prod.ext succeeds rfl, split, kept, footprint,
    mapped succeeds⟩

/-- `vm_map` in every state reachable from `mem_init`. -/
theorem vmMap_exact
    {hdr : Stivale2Struct} {tag : Nat} {machine start later : Machine}
    (handover : Handover hdr tag machine)
    (init : machine.memInit hdr = some start)
    (run : Run machine.cr3 start later) :
    ∃ free : List Nat, later.FreelistIs free ∧
      (∀ frame ∈ free, frame ∈ bootPool tag machine) ∧ (0 ∉ free ->
      ∀ address, LowerHalf address -> ∀ usable writable executable : Bool,
        let needed := framesNeeded later.memory machine.cr3 address
        let result := later.vmMap machine.cr3 address usable writable executable
        (1 ≤ needed ∧ needed ≤ 4) ∧
        (result.1 = true ↔
          translation later.memory machine.cr3 address = none ∧
            needed ≤ free.length) ∧
        (result.1 = true ->
          result.2.FreelistIs (free.drop needed) ∧
          ∃ frame ∈ free.take needed,
            translation result.2.memory machine.cr3 address =
              some
                { physical := frame + address % 4096
                  user := usable
                  writable := writable
                  noExecute := !executable } ∧
            ∀ offset < 4096, result.2.memory (frame + offset) = 0) ∧
        (∀ other, pagePath other ≠ pagePath address ->
          translation result.2.memory machine.cr3 other =
            translation later.memory machine.cr3 other) ∧
        ∀ path frame, LowerPath path ->
          PageAt later.memory machine.cr3 path frame ->
          ∀ offset < 4096,
            result.2.memory (frame + offset) = later.memory (frame + offset)) := by
  obtain ⟨free, owned⟩ := handover.reachable_owned init run
  refine ⟨free, owned.freelist, owned.freeInPool, ?_⟩
  intro noZero address lower usable writable executable needed result
  obtain ⟨taken, rest, split, kept, footprint, mapped, refused⟩ :=
    Machine.vmMap_spec usable writable executable owned lower
  have fromFree : ∀ frame ∈ taken, frame ∈ free := by
    intro frame member
    rw [split]
    exact List.mem_append_left _ member
  refine ⟨framesNeeded_bounds _ _ _, ⟨?_, ?_⟩, ?_, ?_, ?_⟩
  · intro ok
    have isMapped := mapped ok
    have length := congrArg List.length split
    rw [List.length_append, isMapped.count] at length
    refine ⟨(owned.translation_eq_none_iff lower).mpr isMapped.vacant, ?_⟩
    change missingTables later.memory machine.cr3 address 3 + 1 ≤ free.length
    omega
  · rintro ⟨untranslated, enough⟩
    have vacant := (owned.translation_eq_none_iff lower).mp untranslated
    obtain ⟨_, _, _, succeeds, _⟩ := owned.vmMap_succeeds usable writable executable
      lower vacant noZero enough
    exact congrArg Prod.fst succeeds
  · intro ok
    have isMapped := mapped ok
    have count : needed = taken.length := isMapped.count.symm
    rw [split, count, List.drop_left, List.take_left]
    exact ⟨kept.freelist, isMapped.translation_eq kept lower⟩
  · intro other different
    exact footprint.translation_eq different
  · intro path frame lowerPath isPage offset small
    have isFrame : IsFrame frame :=
      (owned.poolFrame frame (owned.page path frame lowerPath isPage).1).toIsFrame
    exact footprint.page_contents owned fromFree lowerPath isPage _
      (frameOf_add_of_lt isFrame small)

/-- Mapping the first page of a user program. -/
theorem vmMap_exact_bootMachine :
    ∃ start free, (bootMachine (bootContent [])).memInit (bootHdr []) = some start ∧
      start.FreelistIs free ∧
      ((start.vmMap bootRoot 0x400000 true true false).1 = true ↔
        translation start.memory bootRoot 0x400000 = none ∧
          framesNeeded start.memory bootRoot 0x400000 ≤ free.length) := by
  have handover := handover_bootMachine [] []
  obtain ⟨start, _, init, _⟩ := handover.memInit_initialized
  obtain ⟨free, freelist, inPool, exact⟩ :=
    vmMap_exact handover init Relation.ReflTransGen.refl
  have noZero : 0 ∉ free := fun member =>
    zero_not_mem_bootPool [] (inPool 0 member)
  obtain ⟨_, succeeds, _⟩ := exact noZero 0x400000 (by decide) true true false
  exact ⟨start, free, init, freelist, succeeds⟩

/-- After boot a page of the lower half can be mapped. -/
theorem boot_vmMap (image : List UInt8) (modules : List Stivale2Module) {address : Nat}
    (lower : LowerHalf address) :
    ∃ start after free taken,
      (bootMachine (bootContent image)).memInit (bootHdr modules) = some start ∧
      start.vmMap bootRoot address true true false = (true, after) ∧
      Owned bootRoot (bootPool bootTag (bootMachine (bootContent image))) after free ∧
      after.cr3 = bootRoot ∧
      Mapped bootRoot address true true false start after taken 3 := by
  obtain ⟨start, free, init, initialized, noZero, many⟩ := boot_initialized image modules
  have owned : Owned bootRoot (bootPool bootTag (bootMachine (bootContent image))) start
      free := initialized.owned
  have vacant : treeWalk start.memory bootRoot (pagePath address) = .fault :=
    initialized.lower _ ((lowerPath_walkPath address 3).mpr lower)
  have bounds := framesNeeded_bounds start.memory bootRoot address
  obtain ⟨after, taken, rest, succeeds, _, kept, footprint, mapped⟩ :=
    owned.vmMap_succeeds true true false lower vacant noZero (by omega)
  exact ⟨start, after, rest, taken, init, succeeds, kept,
    footprint.sameCr3.trans initialized.sameCr3, mapped⟩

end StarterKernel
