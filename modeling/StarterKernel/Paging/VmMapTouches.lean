import StarterKernel.Paging.WellFormed

/-!
# What `vm_map` touches in any half

Whatever the address, a run of `vm_map` changes walks in the level 4 slot of the address
only, and memory only in page tables and in frames of the freelist.
-/

namespace StarterKernel

open RadixTree (Slot Walk)

/-- What a run of `vm_map` may change, and that a page it mapped is mapped. -/
structure MapTouches
    (root address : Nat) (machine : Machine) (free : List Nat)
    (result : Bool × Machine) : Prop where
  sameCr3 : result.2.cr3 = machine.cr3
  otherSlots : ∀ path, ¬walkPath address 1 <:+ path ->
    treeWalk result.2.memory root path = treeWalk machine.memory root path
  contents : ∀ frame, frame ∉ free ->
    (∀ path, tableAt machine.memory root path ≠ some frame) ->
    AgreeOn machine.memory result.2.memory frame
  page : result.1 = true -> translation result.2.memory root address ≠ none

variable {root table fresh level address : Nat} {machine : Machine}
variable {free rest : List Nat} {entries : List PtEntry}

namespace WellFormed

/-- Memory outside the table and the fresh frame stays. -/
theorem installed_contents (wellFormed : WellFormed root machine (fresh :: rest))
    (usable writable executable : Bool) {index frame : Nat} {path : List Nat}
    (reached : treeWalk machine.memory root path = .table table entries)
    (inTable : index < 512) (notFree : frame ∉ fresh :: rest)
    (notTable : ∀ path, tableAt machine.memory root path ≠ some frame) :
    AgreeOn machine.memory
      (machine.installed table index fresh usable writable executable).memory frame := by
  apply agreeOn_installFrame (isFrame_of_treeWalk wellFormed.rootFrame reached) inTable
    (wellFormed.isFrame (by simp))
  · rintro rfl
    exact notTable path (tableAt_of_treeWalk reached)
  · rintro rfl
    exact notFree (by simp)

/-- The walk of `vm_map` from the table at `level` on. -/
theorem vmMapLoop_touches (usable writable executable : Bool) (level : Nat)
    (bound : level ≤ 3) (wellFormed : WellFormed root machine free)
    (small : SmallWalk machine.memory root address)
    (reached : treeWalk machine.memory root (walkPath address (3 - level)) =
      .table table entries) :
    MapTouches root address machine free
      (machine.vmMapLoop address usable writable executable (level + 1)
        (machine.ptov table)) := by
  have nothing {machine after : Machine} {free : List Nat} (sameCr3 : after.cr3 = machine.cr3)
      (sameMemory : after.memory = machine.memory) :
      MapTouches root address machine free (false, after) := by
    refine ⟨sameCr3, ?_, ?_, nofun⟩
    · rw [sameMemory]
      exact fun _ _ => rfl
    · rw [sameMemory]
      exact fun _ _ _ => AgreeOn.refl _ _
  refine vmMapLoop_induction
    (motive := fun _ machine free => MapTouches root address machine free)
    (fun _ _ _ => nothing rfl rfl) (fun _ _ _ _ => nothing rfl rfl)
    (fun _ _ _ _ => nothing rfl rfl) ?page (fun _ _ run => run) ?link level bound
    wellFormed small reached
  case page =>
    intro machine fresh rest table entries wellFormed nonzero reached vacant
    have inTable := indices_lt address 0
    have denotes : classify (walkPath address 3).length
        (mappedEntry (entryAt machine.memory table (indices address 1)) fresh
          usable writable executable) = .leaf :=
      classify_of_leaf rfl (Or.inl (walkPath_length address 3).ge)
    obtain ⟨slotWalk, elsewhere⟩ := treeWalk_installLeaf wellFormed.rootFrame
      wellFormed.tree reached inTable (wellFormed.isFrame (by simp))
      wellFormed.fresh_notTable denotes
    refine ⟨rfl, fun path outside => elsewhere path fun deeper => ?_,
      fun frame notFree notTable => wellFormed.installed_contents usable writable
        executable reached inTable notFree notTable, fun _ => ?_⟩
    · exact outside ((walkPath_suffix address (show 1 ≤ 4 by omega)).trans deeper)
    · have leaf : treeWalk (machine.installed table (indices address 1) fresh
          usable writable executable).memory root (pagePath address) = .leaf _ := slotWalk
      rw [ne_eq, translation_eq, leaf]
      nofun
  case link =>
    intro level machine fresh rest table entries result bound wellFormed small nonzero
      reached vacant run
    obtain ⟨linking, _, _, elsewhere⟩ :=
      wellFormed.installTable small bound reached vacant
    refine ⟨run.sameCr3, fun path outside => ?_, fun frame notFree notTable => ?_, run.page⟩
    · refine (run.otherSlots path outside).trans (elsewhere path ?_)
      rintro rfl
      exact outside (walkPath_suffix address (by omega))
    · refine (wellFormed.installed_contents true true true reached
        (indices_lt address (level + 1)) notFree notTable).trans
        (run.contents frame (fun member => notFree (by simp [member])) ?_)
      intro path after
      rcases linking.newTables path frame after with before | isFresh
      · exact notTable path before
      · exact notFree (List.mem_singleton.mp isFresh ▸ by simp)

/-- A run of `vm_map`. -/
theorem vmMap_touches (usable writable executable : Bool)
    (wellFormed : WellFormed root machine free)
    (small : SmallWalk machine.memory root address) :
    MapTouches root address machine free
      (machine.vmMap root address usable writable executable) := by
  have atRoot : treeWalk machine.memory root (walkPath address 0) =
      .table root [] := rfl
  exact wellFormed.vmMapLoop_touches usable writable executable 3 (le_refl 3) small atRoot

end WellFormed

end StarterKernel
