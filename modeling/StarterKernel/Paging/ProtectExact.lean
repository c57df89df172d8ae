import StarterKernel.Paging.VmMapExact
import StarterKernel.Paging.WellFormed

/-!
# `vm_protect` is exact

`vm_protect` rewrites the permission bits of one leaf entry, and after `vm_map` it
leaves what `vm_map` would have left with the last permissions.
-/

namespace StarterKernel

open RadixTree (Slot Walk)

variable {root table index fresh next level address : Nat}
variable {machine after : Machine} {free rest : List Nat}
variable {memory : Nat -> UInt8} {entry other : PtEntry} {entries : List PtEntry}

/-! ## Mapping and then protecting -/

theorem writeEntry_installFrame :
    writeEntry (installFrame memory table index fresh entry) table index other =
      installFrame memory table index fresh other := by
  rw [writeEntry, installFrame, ByteMemory.store_store, installFrame]

theorem protectedEntry_mappedEntry
    (first second third usable writable executable : Bool) :
    protectedEntry (mappedEntry entry fresh first second third) usable writable
      executable = mappedEntry entry fresh usable writable executable := rfl

/-- `vm_protect` at the level 1 table in which `vm_map` has just mapped the page. -/
theorem WellFormed.vmProtectLoop_installed
    (first second third user writable executable : Bool)
    (wellFormed : WellFormed root machine (fresh :: rest))
    (reached : treeWalk machine.memory root (walkPath address 3) =
      .table table entries) :
    (machine.installed table (indices address 1) fresh first second
        third).vmProtectLoop address user writable executable 1 (machine.ptov table) =
      (true, machine.installed table (indices address 1) fresh user writable
        executable) := by
  have inTable := indices_lt address 0
  have tableFrame := isFrame_of_treeWalk wellFormed.rootFrame reached
  have freshFrame : IsFrame fresh := wellFormed.isFrame (by simp)
  let mapped := machine.installed table (indices address 1) fresh first second third
  have written : entryAt mapped.memory table (indices address 1) =
      mappedEntry (entryAt machine.memory table (indices address 1)) fresh first second
        third := by
    simp only [mapped, Machine.installed]
    rw [entryAt_installFrame tableFrame inTable freshFrame tableFrame
      (wellFormed.table_ne_fresh reached), if_pos ⟨rfl, rfl⟩]
  have pointer : machine.ptov table = mapped.ptov table := rfl
  rw [pointer, Machine.vmProtectLoop_mapped _ _ _ tableFrame (by rw [written]; rfl),
    written, protectedEntry_mappedEntry]
  simp only [mapped, Machine.installed, writeEntry_installFrame]

/-- `vm_protect` descends where the tables of the walk are. -/
theorem WellFormed.vmProtectLoop_descend
    (user writable executable : Bool) (wellFormed : WellFormed root after rest)
    (bound : level ≤ 2)
    (tableReached : tableAt after.memory root (walkPath address (2 - level)) = some table)
    (nextReached : tableAt after.memory root (walkPath address (3 - level)) = some next) :
    after.vmProtectLoop address user writable executable (level + 2)
        (after.ptov table) =
      after.vmProtectLoop address user writable executable (level + 1)
        (after.ptov next) := by
  have tableFrame := isFrame_of_tableAt wellFormed.rootFrame tableReached
  obtain ⟨entries, reached⟩ := RadixTree.tableAt_eq_some.mp tableReached
  obtain ⟨links, deeper⟩ := RadixTree.tableAt_eq_some.mp nextReached
  change treeWalk after.memory root (walkPath address (2 - level)) = _ at reached
  change treeWalk after.memory root (walkPath address (3 - level)) = _ at deeper
  rw [walkPath_next address bound, treeWalk_cons, reached] at deeper
  simp only [RadixTree.Walk.step] at deeper
  split at deeper
  next => cases deeper
  next => cases deeper
  next slot =>
    cases deeper
    rw [Machine.vmProtectLoop_descend _ _ _ tableFrame (table_of_classify slot).1,
      (table_of_classify slot).2]

/-- A walk of `vm_map` gets past a vacant entry with a frame of the freelist. -/
theorem WellFormed.fresh_of_succeeds {usable writable executable : Bool}
    (wellFormed : WellFormed root machine free) (tableFrame : IsFrame table)
    (vacant :
      (entryAt machine.memory table (indices address (level + 1))).present = false)
    (succeeds : (machine.vmMapLoop address usable writable executable (level + 1)
      (machine.ptov table)).1 = true) :
    ∃ fresh rest, free = fresh :: rest ∧ fresh ≠ 0 := by
  cases free with
  | nil =>
      rw [Machine.vmMapLoop_exhausted _ _ _ tableFrame wellFormed.freelist
        vacant] at succeeds
      cases succeeds
  | cons fresh rest =>
      refine ⟨fresh, rest, rfl, ?_⟩
      rintro rfl
      rw [Machine.vmMapLoop_zero _ _ _ tableFrame wellFormed.freelist vacant] at succeeds
      cases succeeds

/-- After a walk of `vm_map` that mapped the page, `vm_protect` leaves the page mapped
with the last permissions. -/
theorem WellFormed.vmProtectLoop_vmMapLoop
    (first second third user writable executable : Bool)
    (level : Nat) (bound : level ≤ 3)
    (wellFormed : WellFormed root machine free)
    (small : SmallWalk machine.memory root address)
    (reached : treeWalk machine.memory root (walkPath address (3 - level)) =
      .table table entries)
    (succeeds : (machine.vmMapLoop address first second third (level + 1)
      (machine.ptov table)).1 = true) :
    (machine.vmMapLoop address first second third (level + 1)
        (machine.ptov table)).2.vmProtectLoop address user writable executable
          (level + 1) (machine.ptov table) =
      machine.vmMapLoop address user writable executable (level + 1)
        (machine.ptov table) := by
  induction level generalizing machine free entries table with
  | zero =>
      have tableFrame := isFrame_of_treeWalk wellFormed.rootFrame reached
      cases present : (entryAt machine.memory table (indices address 1)).present with
      | true =>
          rw [Machine.vmMapLoop_mapped _ _ _ tableFrame present] at succeeds
          cases succeeds
      | false =>
          obtain ⟨fresh, rest, rfl, nonzero⟩ :=
            wellFormed.fresh_of_succeeds tableFrame present succeeds
          have freshFrame : IsFrame fresh := wellFormed.isFrame (by simp)
          have different := wellFormed.table_ne_fresh reached
          rw [Machine.vmMapLoop_installPage _ _ _ tableFrame wellFormed.freelist
            freshFrame nonzero different present,
            Machine.vmMapLoop_installPage _ _ _ tableFrame wellFormed.freelist
            freshFrame nonzero different present]
          exact wellFormed.vmProtectLoop_installed first second third user writable
            executable reached
  | succ level inductionHypothesis =>
      have tableFrame := isFrame_of_treeWalk wellFormed.rootFrame reached
      rw [show 3 - (level + 1) = 2 - level by omega] at reached
      have tableReached := tableAt_of_treeWalk reached
      cases present :
          (entryAt machine.memory table (indices address (level + 2))).present with
      | true =>
          obtain ⟨links, deeper⟩ := small.descend (by omega) reached present
          rw [Machine.vmMapLoop_descend _ _ _ tableFrame present] at succeeds ⊢
          rw [Machine.vmMapLoop_descend _ _ _ tableFrame present]
          obtain ⟨_, _, _, took⟩ := (wellFormed.vmMapLoop first second third level
            (by omega) small deeper).took
          have samePtov := Machine.ptov_congr took.sameBase
          rw [← samePtov, took.wellFormed.vmProtectLoop_descend user writable executable
            (by omega) (took.tables _ _ tableReached)
            (took.tables _ _ (tableAt_of_treeWalk deeper)), samePtov]
          exact inductionHypothesis (by omega) wellFormed small deeper succeeds
      | false =>
          obtain ⟨fresh, rest, rfl, nonzero⟩ :=
            wellFormed.fresh_of_succeeds tableFrame present succeeds
          have freshFrame : IsFrame fresh := wellFormed.isFrame (by simp)
          have different := wellFormed.table_ne_fresh reached
          obtain ⟨linking, stillSmall, ⟨links, linked⟩, _⟩ :=
            wellFormed.installTable small (by omega) reached present
          rw [Machine.vmMapLoop_installTable _ _ _ tableFrame wellFormed.freelist
            freshFrame nonzero different present] at succeeds ⊢
          rw [Machine.vmMapLoop_installTable _ _ _ tableFrame wellFormed.freelist
            freshFrame nonzero different present]
          obtain ⟨_, _, _, took⟩ := (linking.wellFormed.vmMapLoop first second third
            level (by omega) stillSmall linked).took
          have samePtov := Machine.ptov_congr (took.sameBase.trans linking.sameBase)
          rw [← samePtov, took.wellFormed.vmProtectLoop_descend user writable executable
            (by omega) (took.tables _ _ (linking.tables _ _ tableReached))
            (took.tables _ _ (tableAt_of_treeWalk linked)),
            Machine.ptov_congr took.sameBase]
          exact inductionHypothesis (by omega) linking.wellFormed stillSmall linked
            succeeds

/-- `vm_map` and then `vm_protect` is `vm_map` with the last permissions. -/
theorem WellFormed.vmProtect_vmMap
    (first second third user writable executable : Bool)
    (wellFormed : WellFormed root machine free)
    (small : SmallWalk machine.memory root address)
    (succeeds : (machine.vmMap root address first second third).1 = true) :
    (machine.vmMap root address first second third).2.vmProtect root address user
        writable executable =
      machine.vmMap root address user writable executable := by
  have atRoot : treeWalk machine.memory root (walkPath address 0) =
      .table root [] := rfl
  obtain ⟨_, _, _, took⟩ := (wellFormed.vmMap first second third small).took
  rw [Machine.vmProtect, Machine.ptov_congr took.sameBase]
  exact wellFormed.vmProtectLoop_vmMapLoop first second third user writable executable 3
    (le_refl 3) small atRoot succeeds

/-! ## What `vm_protect` changes -/

/-- Only the rewritten leaf changes. -/
theorem WellFormed.treeWalk_writeLeaf
    (wellFormed : WellFormed root machine free)
    (reached : treeWalk machine.memory root (walkPath address 3) =
      .table table entries)
    (present : entry.present = true) :
    treeWalk (writeEntry machine.memory table (indices address 1) entry) root
        (pagePath address) = .leaf (entry :: entries) ∧
      ∀ page, pagePath page ≠ pagePath address ->
        translation (writeEntry machine.memory table (indices address 1) entry) root
          page = translation machine.memory root page := by
  obtain ⟨slotWalk, elsewhere⟩ := StarterKernel.treeWalk_writeLeaf wellFormed.rootFrame
    wellFormed.tree reached (indices_lt address 0)
    (classify_of_leaf present (Or.inl (walkPath_length address 3).ge))
  refine ⟨slotWalk, fun page different => ?_⟩
  rw [translation_eq, translation_eq, elsewhere]
  intro isSuffix
  apply different
  refine (isSuffix.eq_of_length ?_).symm
  rw [List.length_cons, walkPath_length, walkPath_length]

/-- `vm_protect` succeeds on mapped pages, changes the permission bits of one leaf entry
and nothing else, and the last permissions win over the ones `vm_map` set. -/
theorem vm_protect_changes_one_leaf
    {root address : Nat} {machine : Machine} {free : List Nat}
    (user writable executable : Bool)
    (wellFormed : WellFormed root machine free)
    (small : SmallWalk machine.memory root address) :
    let result := machine.vmProtect root address user writable executable
    (result.1 = true ↔ translation machine.memory root address ≠ none) ∧
    (result.1 = false -> result.2 = machine) ∧
    (result.1 = true -> ∃ table entry links,
      let changed : PtEntry :=
        { entry with user := user, writable := writable, noExecute := !executable }
      tableAt machine.memory root (walkPath address 3) = some table ∧
      entryAt machine.memory table (indices address 1) = entry ∧
      treeWalk machine.memory root (pagePath address) = .leaf (entry :: links) ∧
      treeWalk result.2.memory root (pagePath address) = .leaf (changed :: links) ∧
      result.2 = { machine with
        memory := writeEntry machine.memory table (indices address 1) changed } ∧
      (∀ position, position < table + 8 * indices address 1 ∨
          table + 8 * indices address 1 + 8 ≤ position ->
        result.2.memory position = machine.memory position) ∧
      result.2.FreelistIs free ∧
      ∀ page, pagePath page ≠ pagePath address ->
        translation result.2.memory root page =
          translation machine.memory root page) ∧
    ∀ first second third : Bool,
      (machine.vmMap root address first second third).1 = true ->
        (machine.vmMap root address first second third).2.vmProtect root address user
            writable executable =
          machine.vmMap root address user writable executable := by
  intro result
  have mapped := not_congr (wellFormed.translation_eq_none_iff small)
  refine ⟨?_, ?_, ?_, fun first second third succeeds =>
    wellFormed.vmProtect_vmMap first second third user writable executable small
      succeeds⟩
  all_goals
    rcases wellFormed.vmProtect user writable executable small with
      ⟨fault, fails⟩ | ⟨table, links, reached, present, succeeds⟩
  · rw [ne_eq, mapped, show result = _ from fails]
    simp [fault]
  · rw [ne_eq, mapped, show result = _ from succeeds,
      WellFormed.leaf_of_present reached present]
    simp
  · rw [show result = _ from fails]
    exact fun _ => rfl
  · rw [show result = _ from succeeds]
    simp
  · rw [show result = _ from fails]
    simp
  · rw [show result = _ from succeeds]
    intro _
    have stillPresent : (protectedEntry (entryAt machine.memory table
        (indices address 1)) user writable executable).present = true := present
    obtain ⟨slotWalk, elsewhere⟩ := wellFormed.treeWalk_writeLeaf reached stillPresent
    exact ⟨table, _, links, tableAt_of_treeWalk reached, rfl,
      WellFormed.leaf_of_present reached present, slotWalk, rfl,
      fun position outside => writeEntry_outside outside,
      (wellFormed.writeLeaf reached present stillPresent).wellFormed.freelist, elsewhere⟩

/-- A page of a user program, mapped writable and then made read-only. -/
theorem vm_protect_changes_one_leaf_bootMachine :
    ∃ start, (bootMachine (bootContent [])).memInit (bootHdr []) = some start ∧
      ((start.vmMap bootRoot 0x400000 true true false).1 = true ->
        (start.vmMap bootRoot 0x400000 true true false).2.vmProtect bootRoot 0x400000
            true false true =
          start.vmMap bootRoot 0x400000 true false true) := by
  obtain ⟨start, free, init, initialized, _⟩ := boot_initialized [] []
  have owned : Owned bootRoot (bootPool bootTag (bootMachine (bootContent []))) start
      free := initialized.owned
  have small : SmallWalk start.memory bootRoot 0x400000 := owned.smallWalk (by decide)
  obtain ⟨_, _, _, lastWins⟩ := vm_protect_changes_one_leaf true false true
    owned.wellFormed small
  exact ⟨start, init, lastWins true true false⟩

end StarterKernel
