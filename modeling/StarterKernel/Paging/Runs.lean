import StarterKernel.Paging.VmProtect
import Mathlib.Logic.Relation
import Mathlib.Logic.Function.Basic

/-!
# Runs of the page table editors

A run is any sequence of mappings and protection changes in the lower half,
reclamations of the lower half, and stores of user programs.  Every step keeps
the ownership invariant, hence so does every run.
-/

namespace StarterKernel

open RadixTree (Slot Walk)

variable {root address frame : Nat} {pool : Set Nat}
variable {machine other : Machine} {free : List Nat}
variable {entry : PtEntry} {entries links : List PtEntry}

/-- The translation of an address whose page has this leaf entry. -/
def pageTranslation (entry : PtEntry) (address : Nat) : Translation where
  physical := entry.frame + address % 4096
  user := entry.user
  writable := entry.writable
  noExecute := entry.noExecute

/-- Below permissive links the leaf entry decides what a page allows. -/
theorem translation_of_leaf {memory : Nat -> UInt8}
    (leaf : treeWalk memory root (pagePath address) = .leaf (entry :: links))
    (size : links.length = 3) (permissive : ∀ link ∈ links, Permissive link) :
    translation memory root address = some (pageTranslation entry address) := by
  have allUser : links.all PtEntry.user = true :=
    List.all_eq_true.mpr fun link member => (permissive link member).user
  have allWritable : links.all PtEntry.writable = true :=
    List.all_eq_true.mpr fun link member => (permissive link member).writable
  have allExecutable : links.any PtEntry.noExecute = false := by
    rw [List.any_eq_false]
    intro link member
    simp [(permissive link member).executable]
  have aligned : entry.frame / 4096 * 4096 = entry.frame := by
    have := entry.frame_mod
    omega
  rw [translation_eq, leaf]
  simp only [walkTranslation, size, Nat.sub_self, Nat.mul_zero, Nat.add_zero,
    List.all_cons, List.any_cons, allUser, allWritable, allExecutable,
    Bool.and_true, Bool.or_false, show 2 ^ 12 = 4096 from rfl, aligned,
    pageTranslation]

namespace Owned

/-- The leaf entry of a mapped page of the lower half. -/
theorem leaf_of_page (owned : Owned root pool machine free)
    (lower : LowerHalf address)
    (leaf : treeWalk machine.memory root (pagePath address) = .leaf entries) :
    ∃ entry links, entries = entry :: links ∧ links.length = 3 ∧
      (∀ link ∈ links, Permissive link) ∧
      translation machine.memory root address =
        some (pageTranslation entry address) ∧
      PageAt machine.memory root (pagePath address) entry.frame := by
  have lowerPage : LowerPath (pagePath address) :=
    (lowerPath_walkPath address 3).mpr lower
  have lowerTable : LowerPath (walkPath address 3) :=
    (lowerPath_walkPath address 2).mpr lower
  obtain ⟨table, links, parent, _, rfl⟩ :=
    owned.page_parent lowerPage (walkPath_length address 3) leaf
  have size : links.length = 3 :=
    (RadixTree.length_of_walk parent).trans (walkPath_length address 3)
  have permissive := owned.permissive _ table links lowerTable parent
  exact ⟨_, links, rfl, size, permissive,
    translation_of_leaf leaf size permissive,
    walkPath_length address 4, _, links, leaf, rfl⟩

/-- A mapped address of the lower half has a leaf entry, and its page is a frame
of the pool. -/
theorem leaf_of_translation (owned : Owned root pool machine free)
    (lower : LowerHalf address) {mapped : Translation}
    (translates : translation machine.memory root address = some mapped) :
    ∃ entry links,
      treeWalk machine.memory root (pagePath address) = .leaf (entry :: links) ∧
      mapped = pageTranslation entry address ∧
      PageAt machine.memory root (pagePath address) entry.frame := by
  cases walk : treeWalk machine.memory root (pagePath address) with
  | fault =>
      rw [translation_eq, walk] at translates
      cases translates
  | table table above =>
      rw [translation_eq, walk] at translates
      cases translates
  | leaf entries =>
      obtain ⟨entry, links, rfl, _, _, same, isPage⟩ := owned.leaf_of_page lower walk
      exact ⟨entry, links, rfl, Option.some.inj (translates.symm.trans same), isPage⟩

theorem frameOf_physical (entry : PtEntry) (address : Nat) :
    frameOf (pageTranslation entry address).physical = entry.frame :=
  frameOf_add_of_lt ⟨entry.frame_mod, entry.frame_lt⟩ (Nat.mod_lt _ (by decide))

/-- Walks do not go through the pages of the lower half. -/
theorem treeWalk_store (owned : Owned root pool machine free)
    (inPages : ∀ position, other.memory position ≠ machine.memory position ->
      ∃ path, LowerPath path ∧
        PageAt machine.memory root path (frameOf position)) (path : List Nat) :
    treeWalk other.memory root path = treeWalk machine.memory root path := by
  apply treeWalk_congr owned.rootFrame
  intro path table reached position inTable
  by_contra changed
  obtain ⟨page, lower, isPage⟩ := inPages position changed
  exact (owned.page page _ lower isPage).2.2.2 path (inTable ▸ reached)

/-- Memory may change inside the pages of the lower half. -/
theorem store (owned : Owned root pool machine free)
    (sameBase : other.hhdmBase = machine.hhdmBase)
    (sameHead : other.freelist = machine.freelist)
    (inPages : ∀ position, other.memory position ≠ machine.memory position ->
      ∃ path, LowerPath path ∧
        PageAt machine.memory root path (frameOf position)) :
    Owned root pool other free := by
  apply owned.congr sameBase sameHead
  · intro path table reached position inTable
    by_contra changed
    obtain ⟨page, lower, isPage⟩ := inPages position changed
    exact (owned.page page _ lower isPage).2.2.2 path (inTable ▸ reached)
  · intro frame member position inFrame
    by_contra changed
    obtain ⟨page, lower, isPage⟩ := inPages position changed
    exact (owned.page page _ lower isPage).2.2.1 (inFrame ▸ member)

end Owned

/-! ## Steps and runs -/

/-- One step of the kernel or of a user program. -/
inductive Step (root : Nat) : Machine -> Machine -> Prop
  | vmMap (machine : Machine) (address : Nat) (usable writable executable : Bool)
      (lower : LowerHalf address) :
      Step root machine (machine.vmMap root address usable writable executable).2
  | vmProtect (machine : Machine) (address : Nat) (user writable executable : Bool)
      (lower : LowerHalf address) :
      Step root machine (machine.vmProtect root address user writable executable).2
  | unmapLowerHalf (machine : Machine) :
      Step root machine (machine.unmapLowerHalf root)
  | userStore (machine : Machine) (address : Nat) (value : UInt8)
      (lower : LowerHalf address) (mapped : Translation)
      (translates : translation machine.memory root address = some mapped)
      (user : mapped.user = true) :
      Step root machine
        { machine with memory := Function.update machine.memory mapped.physical value }

/-- Any number of steps. -/
abbrev Run (root : Nat) : Machine -> Machine -> Prop :=
  Relation.ReflTransGen (Step root)

theorem Machine.vmMap_spec
    (usable writable executable : Bool)
    (owned : Owned root pool machine free) (lower : LowerHalf address) :
    MapRun root pool address usable writable executable machine free 3
      (machine.vmMap root address usable writable executable) := by
  have atRoot : treeWalk machine.memory root (walkPath address 0) =
      .table root [] := rfl
  exact Machine.vmMapLoop_spec usable writable executable lower 3 (le_refl 3)
    owned atRoot

/-- Every step keeps the ownership invariant. -/
theorem Owned.step (owned : Owned root pool machine free)
    (step : Step root machine other) : ∃ after, Owned root pool other after := by
  cases step with
  | vmMap address usable writable executable lower =>
      obtain ⟨_, rest, _, kept, _⟩ :=
        Machine.vmMap_spec usable writable executable owned lower
      exact ⟨rest, kept⟩
  | vmProtect address user writable executable lower =>
      rcases Machine.vmProtect_spec user writable executable owned lower with
        ⟨_, fails⟩ | ⟨after, succeeds, kept, _⟩
      · rw [fails]
        exact ⟨free, owned⟩
      · rw [succeeds]
        exact ⟨free, kept⟩
  | unmapLowerHalf => exact ⟨_, owned.unmapLowerHalf⟩
  | userStore address value lower mapped translates user =>
      obtain ⟨entry, links, _, rfl, isPage⟩ :=
        owned.leaf_of_translation lower translates
      refine ⟨free, owned.store rfl rfl ?_⟩
      intro position changed
      have atStore : position = (pageTranslation entry address).physical := by
        by_contra different
        exact changed (Function.update_of_ne different _ _)
      refine ⟨pagePath address, (lowerPath_walkPath address 3).mpr lower, ?_⟩
      rw [atStore, Owned.frameOf_physical]
      exact isPage

/-- Every run keeps the ownership invariant. -/
theorem Owned.run (owned : Owned root pool machine free)
    (run : Run root machine other) : ∃ after, Owned root pool other after := by
  induction run with
  | refl => exact ⟨free, owned⟩
  | tail _ step inductionHypothesis =>
      obtain ⟨middle, kept⟩ := inductionHypothesis
      exact kept.step step

end StarterKernel
