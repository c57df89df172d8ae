import StarterKernel.Kernel.Tlb
import StarterKernel.Paging.VmMapExact
import StarterKernel.Exec.KernelMemory

/-!
# Runs with a translation lookaside buffer

The editors of the page tables drop what they must from the buffer: in every run it
holds only translations that the page tables hold, so that each access goes where the
page tables say, and the run without the buffer is a run of the same steps.
-/

namespace StarterKernel

variable {root address : Nat} {pool : Set Nat} {free : List Nat}
variable {cached other : CachedMachine}

namespace CachedMachine

/-! ## The editors beside their buffer -/

/-- The outcome of an editor: a successful one drops the page of its address. -/
def edited (tlb : Nat -> Option Translation) (address : Nat) (result : Bool × Machine) :
    Bool × CachedMachine :=
  let after := { machine := result.2, tlb := tlb : CachedMachine }
  (result.1, if result.1 then after.invalidateTlb address else after)

theorem edited_true (cached : CachedMachine) (address : Nat) :
    edited cached.tlb address (true, cached.machine) =
      (true, cached.invalidateTlb address) := rfl

theorem vmMapLoop_eq (usable writable executable : Bool) (level table : Nat)
    (cached : CachedMachine) :
    cached.vmMapLoop address usable writable executable level table =
      edited cached.tlb address
        (cached.machine.vmMapLoop address usable writable executable level table) := by
  induction level generalizing table cached with
  | zero => rfl
  | succ level inductionHypothesis =>
      rw [vmMapLoop, Machine.vmMapLoop]
      simp only [onMachine_machine, inductionHypothesis, onMachine_tlb,
        Machine.invalidateTlb_eq]
      split
      next present => split <;> rfl
      next absent =>
        split
        · rfl
        · split
          · rw [← edited_true]
            simp only [onMachine_machine, onMachine_tlb]
          · rfl

theorem vmProtectLoop_eq (user writable executable : Bool) (level table : Nat)
    (cached : CachedMachine) :
    cached.vmProtectLoop address user writable executable level table =
      edited cached.tlb address
        (cached.machine.vmProtectLoop address user writable executable level table) := by
  induction level generalizing table with
  | zero => rfl
  | succ level inductionHypothesis =>
      rw [vmProtectLoop, Machine.vmProtectLoop]
      simp only [inductionHypothesis, Machine.invalidateTlb_eq]
      split
      next present =>
        split
        · rw [← edited_true]
          simp only [onMachine_machine, onMachine_tlb]
        · rfl
      next absent => rfl

theorem vmMap_eq (cached : CachedMachine) (usable writable executable : Bool) :
    cached.vmMap root address usable writable executable =
      edited cached.tlb address
        (cached.machine.vmMap root address usable writable executable) :=
  vmMapLoop_eq usable writable executable 4 _ cached

theorem vmProtect_eq (cached : CachedMachine) (user writable executable : Bool) :
    cached.vmProtect root address user writable executable =
      edited cached.tlb address
        (cached.machine.vmProtect root address user writable executable) :=
  vmProtectLoop_eq user writable executable 4 _ cached

theorem edited_machine (tlb : Nat -> Option Translation) (result : Bool × Machine) :
    (edited tlb address result).2.machine = result.2 := by
  unfold edited invalidateTlb
  split
  · dsimp only
    split <;> rfl
  · rfl

theorem unmapLowerHalf_machine (cached : CachedMachine) (root : Nat) :
    (cached.unmapLowerHalf root).machine = cached.machine.unmapLowerHalf root := by
  simp only [unmapLowerHalf, Machine.unmapLowerHalf, writeCr3, onMachine]

theorem memInit_eq {hdr : Stivale2Struct} {start : Machine}
    (init : cached.machine.memInit hdr = some start) :
    cached.memInit hdr = some { machine := start, tlb := fun _ => none } := by
  rw [Machine.memInit] at init
  rw [memInit]
  dsimp only at init ⊢
  cases loop : Machine.memInitLoop hdr.memmap wordSize 0
      { cached.machine with hhdmBase := hdr.hhdm } with
  | none =>
      rw [loop] at init
      cases init
  | some looped =>
      rw [loop] at init
      rw [← Option.some.inj init]
      simp only [unmapLowerHalf, Machine.unmapLowerHalf, writeCr3, onMachine]

end CachedMachine

/-! ## Steps and runs -/

/-- One step of a user program or of the buffer. -/
inductive ProgramStep : CachedMachine -> CachedMachine -> Prop
  /-- A store goes where the buffer says. -/
  | userStore (cached : CachedMachine) (address : Nat) (value : UInt8)
      (lower : address < 2 ^ 47) (mapped : Translation)
      (translates : cached.translate address = some mapped)
      (user : mapped.user = true) (writable : mapped.writable = true) :
      ProgramStep cached
        (cached.onMachine fun machine =>
          { machine with memory := Function.update machine.memory mapped.physical value })
  | fill (cached : CachedMachine) (address : Nat) :
      ProgramStep cached
        { cached with
          tlb := LookupCache.fill cached.tlb cached.machine.lookup address }
  | evict (cached : CachedMachine) (evicted : Nat -> Bool) :
      ProgramStep cached { cached with tlb := LookupCache.drop cached.tlb evicted }

/-- One step of the kernel, of a user program or of the buffer. -/
inductive CachedStep (root : Nat) : CachedMachine -> CachedMachine -> Prop
  | vmMap (cached : CachedMachine) (address : Nat) (usable writable executable : Bool)
      (lower : address < 2 ^ 47) :
      CachedStep root cached (cached.vmMap root address usable writable executable).2
  | vmProtect (cached : CachedMachine) (address : Nat) (user writable executable : Bool)
      (lower : address < 2 ^ 47) :
      CachedStep root cached (cached.vmProtect root address user writable executable).2
  | unmapLowerHalf (cached : CachedMachine) :
      CachedStep root cached (cached.unmapLowerHalf root)
  | program {cached other : CachedMachine} (step : ProgramStep cached other) :
      CachedStep root cached other

/-- Any number of steps without the kernel. -/
abbrev ProgramRun : CachedMachine -> CachedMachine -> Prop :=
  Relation.ReflTransGen ProgramStep

/-- Any number of steps. -/
abbrev CachedRun (root : Nat) : CachedMachine -> CachedMachine -> Prop :=
  Relation.ReflTransGen (CachedStep root)

namespace CachedMachine

/-- The invariant: CR3 holds the root and the buffer agrees with the page tables. -/
structure Coherent (root : Nat) (cached : CachedMachine) : Prop where
  isCr3 : cached.machine.cr3 = root
  buffer : LookupCache.Coherent cached.tlb cached.machine.lookup

end CachedMachine

/-! ## Lookups after an editor -/

theorem Machine.root_eq {machine : Machine} (rootFrame : IsFrame root)
    (isCr3 : machine.cr3 = root) : machine.root = root := by
  subst isCr3
  exact rootFrame.root_eq

/-- A store of a user program changes no walk. -/
theorem Owned.treeWalk_userStore {machine : Machine} {mapped : Translation}
    (owned : Owned root pool machine free) (lower : LowerHalf address)
    (translates : translation machine.memory root address = some mapped) (value : UInt8)
    (path : List Nat) :
    treeWalk (Function.update machine.memory mapped.physical value) root path =
      treeWalk machine.memory root path := by
  obtain ⟨entry, links, _, rfl, isPage⟩ := owned.leaf_of_translation lower translates
  let stored := { machine with
    memory := Function.update machine.memory (pageTranslation entry address).physical value }
  refine Owned.treeWalk_store (owned : Owned root pool machine free) (?_ : ∀ position,
    stored.memory position ≠ machine.memory position -> _) path
  intro position changed
  have atStore : position = (pageTranslation entry address).physical := by
    by_contra different
    exact changed (Function.update_of_ne different _ _)
  refine ⟨pagePath address, (lowerPath_walkPath address 3).mpr lower, ?_⟩
  rw [atStore, Owned.frameOf_physical]
  exact isPage

/-- A lookup depends on one walk. -/
theorem Machine.lookup_congr {machine after : Machine} {key : Nat} (rootFrame : IsFrame root)
    (isCr3 : machine.cr3 = root) (sameCr3 : after.cr3 = machine.cr3)
    (sameWalk : Canonical key -> treeWalk after.memory root (pagePath key) =
      treeWalk machine.memory root (pagePath key)) :
    after.lookup key = machine.lookup key := by
  unfold lookup
  split
  next canonical =>
    rw [Machine.root_eq rootFrame isCr3, Machine.root_eq rootFrame (sameCr3.trans isCr3),
      translation_eq, translation_eq, sameWalk canonical]
  next => rfl

/-- Canonical addresses of other pages have other walks. -/
theorem pagePath_ne {key : Nat} (lower : address < 2 ^ 47) (canonical : Canonical key)
    (otherPage : key / 4096 ≠ address / 4096) : pagePath key ≠ pagePath address := by
  rcases canonical with lowerKey | ⟨upperKey, bound⟩
  · exact fun same => otherPage ((pagePath_eq_iff lower lowerKey).mp same)
  · intro same
    have lowerHalf := (lowerHalf_congr same).mpr (lowerHalf_of_lt lower)
    have top : indices key 4 = key / 2 ^ 39 % 512 := rfl
    unfold LowerHalf at lowerHalf
    unfold wordSize at upperKey bound
    omega

namespace CachedMachine

namespace Coherent

theorem translate_eq (coherent : Coherent root cached) (address : Nat) :
    cached.translate address = cached.machine.lookup address :=
  coherent.buffer.get_eq address

/-- In the lower half the buffer answers what the page tables say. -/
theorem translate_lower (coherent : Coherent root cached)
    (rootFrame : IsFrame root) (lower : address < 2 ^ 47) :
    cached.translate address = translation cached.machine.memory root address := by
  have canonical : Canonical address := Or.inl lower
  rw [coherent.translate_eq, Machine.lookup, if_pos canonical,
    Machine.root_eq rootFrame coherent.isCr3]

/-- An editor that changes one page, and drops it if it succeeds, keeps the buffer
coherent. -/
theorem edited {result : Bool × Machine} {taken : List Nat}
    (coherent : Coherent root cached) (rootFrame : IsFrame root) (lower : address < 2 ^ 47)
    (footprint : MapFootprint root address cached.machine result.2 taken)
    (refused : result.1 = false -> treeWalk result.2.memory root (pagePath address) =
      treeWalk cached.machine.memory root (pagePath address)) :
    Coherent root (CachedMachine.edited cached.tlb address result).2 := by
  have sameCr3 : result.2.cr3 = cached.machine.cr3 := footprint.sameCr3
  have elsewhere (key : Nat) (canonical : Canonical key)
      (otherPage : key / 4096 ≠ address / 4096) :
      treeWalk result.2.memory root (pagePath key) =
        treeWalk cached.machine.memory root (pagePath key) :=
    footprint.elsewhere _ (walkPath_length key 4) (pagePath_ne lower canonical otherPage)
  refine ⟨by rw [edited_machine]; exact sameCr3.trans coherent.isCr3, ?_⟩
  rw [edited_machine]
  cases outcome : result.1 with
  | true =>
      have canonical : Canonical address := Or.inl lower
      simp only [CachedMachine.edited, outcome, if_true, invalidateTlb, if_pos canonical]
      apply coherent.buffer.change
      intro key kept _
      apply Machine.lookup_congr rootFrame coherent.isCr3 sameCr3
      intro keyCanonical
      exact elsewhere key keyCanonical (by simpa using kept)
  | false =>
      simp only [CachedMachine.edited, outcome, Bool.false_eq_true, if_false]
      apply coherent.buffer.congr
      intro key _
      apply Machine.lookup_congr rootFrame coherent.isCr3 sameCr3
      intro keyCanonical
      by_cases samePath : pagePath key = pagePath address
      · rw [samePath, refused outcome]
      · exact footprint.elsewhere _ (walkPath_length key 4) samePath

/-- A step of a program keeps the buffer coherent and changes no translation. -/
theorem programStep (coherent : Coherent root cached)
    (owned : Owned root pool cached.machine free) (step : ProgramStep cached other) :
    Coherent root other ∧ Run root cached.machine other.machine ∧
      other.machine.lookup = cached.machine.lookup := by
  cases step with
  | userStore address value lower mapped translates user writable =>
      rw [coherent.translate_lower owned.rootFrame lower] at translates
      have step : Step root cached.machine { cached.machine with
          memory := Function.update cached.machine.memory mapped.physical value } :=
        .userStore _ address value (lowerHalf_of_lt lower) mapped translates user
      have same (key : Nat) : Machine.lookup { cached.machine with
          memory := Function.update cached.machine.memory mapped.physical value } key =
            cached.machine.lookup key := by
        refine Machine.lookup_congr owned.rootFrame coherent.isCr3 rfl fun _ => ?_
        exact owned.treeWalk_userStore (lowerHalf_of_lt lower) translates value _
      exact ⟨⟨coherent.isCr3, coherent.buffer.congr fun key _ => same key⟩, .single step,
        funext same⟩
  | fill address => exact ⟨⟨coherent.isCr3, coherent.buffer.fill address⟩, .refl, rfl⟩
  | evict evicted => exact ⟨⟨coherent.isCr3, coherent.buffer.drop evicted⟩, .refl, rfl⟩

/-- While only programs run every access goes where it went before. -/
theorem programRun (coherent : Coherent root cached)
    (owned : Owned root pool cached.machine free) (run : ProgramRun cached other) :
    Coherent root other ∧ Run root cached.machine other.machine ∧
      other.machine.lookup = cached.machine.lookup := by
  induction run with
  | refl => exact ⟨coherent, .refl, rfl⟩
  | tail _ next inductionHypothesis =>
      obtain ⟨middle, before, same⟩ := inductionHypothesis
      obtain ⟨_, kept⟩ := owned.run before
      obtain ⟨after, last, unchanged⟩ := middle.programStep kept next
      exact ⟨after, before.trans last, unchanged.trans same⟩

/-- Every step keeps the buffer coherent, and is a step without the buffer or none. -/
theorem step (coherent : Coherent root cached)
    (owned : Owned root pool cached.machine free) (step : CachedStep root cached other) :
    Coherent root other ∧ Run root cached.machine other.machine := by
  cases step with
  | vmMap address usable writable executable lower =>
      obtain ⟨taken, _, _, _, footprint, _, refused⟩ :=
        Machine.vmMap_spec usable writable executable owned (lowerHalf_of_lt lower)
      rw [vmMap_eq]
      refine ⟨coherent.edited owned.rootFrame lower footprint
        fun failed => (refused failed).same, ?_⟩
      rw [edited_machine]
      exact .single (.vmMap _ _ _ _ _ (lowerHalf_of_lt lower))
  | vmProtect address user writable executable lower =>
      rw [vmProtect_eq]
      refine ⟨?_, by
        rw [edited_machine]
        exact .single (.vmProtect _ _ _ _ _ (lowerHalf_of_lt lower))⟩
      rcases Machine.vmProtect_spec user writable executable owned
          (lowerHalf_of_lt lower) with ⟨_, fails⟩ | ⟨after, succeeds, _, changed⟩
      · rw [fails]
        exact coherent
      · rw [succeeds]
        exact coherent.edited owned.rootFrame lower changed.footprint (by simp)
  | unmapLowerHalf =>
      have sameCr3 := Machine.unmapLowerHalf_cr3 owned.rootFrame owned.tree
      refine ⟨⟨?_, LookupCache.coherent_empty _⟩, ?_⟩ <;> rw [unmapLowerHalf_machine]
      · exact sameCr3.trans coherent.isCr3
      · exact .single (.unmapLowerHalf _)
  | program step =>
      obtain ⟨kept, run, _⟩ := coherent.programStep owned step
      exact ⟨kept, run⟩

/-- Every run keeps the buffer coherent and is a run without the buffer. -/
theorem run (coherent : Coherent root cached)
    (owned : Owned root pool cached.machine free) (run : CachedRun root cached other) :
    Coherent root other ∧ Run root cached.machine other.machine := by
  induction run with
  | refl => exact ⟨coherent, .refl⟩
  | tail _ next inductionHypothesis =>
      obtain ⟨middle, before⟩ := inductionHypothesis
      obtain ⟨_, kept⟩ := owned.run before
      obtain ⟨after, last⟩ := middle.step kept next
      exact ⟨after, before.trans last⟩

end Coherent
end CachedMachine

/-! ## From boot on -/

/-- The load of CR3 at the end of `mem_init` empties the buffer. -/
theorem Handover.cached_reachable {hdr : Stivale2Struct} {tag : Nat}
    {start later : CachedMachine} (handover : Handover hdr tag cached.machine)
    (init : cached.memInit hdr = some start)
    (run : CachedRun cached.machine.cr3 start later) :
    cached.machine.memInit hdr = some start.machine ∧
      later.Coherent cached.machine.cr3 ∧
      Run cached.machine.cr3 start.machine later.machine := by
  obtain ⟨plain, free, plainInit, initialized⟩ := handover.memInit_initialized
  obtain rfl := Option.some.inj ((CachedMachine.memInit_eq plainInit).symm.trans init)
  have coherent : CachedMachine.Coherent cached.machine.cr3
      { machine := plain, tlb := fun _ => none } :=
    ⟨initialized.sameCr3, LookupCache.coherent_empty _⟩
  exact ⟨plainInit, coherent.run initialized.owned run⟩

/-- Whatever the buffer held at boot, in every state reachable from `mem_init` it answers
as the page tables do, and the machine is one that a run without a buffer reaches.  An
access to the lower half never goes to a free frame or to a page table. -/
theorem tlb_agrees_with_page_tables
    {hdr : Stivale2Struct} {tag : Nat} {cached start later : CachedMachine}
    (handover : Handover hdr tag cached.machine)
    (init : cached.memInit hdr = some start)
    (run : CachedRun cached.machine.cr3 start later) :
    cached.machine.memInit hdr = some start.machine ∧
      Run cached.machine.cr3 start.machine later.machine ∧
      (∀ address, later.translate address = later.machine.lookup address) ∧
      ∃ free : List Nat, later.machine.FreelistIs free ∧
        ∀ address < 2 ^ 47, ∀ mapped, later.translate address = some mapped ->
          frameOf mapped.physical ∈ bootPool tag cached.machine ∧
          frameOf mapped.physical ∉ free ∧
          ∀ path, tableAt later.machine.memory cached.machine.cr3 path ≠
            some (frameOf mapped.physical) := by
  obtain ⟨plainInit, coherent, plainRun⟩ := handover.cached_reachable init run
  obtain ⟨free, owned⟩ := handover.reachable_owned plainInit plainRun
  refine ⟨plainInit, plainRun, coherent.translate_eq, free, owned.freelist, ?_⟩
  intro address lower mapped translates
  rw [coherent.translate_lower owned.rootFrame lower] at translates
  obtain ⟨entry, links, _, rfl, isPage⟩ :=
    owned.leaf_of_translation (lowerHalf_of_lt lower) translates
  obtain ⟨inPool, _, notFree, notTable⟩ :=
    owned.page _ _ (lowerPath_pagePath lower) isPage
  rw [Owned.frameOf_physical]
  exact ⟨inPool, notFree, notTable⟩

/-- A program that runs from boot with a stale buffer, and maps a page. -/
theorem tlb_agrees_with_page_tables_bootMachine :
    ∃ start, (CachedMachine.memInit (bootHdr [])
        { machine := bootMachine (bootContent [])
          tlb := fun address => some ⟨address, true, true, false⟩ }) = some start ∧
      ∀ address,
        (start.vmMap bootRoot 0x400000 true true false).2.translate address =
          (start.vmMap bootRoot 0x400000 true true false).2.machine.lookup address := by
  obtain ⟨start, _, init, _⟩ := (handover_bootMachine [] []).memInit_initialized
  have cachedInit := @CachedMachine.memInit_eq
    { machine := bootMachine (bootContent [])
      tlb := fun address => some ⟨address, true, true, false⟩ } _ _ init
  refine ⟨_, cachedInit, ?_⟩
  have run := Relation.ReflTransGen.single
    (CachedStep.vmMap { machine := start, tlb := fun _ => none } 0x400000 true true false
      (by decide) : CachedStep bootRoot _ _)
  exact (tlb_agrees_with_page_tables (handover_bootMachine [] []) cachedInit run).2.2.1

/-! ## Permissions that take effect at once -/

/-- A page after a successful `vm_protect`, as the buffer answers. -/
theorem CachedMachine.Coherent.vmProtect_translate {key : Nat}
    {user writable executable : Bool} (coherent : cached.Coherent root)
    (owned : Owned root pool cached.machine free) (lower : address < 2 ^ 47)
    (succeeds : (cached.vmProtect root address user writable executable).1 = true)
    (samePage : key / 4096 = address / 4096) :
    ∃ mapped, cached.translate key = some mapped ∧
      (cached.vmProtect root address user writable executable).2.translate key =
        some { mapped with
          user := user
          writable := writable
          noExecute := !executable } := by
  obtain ⟨after, -⟩ := coherent.step owned (.vmProtect cached address user writable
    executable lower)
  rw [vmProtect_eq] at succeeds after ⊢
  have lowerKey : key < 2 ^ 47 := by omega
  have samePath := (pagePath_eq_iff lower lowerKey).mpr samePage
  rcases Machine.vmProtect_spec user writable executable owned
      (lowerHalf_of_lt lower) with ⟨_, fails⟩ | ⟨machine, result, kept, changed⟩
  · rw [fails] at succeeds
    cases succeeds
  obtain ⟨entry, links, before, _, leaf⟩ := changed.page
  rw [← samePath] at before leaf
  obtain ⟨_, _, same, _, _, translates, _⟩ :=
    owned.leaf_of_page (lowerHalf_of_lt lowerKey) before
  obtain ⟨rfl, rfl⟩ := List.cons.inj same
  obtain ⟨_, _, sameAfter, _, _, translatesAfter, _⟩ :=
    kept.leaf_of_page (lowerHalf_of_lt lowerKey) leaf
  obtain ⟨rfl, rfl⟩ := List.cons.inj sameAfter
  refine ⟨_, (coherent.translate_lower owned.rootFrame lowerKey).trans translates, ?_⟩
  rw [after.translate_lower owned.rootFrame lowerKey, edited_machine, result,
    translatesAfter]
  rfl

/-- A page after a successful `vm_map`: absent before, and as requested now. -/
theorem CachedMachine.Coherent.vmMap_translate {key : Nat}
    {usable writable executable : Bool} (coherent : cached.Coherent root)
    (owned : Owned root pool cached.machine free) (lower : address < 2 ^ 47)
    (succeeds : (cached.vmMap root address usable writable executable).1 = true)
    (samePage : key / 4096 = address / 4096) :
    cached.translate key = none ∧
      ∃ frame ∈ free,
        (cached.vmMap root address usable writable executable).2.translate key =
          some
            { physical := frame + key % 4096
              user := usable
              writable := writable
              noExecute := !executable } := by
  obtain ⟨after, -⟩ := coherent.step owned (.vmMap cached address usable writable
    executable lower)
  rw [vmMap_eq] at succeeds after ⊢
  have lowerKey : key < 2 ^ 47 := by omega
  have samePath := (pagePath_eq_iff lower lowerKey).mpr samePage
  obtain ⟨taken, rest, split, kept, _, mapped, _⟩ :=
    Machine.vmMap_spec usable writable executable owned (lowerHalf_of_lt lower)
  have isMapped := mapped succeeds
  have vacant := isMapped.vacant
  obtain ⟨entry, links, leaf, _, fromTaken, _, rfl, rfl, noExecute⟩ := isMapped.page
  rw [← samePath] at vacant leaf
  obtain ⟨_, _, same, _, _, translates, _⟩ :=
    kept.leaf_of_page (lowerHalf_of_lt lowerKey) leaf
  obtain ⟨rfl, rfl⟩ := List.cons.inj same
  refine ⟨?_, entry.frame, by rw [split]; exact List.mem_append_left _ fromTaken, ?_⟩
  · rw [coherent.translate_lower owned.rootFrame lowerKey]
    exact (owned.translation_eq_none_iff (lowerHalf_of_lt lowerKey)).mpr vacant
  · rw [after.translate_lower owned.rootFrame lowerKey, edited_machine, translates,
      pageTranslation, noExecute]

/-- Nothing of the lower half translates once it is unmapped. -/
theorem CachedMachine.Coherent.unmapLowerHalf_translate {key : Nat}
    (coherent : cached.Coherent root) (owned : Owned root pool cached.machine free)
    (lower : key < 2 ^ 47) : (cached.unmapLowerHalf root).translate key = none := by
  obtain ⟨after, -⟩ := coherent.step owned (.unmapLowerHalf cached)
  rw [after.translate_lower owned.rootFrame lower, unmapLowerHalf_machine, translation_eq,
    Machine.treeWalk_unmapLowerHalf_of_lower owned.rootFrame owned.tree
      (lowerPath_pagePath lower)]
  rfl

/-- In every state reachable from `mem_init`, with any buffer: what `vm_map`, `vm_protect`
and `unmap_lower_half` allow or forbid is what every access of the programs that run next
finds, until the kernel edits the page tables again. -/
theorem edits_take_effect
    {hdr : Stivale2Struct} {tag : Nat} {cached start later : CachedMachine}
    (handover : Handover hdr tag cached.machine)
    (init : cached.memInit hdr = some start)
    (run : CachedRun cached.machine.cr3 start later) :
    (∀ address < 2 ^ 47, ∀ usable writable executable : Bool, ∀ after,
      (later.vmMap cached.machine.cr3 address usable writable executable).1 = true ->
      ProgramRun (later.vmMap cached.machine.cr3 address usable writable executable).2
        after ->
      ∀ key, key / 4096 = address / 4096 -> later.translate key = none ∧
        ∃ frame ∈ bootPool tag cached.machine, after.translate key =
          some
            { physical := frame + key % 4096
              user := usable
              writable := writable
              noExecute := !executable }) ∧
    (∀ address < 2 ^ 47, ∀ user writable executable : Bool, ∀ after,
      (later.vmProtect cached.machine.cr3 address user writable executable).1 = true ->
      ProgramRun (later.vmProtect cached.machine.cr3 address user writable executable).2
        after ->
      ∀ key, key / 4096 = address / 4096 ->
        ∃ mapped, later.translate key = some mapped ∧
          after.translate key = some { mapped with
            user := user
            writable := writable
            noExecute := !executable }) ∧
    ∀ after, ProgramRun (later.unmapLowerHalf cached.machine.cr3) after ->
      ∀ key < 2 ^ 47, after.translate key = none := by
  obtain ⟨plainInit, coherent, plainRun⟩ := handover.cached_reachable init run
  obtain ⟨free, owned⟩ := handover.reachable_owned plainInit plainRun
  have settled {edited after : CachedMachine} (step : CachedStep cached.machine.cr3 later edited)
      (programs : ProgramRun edited after) (key : Nat) :
      after.translate key = edited.translate key := by
    obtain ⟨kept, editorRun⟩ := coherent.step owned step
    obtain ⟨_, keptOwned⟩ := owned.run editorRun
    obtain ⟨keptAfter, _, same⟩ := kept.programRun keptOwned programs
    rw [keptAfter.translate_eq, kept.translate_eq, same]
  refine ⟨?_, ?_, ?_⟩
  · intro address lower usable writable executable after succeeds programs key samePage
    obtain ⟨vacant, frame, member, translates⟩ :=
      coherent.vmMap_translate owned lower succeeds samePage
    refine ⟨vacant, frame, owned.freeInPool frame member, ?_⟩
    rw [settled (.vmMap _ _ _ _ _ lower) programs, translates]
  · intro address lower user writable executable after succeeds programs key samePage
    obtain ⟨mapped, before, translates⟩ :=
      coherent.vmProtect_translate owned lower succeeds samePage
    refine ⟨mapped, before, ?_⟩
    rw [settled (.vmProtect _ _ _ _ _ lower) programs, translates]
  · intro after programs key lower
    rw [settled (.unmapLowerHalf _) programs]
    exact coherent.unmapLowerHalf_translate owned lower

/-- After boot a page is mapped for a program, which stores a byte in it. -/
theorem edits_take_effect_bootMachine :
    ∃ start after : CachedMachine, CachedMachine.memInit (bootHdr [])
        { machine := bootMachine (bootContent []), tlb := fun _ => none } = some start ∧
      (start.vmMap bootRoot 0x400000 true true false).1 = true ∧
      ProgramStep (start.vmMap bootRoot 0x400000 true true false).2 after ∧
      ∃ frame, after.translate 0x400000 =
        some { physical := frame, user := true, writable := true, noExecute := true } := by
  obtain ⟨start, _, _, _, init, maps, _⟩ := @boot_vmMap [] [] 0x400000 (by decide)
  have cachedInit := @CachedMachine.memInit_eq
    { machine := bootMachine (bootContent []), tlb := fun _ => none } _ _ init
  obtain ⟨mapped, _⟩ := edits_take_effect (handover_bootMachine [] []) cachedInit .refl
  have succeeds : (CachedMachine.vmMap { machine := start, tlb := fun _ => none } bootRoot
      0x400000 true true false).1 = true := by
    rw [CachedMachine.vmMap_eq, maps]
    rfl
  obtain ⟨_, frame, _, before⟩ := mapped 0x400000 (by decide) true true false _ succeeds .refl
    0x400000 rfl
  have stores := ProgramStep.userStore _ 0x400000 7 (by decide) _ before rfl rfl
  obtain ⟨_, other, _, translates⟩ := mapped 0x400000 (by decide) true true false _ succeeds
    (.single stores) 0x400000 rfl
  exact ⟨_, _, cachedInit, succeeds, stores, other, translates⟩

end StarterKernel
