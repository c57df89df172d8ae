import StarterKernel.Exec.KernelMemory
import StarterKernel.Strings.Compare

/-!
# Looking up the module by its name

The lookup finds the first module with the name, provided that the name can be
read.  But `exec_setup` unmaps the lower half before it reads the name it was
passed: a name in user memory is never read, the first access faults.
-/

namespace StarterKernel

open StateError

variable {machine : Machine} {root address name : Nat} {pool : Set Nat}
variable {free : List Nat} {bytes left right : List UInt8}

/-! ## Strings -/

/-- What `strcmp` takes for equal strings: it compares their lengths as `int` and then
so many characters. -/
def StrcmpEqual (left right : List UInt8) : Prop :=
  left.length % 2 ^ 32 = right.length ∧ left.take right.length = right

instance (left right : List UInt8) : Decidable (StrcmpEqual left right) :=
  inferInstanceAs (Decidable (_ ∧ _))

/-- A string of fewer than `2 ^ 32` characters is confused with no other. -/
theorem strcmpEqual_iff_eq (short : left.length < 2 ^ 32) :
    StrcmpEqual left right ↔ left = right := by
  unfold StrcmpEqual
  rw [Nat.mod_eq_of_lt short]
  constructor
  · rintro ⟨sameLength, same⟩
    rwa [← sameLength, List.take_length] at same
  · rintro rfl
    exact ⟨rfl, List.take_length⟩

/-- The loop of `strcmp` yields zero if the remaining characters are equal. -/
theorem strcmpLoop_eq {s1 s2 : Nat -> Kernel UInt8} {fuel i : Nat}
    (readsLeft : ∀ i < left.length, s1 i machine = .ok (left.getD i 0) machine)
    (readsRight : ∀ i < right.length, s2 i machine = .ok (right.getD i 0) machine)
    (sameLength : left.length = right.length)
    (inside : i ≤ left.length) (enough : left.length < fuel + i) :
    ∃ ret, strcmpLoop s1 s2 left.length fuel i machine = .ok ret machine ∧
      (ret = 0 ↔ left.drop i = right.drop i) :=
  ⟨_, strcmpLoop_compare readsLeft readsRight sameLength inside enough,
    ThreeWay.compare_eq_zero_iff.trans signedChars_injective.eq_iff⟩

/-- `strcmp` yields zero for the strings it takes for equal only. -/
theorem strcmp_eq {s1 s2 : Nat -> Kernel UInt8}
    (readsLeft : ReadsString s1 machine left) (noNulLeft : 0 ∉ left)
    (shortLeft : left.length < wordSize)
    (readsRight : ReadsString s2 machine right) (noNulRight : 0 ∉ right)
    (shortRight : right.length < 2 ^ 31) :
    ∃ ret, strcmp s1 s2 machine = .ok ret machine ∧
      (ret = 0 ↔ StrcmpEqual left right) := by
  rw [strcmp, bind_of_ok (strlen_eq readsLeft noNulLeft shortLeft),
    bind_of_ok (strlen_eq readsRight noNulRight (by unfold wordSize; omega)),
    toInt32_of_lt shortRight]
  have sameInt : toInt32 left.length = right.length ↔
      left.length % 2 ^ 32 = right.length := toInt32_eq_iff shortRight
  by_cases sameLength : left.length % 2 ^ 32 = right.length
  · have length : (left.take right.length).length = right.length := by
      rw [List.length_take]
      omega
    have readsTaken : ∀ i < (left.take right.length).length,
        s1 i machine = .ok ((left.take right.length).getD i 0) machine := by
      intro i inside
      rw [readsLeft i (by omega), List.getD_eq_getElem _ _ inside, List.getElem_take,
        List.getD_eq_getElem]
    obtain ⟨ret, run, iff⟩ := strcmpLoop_eq readsTaken
      (fun i inside => readsRight i inside.le) length (Nat.zero_le _)
      (show _ < 2 ^ 31 + 0 by omega)
    rw [length] at run
    rw [if_pos (sameInt.mpr sameLength), sameInt.mpr sameLength]
    exact ⟨ret, run, iff.trans ⟨fun same => ⟨sameLength, same⟩, fun same => same.2⟩⟩
  · have different : ¬StrcmpEqual left right := fun same => sameLength same.1
    rw [if_neg (mt sameInt.mp sameLength)]
    split
    · exact ⟨1, rfl, by simp [different]⟩
    · exact ⟨-1, rfl, by simp [different]⟩

/-! ## The lookup -/

/-- A string in memory is shorter than memory. -/
theorem ReadsString.length_lt (reads : ReadsString (pointerString name) machine bytes)
    (noNul : 0 ∉ bytes) : bytes.length < wordSize := by
  by_contra long
  have character := reads (bytes.length - wordSize) (by omega)
  have terminator := reads bytes.length (Nat.le_refl _)
  have sameAddress : (name + bytes.length) % wordSize =
      (name + (bytes.length - wordSize)) % wordSize := by
    unfold wordSize at *
    omega
  rw [List.getD_eq_default _ _ (Nat.le_refl _)] at terminator
  unfold pointerString at character terminator
  rw [sameAddress, character] at terminator
  have inside : bytes.length - wordSize < bytes.length := by
    unfold wordSize at *
    omega
  rw [List.getD_eq_getElem _ _ inside] at terminator
  injection terminator with isNul
  exact noNul (isNul ▸ List.getElem_mem inside)

/-- The lookup finds the first module whose string `strcmp` takes for the name. -/
theorem findModule_eq {modules : List Stivale2Module}
    (reads : ReadsString (pointerString name) machine bytes) (noNul : 0 ∉ bytes) :
    findModule name modules machine =
      .ok (modules.find? fun ourmod => StrcmpEqual bytes ourmod.string) machine := by
  induction modules with
  | nil => rfl
  | cons ourmod rest inductionHypothesis =>
      obtain ⟨ret, run, iff⟩ := strcmp_eq reads noNul (reads.length_lt noNul)
        (readsString_localString ourmod.string) ourmod.noNul
        (by have := ourmod.terminated; omega)
      rw [findModule, bind_of_ok run]
      by_cases same : StrcmpEqual bytes ourmod.string
      · rw [if_pos (iff.mpr same), List.find?_cons_of_pos (by simpa using same)]
        rfl
      · rw [if_neg fun isZero => same (iff.mp isZero),
          List.find?_cons_of_neg (by simpa using same)]
        exact inductionHypothesis

/-- A name in kernel memory can be read. -/
theorem ImageAt.readsString {size : Nat} {image : Nat -> UInt8}
    (imageAt : ImageAt root pool machine name size image)
    (isRoot : machine.root = root) (inside : bytes.length < size)
    (holds : ∀ i ≤ bytes.length, image i = bytes.getD i 0) :
    ReadsString (pointerString name) machine bytes := by
  intro i small
  have bound := imageAt.bound
  rw [pointerString, Nat.mod_eq_of_lt (by omega),
    imageAt.loadByte isRoot (by omega), holds i small]

/-! ## A name in user memory -/

/-- An access to an address that does not translate faults. -/
theorem Kernel.loadByte_of_untranslated
    (canonical : Canonical address)
    (untranslated : translation machine.memory machine.root address = none) :
    Kernel.loadByte address machine = .error (.pageFault address) machine := by
  apply bind_of_error
  rw [Kernel.resolve, if_pos canonical, untranslated]

/-- The lookup reads the name first. -/
theorem findModule_of_error {modules : List Stivale2Module} {trap : Trap}
    (nonempty : modules ≠ [])
    (first : pointerString name 0 machine = .error trap machine) :
    findModule name modules machine = .error trap machine := by
  have length : strlen (pointerString name) machine = .error trap machine := by
    rw [strlen, wordSize, show 2 ^ 64 = (2 ^ 64 - 1) + 1 from rfl, strlenLoop]
    exact bind_of_error first
  cases modules with
  | nil => exact absurd rfl nonempty
  | cons ourmod rest =>
      rw [findModule]
      exact bind_of_error (bind_of_error length)

/-- A name in user pages that are mapped when `exec_setup` is called. -/
structure CallerName (machine : Machine) (name : Nat) (bytes : List UInt8) : Prop where
  noNul : 0 ∉ bytes
  mapped : ∀ i ≤ bytes.length, ∃ cell,
    lowerSpace machine.memory machine.root (name + i) = some cell ∧
      cell.access.user = true ∧ cell.byte = bytes.getD i 0

/-- `exec_setup` reads the name while it is mapped, and finds the first module
with that name.  It looks the name up after `unmap_lower_half`. -/
structure ExecFindsNamed
    (hdr : Stivale2Struct) (name : Nat) (bytes : List UInt8) (machine : Machine) :
    Prop where
  readsMapped : ∀ i ≤ bytes.length, ∀ after,
    findModule name hdr.modules (machine.unmapLowerHalf machine.cr3) ≠
      .error (.pageFault (name + i)) after
  loadsFirst : ∃ ourmod after,
    hdr.modules.find? (fun ourmod => ourmod.string = bytes) = some ourmod ∧
      findModule name hdr.modules (machine.unmapLowerHalf machine.cr3) =
        .ok (some ourmod) after

/-- After `unmap_lower_half` a lookup of a name in the lower half faults. -/
theorem findModule_unmapLowerHalf {modules : List Stivale2Module}
    (rootFrame : IsFrame machine.cr3) (tree : IsTree machine.memory machine.cr3)
    (lower : name < 2 ^ 47) (nonempty : modules ≠ []) :
    findModule name modules (machine.unmapLowerHalf machine.cr3) =
      .error (.pageFault name) (machine.unmapLowerHalf machine.cr3) := by
  have sameCr3 := Machine.unmapLowerHalf_cr3 rootFrame tree
  have isRoot : (machine.unmapLowerHalf machine.cr3).root = machine.cr3 := by
    rw [IsFrame.root_eq (sameCr3.symm ▸ rootFrame), sameCr3]
  apply findModule_of_error nonempty
  rw [pointerString, Nat.add_zero, Nat.mod_eq_of_lt (by unfold wordSize; omega)]
  apply Kernel.loadByte_of_untranslated (Or.inl lower)
  rw [isRoot, translation_eq, Machine.treeWalk_unmapLowerHalf_of_lower rootFrame tree
    (lowerPath_pagePath lower)]
  rfl

theorem CallerName.lower (caller : CallerName machine name bytes) : name < 2 ^ 47 := by
  obtain ⟨cell, visible, _⟩ := caller.mapped 0 (Nat.zero_le _)
  by_contra outside
  rw [Nat.add_zero, lowerSpace_of_le (by omega)] at visible
  cases visible

/-! ## A program that stored a name -/

/-- A user program may fill a range of its pages. -/
theorem Owned.userStores {count : Nat} {source : Nat -> UInt8}
    (owned : Owned root pool machine free)
    (mapped : ∀ offset < count, ∃ cell,
      lowerSpace machine.memory root (address + offset) = some cell ∧
        cell.access.user = true) :
    ∃ after, Run root machine after ∧ Extends root pool machine after free free ∧
      lowerSpace after.memory root =
        PagedSpace.write (lowerSpace machine.memory root) address count source := by
  induction count generalizing machine address source with
  | zero =>
      exact ⟨machine, Relation.ReflTransGen.refl, Extends.refl owned,
        PagedSpace.write_zero.symm⟩
  | succ count inductionHypothesis =>
      obtain ⟨cell, visible, user⟩ := mapped 0 (by omega)
      rw [Nat.add_zero] at visible
      have lower : address < 2 ^ 47 := by
        by_contra outside
        rw [lowerSpace_of_le (by omega)] at visible
        cases visible
      rw [lowerSpace_eq lower] at visible
      obtain ⟨first, translates, rfl⟩ := Option.map_eq_some_iff.mp visible
      obtain ⟨extend, _, space⟩ := owned.store_extends (source 0) lower translates
      obtain ⟨after, run, later, written⟩ := @inductionHypothesis _ (address + 1)
        (fun offset => source (offset + 1)) extend.kept (by
          intro offset small
          obtain ⟨cell, visible, user⟩ := mapped (offset + 1) (by omega)
          refine ⟨cell, ?_, user⟩
          rw [space, PagedSpace.write_outside (by omega), Nat.add_assoc,
            Nat.add_comm 1 offset]
          exact visible)
      refine ⟨after, ?_, extend.trans later, ?_⟩
      · exact run.head (.userStore machine address (source 0) (lowerHalf_of_lt lower)
          first translates user)
      · rw [written, space, PagedSpace.write_succ count]

/-- The name of the first program. -/
def initName : List UInt8 := "init".toUTF8.data.toList

/-- A module with that name. -/
def initModule (beginAddress endAddress : Nat) : Stivale2Module where
  beginAddress := beginAddress
  endAddress := endAddress
  string := initName
  terminated := by decide
  noNul := by decide

/-- After boot a program can hold a name in a page of its own. -/
theorem boot_callerName (image : List UInt8) (modules : List Stivale2Module)
    (noNul : 0 ∉ bytes) (short : bytes.length < 4096) :
    ∃ start mapped machine free,
      (bootMachine (bootContent image)).memInit (bootHdr modules) = some start ∧
      start.vmMap bootRoot 0x400000 true true false = (true, mapped) ∧
      Run bootRoot mapped machine ∧
      Owned bootRoot (bootPool bootTag (bootMachine (bootContent image))) machine
        free ∧
      machine.cr3 = bootRoot ∧ CallerName machine 0x400000 bytes := by
  obtain ⟨start, mapped, free, taken, init, succeeds, owned, sameCr3, isMapped⟩ :=
    boot_vmMap image modules (show LowerHalf 0x400000 by decide)
  have page : ∀ offset < 4096,
      lowerSpace mapped.memory bootRoot (0x400000 + offset) =
        some
          { access := { user := true, writable := true, executable := false }
            byte := 0 } := by
    intro offset small
    exact isMapped.lowerSpace_page owned (by decide) (by omega)
  obtain ⟨machine, run, extend, written⟩ := @Owned.userStores mapped bootRoot 0x400000
    _ free bytes.length (fun offset => bytes.getD offset 0) owned
    (fun offset small => ⟨_, page offset (by omega), rfl⟩)
  have cr3 : machine.cr3 = bootRoot := extend.sameCr3.trans sameCr3
  have isRoot : machine.root = bootRoot := by
    rw [IsFrame.root_eq (cr3.symm ▸ isFrame_bootRoot), cr3]
  refine ⟨start, mapped, machine, free, init, succeeds, run, extend.kept, cr3, noNul,
    ?_⟩
  intro i small
  rw [isRoot, written]
  by_cases character : i < bytes.length
  · rw [PagedSpace.write_inside (by omega) (by omega), page i (by omega)]
    exact ⟨_, rfl, rfl, by simp⟩
  · rw [PagedSpace.write_outside (by omega), page i (by omega),
      List.getD_eq_default _ _ (by omega)]
    exact ⟨_, rfl, rfl, rfl⟩

/-- A name in user memory is never found: its pages are unmapped before it is
read, and the first character faults. -/
theorem exec_never_finds_user_name {hdr : Stivale2Struct}
    (rootFrame : IsFrame machine.cr3) (tree : IsTree machine.memory machine.cr3)
    (caller : CallerName machine name bytes)
    (named : ∃ ourmod ∈ hdr.modules, ourmod.string = bytes) :
    ¬ExecFindsNamed hdr name bytes machine ∧
      execSetup hdr name machine =
        .error (.pageFault name) (machine.unmapLowerHalf machine.cr3) := by
  have nonempty : hdr.modules ≠ [] := by
    obtain ⟨_, member, _⟩ := named
    exact List.ne_nil_of_mem member
  have faults := findModule_unmapLowerHalf rootFrame tree caller.lower nonempty
  constructor
  · intro finds
    exact finds.readsMapped 0 (Nat.zero_le _) _ faults
  · exact (bind_of_ok (modify_apply _ _)).trans (bind_of_error faults)

/-- A program that passes `init` in a page of its own. -/
theorem exec_never_finds_user_name_bootMachine :
    ∃ machine, CallerName machine 0x400000 initName ∧
      ¬ExecFindsNamed (bootHdr [initModule 0 0]) 0x400000 initName machine := by
  obtain ⟨_, _, machine, free, _, _, _, owned, cr3, caller⟩ :=
    boot_callerName [] [initModule 0 0] (show 0 ∉ initName by decide) (by decide)
  refine ⟨machine, caller, ?_⟩
  exact (exec_never_finds_user_name (cr3.symm ▸ owned.rootFrame)
    (cr3.symm ▸ owned.tree) caller ⟨initModule 0 0, by simp [bootHdr], rfl⟩).1

/-- On a booted machine a program maps a page, stores the name of an existing
module in it and passes the name to `exec_setup`, which does not find it. -/
theorem exec_misses_user_name :
    ∃ start mapped machine,
      (bootMachine (bootContent [])).memInit (bootHdr [initModule 0 0]) = some start ∧
      start.vmMap bootRoot 0x400000 true true false = (true, mapped) ∧
      Run bootRoot mapped machine ∧ CallerName machine 0x400000 initName ∧
      (∃ ourmod ∈ (bootHdr [initModule 0 0]).modules, ourmod.string = initName) ∧
      ¬ExecFindsNamed (bootHdr [initModule 0 0]) 0x400000 initName machine := by
  obtain ⟨start, mapped, machine, free, init, succeeds, run, owned, cr3, caller⟩ :=
    boot_callerName [] [initModule 0 0] (show 0 ∉ initName by decide) (by decide)
  refine ⟨start, mapped, machine, init, succeeds, run, caller,
    ⟨initModule 0 0, by simp [bootHdr], rfl⟩, ?_⟩
  intro finds
  exact finds.readsMapped 0 (Nat.zero_le _) _ (findModule_unmapLowerHalf
    (cr3.symm ▸ owned.rootFrame) (cr3.symm ▸ owned.tree) caller.lower
    (by simp [bootHdr]))

end StarterKernel
