import StarterKernel.Library.PagedSpace
import StarterKernel.Paging.VmMapExact

/-!
# The address space of a program

The lower half as a program sees it: permissions and a byte at every mapped
address, whatever frames hold them.  Mapping a page, changing its permissions and
storing a byte refine the corresponding operations on address spaces, and extend
the use that is made of the frames of the pool.
-/

namespace StarterKernel

open RadixTree (Slot Walk)
open PagedSpace (Cell Space)

/-- What a program may do with a page. -/
structure Access where
  user : Bool
  writable : Bool
  executable : Bool
  deriving DecidableEq

/-- The permissions of a translation. -/
def Translation.access (mapped : Translation) : Access where
  user := mapped.user
  writable := mapped.writable
  executable := !mapped.noExecute

/-- The address space of the lower half. -/
def lowerSpace (memory : Nat -> UInt8) (root : Nat) : Space Access :=
  fun address =>
    if address < 2 ^ 47 then
      (translation memory root address).map fun mapped =>
        { access := mapped.access, byte := memory mapped.physical }
    else none

/-- What the loader keeps while it uses up frames: the upper half, everything
outside the frames of the pool but the root, and the role of every frame that has
one.  A frame that leaves the freelist gets a role, physical page 0 apart, and no
other frame does. -/
structure Extends
    (root : Nat) (pool : Set Nat) (machine after : Machine) (free rest : List Nat) :
    Prop where
  kept : Owned root pool after rest
  subset : ∀ frame ∈ rest, frame ∈ free
  sameCr3 : after.cr3 = machine.cr3
  sameWriteProtect : after.writeProtect = machine.writeProtect
  upper : ∀ address, ¬LowerHalf address ->
    translation after.memory root address = translation machine.memory root address
  reserved : ∀ frame, frame ∉ pool -> frame ≠ root ->
    AgreeOn machine.memory after.memory frame
  tables : ∀ path frame, tableAt machine.memory root path = some frame ->
    tableAt after.memory root path = some frame
  pages : ∀ path frame, LowerPath path -> PageAt machine.memory root path frame ->
    PageAt after.memory root path frame
  roles : ∀ frame ∈ free, frame ∈ rest ∨ frame = 0 ∨ InUse after.memory root frame
  fresh : ∀ frame, InUse after.memory root frame ->
    InUse machine.memory root frame ∨ frame ∈ free

variable {root address position frame : Nat} {pool : Set Nat}
variable {machine middle after : Machine} {free rest last : List Nat}

theorem InUse.mono (extend : Extends root pool machine after free rest)
    (inUse : InUse machine.memory root frame) : InUse after.memory root frame := by
  rcases inUse with ⟨path, lower, reached⟩ | ⟨path, lower, isPage⟩
  · exact Or.inl ⟨path, lower, extend.tables path frame reached⟩
  · exact Or.inr ⟨path, lower, extend.pages path frame lower isPage⟩

namespace Extends

theorem refl (owned : Owned root pool machine free) :
    Extends root pool machine machine free free where
  kept := owned
  subset := fun _ member => member
  sameCr3 := rfl
  sameWriteProtect := rfl
  upper := fun _ _ => rfl
  reserved := fun _ _ _ => AgreeOn.refl _ _
  tables := fun _ _ reached => reached
  pages := fun _ _ _ isPage => isPage
  roles := fun _ member => Or.inl member
  fresh := fun _ inUse => Or.inl inUse

theorem trans (first : Extends root pool machine middle free rest)
    (second : Extends root pool middle after rest last) :
    Extends root pool machine after free last where
  kept := second.kept
  subset := fun frame member => first.subset frame (second.subset frame member)
  sameCr3 := second.sameCr3.trans first.sameCr3
  sameWriteProtect := second.sameWriteProtect.trans first.sameWriteProtect
  upper := fun address upper =>
    (second.upper address upper).trans (first.upper address upper)
  reserved := fun frame outside notRoot =>
    (first.reserved frame outside notRoot).trans
      (second.reserved frame outside notRoot)
  tables := fun path frame reached =>
    second.tables path frame (first.tables path frame reached)
  pages := fun path frame lower isPage =>
    second.pages path frame lower (first.pages path frame lower isPage)
  roles := by
    intro frame member
    rcases first.roles frame member with stillFree | isZero | inUse
    · exact second.roles frame stillFree
    · exact Or.inr (Or.inl isZero)
    · exact Or.inr (Or.inr (inUse.mono second))
  fresh := by
    intro frame inUse
    rcases second.fresh frame inUse with before | wasFree
    · exact first.fresh frame before
    · exact Or.inr (first.subset frame wasFree)

end Extends

/-! ## Addresses and pages of the lower half -/

theorem lowerHalf_of_lt (lower : address < 2 ^ 47) : LowerHalf address := by
  have top : indices address 4 = address / 2 ^ 39 % 512 := rfl
  unfold LowerHalf
  omega

theorem lowerPath_pagePath (lower : address < 2 ^ 47) :
    LowerPath (pagePath address) :=
  (lowerPath_walkPath address 3).mpr (lowerHalf_of_lt lower)

theorem lowerHalf_congr (same : pagePath position = pagePath address) :
    LowerHalf position ↔ LowerHalf address := by
  have samePath : LowerPath (pagePath position) ↔ LowerPath (pagePath address) := by
    rw [same]
  exact ((lowerPath_walkPath position 3).symm.trans samePath).trans
    (lowerPath_walkPath address 3)

/-- Addresses of the lower half are in one page if their walks are the same. -/
theorem pagePath_eq_iff (left : address < 2 ^ 47) (right : position < 2 ^ 47) :
    pagePath position = pagePath address ↔ position / 4096 = address / 4096 := by
  have path (address : Nat) : pagePath address =
      [address / 2 ^ 12 % 512, address / 2 ^ 21 % 512, address / 2 ^ 30 % 512,
        address / 2 ^ 39 % 512] := rfl
  simp only [path, List.cons.injEq, and_true]
  omega

theorem lowerSpace_eq (lower : address < 2 ^ 47) (memory : Nat -> UInt8) :
    lowerSpace memory root address =
      (translation memory root address).map fun mapped =>
        { access := mapped.access, byte := memory mapped.physical } := by
  rw [lowerSpace, if_pos lower]

theorem lowerSpace_eq_none_iff (lower : address < 2 ^ 47) {memory : Nat -> UInt8} :
    lowerSpace memory root address = none ↔ translation memory root address = none := by
  rw [lowerSpace_eq lower, Option.map_eq_none_iff]

theorem lowerSpace_of_le (upper : 2 ^ 47 ≤ address) (memory : Nat -> UInt8) :
    lowerSpace memory root address = none := by
  rw [lowerSpace, if_neg (by omega)]

/-- What a leaf entry shows a program. -/
theorem Owned.lowerSpace_of_leaf {entry : PtEntry} {links : List PtEntry}
    (owned : Owned root pool machine free) (lower : address < 2 ^ 47)
    (leaf : treeWalk machine.memory root (pagePath address) =
      .leaf (entry :: links)) :
    lowerSpace machine.memory root address =
      some
        { access := (pageTranslation entry address).access
          byte := machine.memory (entry.frame + address % 4096) } := by
  obtain ⟨_, _, same, _, _, translates, _⟩ :=
    owned.leaf_of_page (lowerHalf_of_lt lower) leaf
  obtain ⟨rfl, rfl⟩ := List.cons.inj same
  rw [lowerSpace_eq lower, translates]
  rfl

/-- A page shows a program the same if neither its walk nor its frame changes. -/
theorem Owned.lowerSpace_congr (owned : Owned root pool machine free)
    (sameTranslation : translation after.memory root address =
      translation machine.memory root address)
    (agree : ∀ frame, PageAt machine.memory root (pagePath address) frame ->
      AgreeOn machine.memory after.memory frame) :
    lowerSpace after.memory root address = lowerSpace machine.memory root address := by
  by_cases lower : address < 2 ^ 47
  · rw [lowerSpace_eq lower, lowerSpace_eq lower, sameTranslation]
    apply Option.map_congr
    intro mapped translates
    obtain ⟨entry, links, _, rfl, isPage⟩ :=
      owned.leaf_of_translation (lowerHalf_of_lt lower) translates
    rw [agree entry.frame isPage _ (Owned.frameOf_physical entry address)]
  · rw [lowerSpace_of_le (by omega), lowerSpace_of_le (by omega)]

/-- Every page table of the lower half is on the walk to a mapped address. -/
def TablesUsed (memory : Nat -> UInt8) (root : Nat) : Prop :=
  ∀ path frame, LowerPath path -> tableAt memory root path = some frame ->
    ∃ address, lowerSpace memory root address ≠ none ∧
      ∃ depth < 3, path = walkPath address (depth + 1)

/-- Tables stay in use where no frame is taken. -/
theorem TablesUsed.mono (used : TablesUsed machine.memory root)
    (extend : Extends root pool machine after free free)
    (stays : ∀ address, lowerSpace machine.memory root address ≠ none ->
      lowerSpace after.memory root address ≠ none) :
    TablesUsed after.memory root := by
  intro path frame lower reached
  have kept := extend.kept
  rcases extend.fresh frame (Or.inl ⟨path, lower, reached⟩) with
    (⟨other, _, before⟩ | ⟨page, pageLower, isPage⟩) | isFree
  · obtain rfl : other = path :=
      kept.tree _ _ _ (extend.tables other frame before) reached
    obtain ⟨address, isMapped, onWalk⟩ := used other frame lower before
    exact ⟨address, stays address isMapped, onWalk⟩
  · have isPageAfter := extend.pages page frame pageLower isPage
    exact absurd reached ((kept.page page frame pageLower isPageAfter).2.2.2 path)
  · exact absurd isFree (kept.table_notFree reached)

/-! ## Mapping a page -/

/-- A run of `vm_map` or `vm_protect` extends the use of the frames. -/
theorem MapFootprint.extends {taken : List Nat}
    (footprint : MapFootprint root address machine after taken)
    (owned : Owned root pool machine free) (kept : Owned root pool after rest)
    (split : free = taken ++ rest) (lower : LowerHalf address)
    (pageStays : ∀ frame, PageAt machine.memory root (pagePath address) frame ->
      PageAt after.memory root (pagePath address) frame)
    (pageFrom : ∀ frame, PageAt after.memory root (pagePath address) frame ->
      PageAt machine.memory root (pagePath address) frame ∨ frame ∈ taken) :
    Extends root pool machine after free rest where
  kept := kept
  subset := fun frame member => split ▸ List.mem_append_right taken member
  sameCr3 := footprint.sameCr3
  sameWriteProtect := footprint.sameWriteProtect
  upper := fun other upper => footprint.translation_eq fun same =>
    upper ((lowerHalf_congr same).mpr lower)
  reserved := by
    intro frame outside notRoot
    apply footprint.contents frame
    · intro member
      exact outside (owned.freeInPool frame (split ▸ List.mem_append_left rest member))
    · intro depth reached
      cases depth with
      | zero => exact notRoot (Option.some.inj reached).symm
      | succ depth =>
          exact outside (owned.lowerTable _ frame
            ((lowerPath_walkPath address depth).mpr lower) reached).1
  tables := footprint.tables
  pages := by
    intro path frame lowerPath isPage
    by_cases same : path = pagePath address
    · subst same
      exact pageStays frame isPage
    · obtain ⟨size, isLeaf⟩ := isPage
      rw [← footprint.elsewhere path size same] at isLeaf
      exact ⟨size, isLeaf⟩
  roles := by
    intro frame member
    rw [split] at member
    rcases List.mem_append.mp member with taken | stillFree
    · exact Or.inr (footprint.roles frame taken)
    · exact Or.inl stillFree
  fresh := by
    have fromTaken : ∀ frame ∈ taken, frame ∈ free := fun frame member =>
      split ▸ List.mem_append_left rest member
    rintro frame (⟨path, lowerPath, reached⟩ | ⟨path, lowerPath, isPage⟩)
    · rcases footprint.newTables path frame reached with before | ⟨isTaken, _⟩
      · exact Or.inl (Or.inl ⟨path, lowerPath, before⟩)
      · exact Or.inr (fromTaken frame isTaken)
    · by_cases same : path = pagePath address
      · subst same
        rcases pageFrom frame isPage with before | isTaken
        · exact Or.inl (Or.inr ⟨_, lowerPath, before⟩)
        · exact Or.inr (fromTaken frame isTaken)
      · obtain ⟨size, isLeaf⟩ := isPage
        rw [footprint.elsewhere path size same] at isLeaf
        exact Or.inl (Or.inr ⟨path, lowerPath, size, isLeaf⟩)

/-- A page that was mapped by `vm_map` appears zeroed. -/
theorem Mapped.lowerSpace_page {usable writable executable : Bool} {taken : List Nat}
    (mapped : Mapped root address usable writable executable machine after taken 3)
    (kept : Owned root pool after rest) (lower : address < 2 ^ 47)
    (samePage : position / 4096 = address / 4096) :
    lowerSpace after.memory root position =
      some
        { access :=
            { user := usable, writable := writable, executable := executable }
          byte := 0 } := by
  have small : position < 2 ^ 47 := by omega
  obtain ⟨entry, links, leaf, _, _, zeroed, rfl, rfl, noExecute⟩ := mapped.page
  rw [← (pagePath_eq_iff lower small).mpr samePage] at leaf
  rw [kept.lowerSpace_of_leaf small leaf, zeroed _ (Nat.mod_lt _ (by decide))]
  simp [Translation.access, pageTranslation, noExecute]

/-- Other pages stay as they are. -/
theorem MapFootprint.lowerSpace_other {taken : List Nat}
    (footprint : MapFootprint root address machine after taken)
    (owned : Owned root pool machine free) (fromFree : ∀ frame ∈ taken, frame ∈ free)
    (lower : address < 2 ^ 47) (otherPage : position / 4096 ≠ address / 4096) :
    lowerSpace after.memory root position = lowerSpace machine.memory root position := by
  by_cases inside : position < 2 ^ 47
  · apply owned.lowerSpace_congr (footprint.translation_eq
      (mt (pagePath_eq_iff lower inside).mp otherPage))
    intro frame isPage
    exact footprint.page_contents owned fromFree (lowerPath_pagePath inside) isPage
  · rw [lowerSpace_of_le (by omega), lowerSpace_of_le (by omega)]

/-- `vm_map` maps a page and nothing else. -/
theorem Mapped.lowerSpace_eq {usable writable executable : Bool} {taken : List Nat}
    (mapped : Mapped root address usable writable executable machine after taken 3)
    (footprint : MapFootprint root address machine after taken)
    (owned : Owned root pool machine free) (kept : Owned root pool after rest)
    (split : free = taken ++ rest) (lower : address < 2 ^ 47) :
    lowerSpace after.memory root =
      PagedSpace.map 4096 (lowerSpace machine.memory root) address
        { user := usable, writable := writable, executable := executable } := by
  have fromFree : ∀ frame ∈ taken, frame ∈ free := fun frame member =>
    split ▸ List.mem_append_left rest member
  have vacant : lowerSpace machine.memory root address = none := by
    rw [lowerSpace_eq_none_iff lower,
      owned.translation_eq_none_iff (lowerHalf_of_lt lower)]
    exact mapped.vacant
  funext position
  by_cases samePage : position / 4096 = address / 4096
  · rw [PagedSpace.map_vacant vacant samePage,
      mapped.lowerSpace_page kept lower samePage]
  · rw [PagedSpace.map_other samePage]
    exact footprint.lowerSpace_other owned fromFree lower samePage

/-- The tables linked for a page are on the walk to it. -/
theorem Mapped.tablesUsed {usable writable executable : Bool} {taken : List Nat}
    (mapped : Mapped root address usable writable executable machine after taken 3)
    (footprint : MapFootprint root address machine after taken)
    (owned : Owned root pool machine free) (kept : Owned root pool after rest)
    (split : free = taken ++ rest) (lower : address < 2 ^ 47)
    (used : TablesUsed machine.memory root) : TablesUsed after.memory root := by
  intro path frame lowerPath reached
  rcases footprint.newTables path frame reached with before | ⟨_, depth, inner, same⟩
  · obtain ⟨other, otherMapped, onWalk⟩ := used path frame lowerPath before
    refine ⟨other, ?_, onWalk⟩
    rw [mapped.lowerSpace_eq footprint owned kept split lower, Ne,
      PagedSpace.map_eq_none_iff]
    exact fun both => otherMapped both.1
  · refine ⟨address, ?_, depth, inner, same⟩
    rw [mapped.lowerSpace_page kept lower rfl]
    simp

/-- `vm_map` extends the use of the frames.  With enough frames it maps the page
unless it is mapped, takes at most four of them and leaves no table unused. -/
theorem Owned.vmMap_extends
    (usable writable executable : Bool)
    (owned : Owned root pool machine free) (lower : LowerHalf address) :
    let after := (machine.vmMap root address usable writable executable).2
    ∃ rest, Extends root pool machine after free rest ∧
      (address < 2 ^ 47 -> 0 ∉ free -> 4 ≤ free.length ->
        free.length ≤ rest.length + 4 ∧
        (TablesUsed machine.memory root -> TablesUsed after.memory root) ∧
        lowerSpace after.memory root =
          PagedSpace.map 4096 (lowerSpace machine.memory root) address
            { user := usable, writable := writable, executable := executable }) := by
  intro after
  obtain ⟨taken, rest, split, kept, footprint, mapped, refused⟩ :=
    Machine.vmMap_spec usable writable executable owned lower
  have size := congrArg List.length split
  rw [List.length_append] at size
  have bounds := framesNeeded_bounds machine.memory root address
  unfold framesNeeded at bounds
  refine ⟨rest, footprint.extends owned kept split lower ?_ ?_, ?_⟩
  · rintro frame ⟨length, entry, links, leaf, points⟩
    cases outcome : (machine.vmMap root address usable writable executable).1 with
    | true =>
        have vacant := (mapped outcome).vacant
        rw [leaf] at vacant
        cases vacant
    | false => exact ⟨length, entry, links, (refused outcome).same.trans leaf, points⟩
  · rintro frame ⟨length, entry, links, leaf, points⟩
    cases outcome : (machine.vmMap root address usable writable executable).1 with
    | true =>
        obtain ⟨page, above, pageLeaf, _, fromTaken, _⟩ := (mapped outcome).page
        rw [pageLeaf] at leaf
        cases leaf
        exact Or.inr (points ▸ fromTaken)
    | false =>
        exact Or.inl
          ⟨length, entry, links, (refused outcome).same.symm.trans leaf, points⟩
  · intro small noZero enough
    cases outcome : (machine.vmMap root address usable writable executable).1 with
    | true =>
        have isMapped := mapped outcome
        have count := isMapped.count
        exact ⟨by omega, isMapped.tablesUsed footprint owned kept split small,
          isMapped.lowerSpace_eq footprint owned kept split small⟩
    | false =>
        have isRefused := refused outcome
        have isMapped : treeWalk machine.memory root (pagePath address) ≠ .fault := by
          rcases isRefused.reason with isMapped | hasZero | tooFew
          · exact isMapped
          · exact absurd hasZero noZero
          · omega
        have unchanged : after = machine := isRefused.unchanged isMapped
        have keptSame : Owned root pool machine rest := by
          rwa [show (machine.vmMap root address usable writable executable).2 =
            machine from unchanged] at kept
        have same : free = rest := owned.free_unique keptSame
        rw [unchanged, PagedSpace.map_mapped]
        · exact ⟨by rw [same]; omega, id, rfl⟩
        · rw [Ne, lowerSpace_eq_none_iff small,
            owned.translation_eq_none_iff lower]
          exact isMapped

/-! ## Changing permissions -/

/-- Where no page is mapped there are no permissions to change. -/
theorem Owned.protect_vacant {access : Access} (owned : Owned root pool machine free)
    (lower : address < 2 ^ 47)
    (fault : treeWalk machine.memory root (pagePath address) = .fault) :
    PagedSpace.protect 4096 (lowerSpace machine.memory root) address access =
      lowerSpace machine.memory root := by
  funext position
  by_cases samePage : position / 4096 = address / 4096
  · have inside : position < 2 ^ 47 := by omega
    have vacant : lowerSpace machine.memory root position = none := by
      rw [lowerSpace_eq_none_iff inside,
        owned.translation_eq_none_iff (lowerHalf_of_lt inside),
        (pagePath_eq_iff lower inside).mpr samePage]
      exact fault
    rw [PagedSpace.protect_same samePage, vacant]
    rfl
  · rw [PagedSpace.protect_other samePage]

/-- `vm_protect` changes the permissions of a page and nothing else. -/
theorem Protected.lowerSpace_eq {user writable executable : Bool}
    (isProtected : Protected root address user writable executable machine after)
    (owned : Owned root pool machine free) (kept : Owned root pool after free)
    (lower : address < 2 ^ 47) :
    lowerSpace after.memory root =
      PagedSpace.protect 4096 (lowerSpace machine.memory root) address
        { user := user, writable := writable, executable := executable } := by
  obtain ⟨entry, links, leaf, _, leafAfter⟩ := isProtected.page
  have footprint := isProtected.footprint
  funext position
  by_cases samePage : position / 4096 = address / 4096
  · have inside : position < 2 ^ 47 := by omega
    have samePath := (pagePath_eq_iff lower inside).mpr samePage
    rw [PagedSpace.protect_same samePage]
    rw [← samePath] at leaf leafAfter
    rw [owned.lowerSpace_of_leaf inside leaf, kept.lowerSpace_of_leaf inside leafAfter]
    have contents := footprint.page_contents owned (by simp) (lowerPath_pagePath inside)
      ⟨walkPath_length position 4, entry, links, leaf, rfl⟩
    have sameByte := contents (entry.frame + position % 4096)
      (Owned.frameOf_physical entry position)
    rw [show (protectedEntry entry user writable executable).frame = entry.frame
      from rfl, sameByte]
    simp [Translation.access, pageTranslation, protectedEntry]
  · rw [PagedSpace.protect_other samePage]
    exact footprint.lowerSpace_other owned (by simp) lower samePage

/-- `vm_protect` extends the use of the frames and changes permissions. -/
theorem Owned.vmProtect_extends
    (user writable executable : Bool)
    (owned : Owned root pool machine free) (lower : LowerHalf address) :
    let after := (machine.vmProtect root address user writable executable).2
    Extends root pool machine after free free ∧
      (address < 2 ^ 47 -> lowerSpace after.memory root =
        PagedSpace.protect 4096 (lowerSpace machine.memory root) address
          { user := user, writable := writable, executable := executable }) := by
  intro after
  rcases Machine.vmProtect_spec user writable executable owned lower with
    ⟨fault, fails⟩ | ⟨changed, succeeds, kept, isProtected⟩
  · have unchanged : after = machine := congrArg Prod.snd fails
    rw [unchanged]
    exact ⟨Extends.refl owned, fun small => (owned.protect_vacant small fault).symm⟩
  · have isAfter : after = changed := congrArg Prod.snd succeeds
    obtain ⟨entry, links, leaf, _, leafAfter⟩ := isProtected.page
    have footprint := isProtected.footprint
    rw [isAfter]
    refine ⟨footprint.extends owned kept rfl lower ?_ ?_,
      isProtected.lowerSpace_eq owned kept⟩
    · rintro frame ⟨length, other, above, otherLeaf, points⟩
      rw [leaf] at otherLeaf
      cases otherLeaf
      exact ⟨length, _, links, leafAfter, points⟩
    · rintro frame ⟨length, other, above, otherLeaf, points⟩
      rw [leafAfter] at otherLeaf
      cases otherLeaf
      exact Or.inl ⟨length, _, links, leaf, points⟩

/-! ## Storing a byte -/

/-- Where all walks stay the same, the frames keep their roles. -/
theorem Extends.of_treeWalk (kept : Owned root pool after free)
    (sameCr3 : after.cr3 = machine.cr3)
    (sameWriteProtect : after.writeProtect = machine.writeProtect)
    (walks : ∀ path, treeWalk after.memory root path = treeWalk machine.memory root path)
    (reserved : ∀ frame, frame ∉ pool -> frame ≠ root ->
      AgreeOn machine.memory after.memory frame) :
    Extends root pool machine after free free where
  kept := kept
  subset := fun _ member => member
  sameCr3 := sameCr3
  sameWriteProtect := sameWriteProtect
  upper := by
    intro address _
    rw [translation_eq, translation_eq, walks]
  reserved := reserved
  tables := fun path _ reached => (tableAt_congr (walks path)).trans reached
  pages := by
    rintro path frame _ ⟨size, page, above, reached, points⟩
    exact ⟨size, page, above, (walks path).trans reached, points⟩
  roles := fun _ member => Or.inl member
  fresh := by
    rintro frame (⟨path, lower, reached⟩ | ⟨path, lower, size, page, above, reached, points⟩)
    · exact Or.inl (Or.inl ⟨path, lower, (tableAt_congr (walks path)).symm.trans reached⟩)
    · exact Or.inl (Or.inr ⟨path, lower, size, page, above, (walks path).symm.trans reached,
        points⟩)

/-- A store to a mapped address of the lower half. -/
theorem Owned.store_extends {mapped : Translation} (value : UInt8)
    (owned : Owned root pool machine free) (lower : address < 2 ^ 47)
    (translates : translation machine.memory root address = some mapped) :
    let after := { machine with
      memory := Function.update machine.memory mapped.physical value }
    Extends root pool machine after free free ∧
      (∀ path, treeWalk after.memory root path = treeWalk machine.memory root path) ∧
      lowerSpace after.memory root =
        PagedSpace.write (lowerSpace machine.memory root) address 1
          fun _ => value := by
  intro after
  obtain ⟨entry, links, leaf, rfl, isPage⟩ :=
    owned.leaf_of_translation (lowerHalf_of_lt lower) translates
  have lowerPage := lowerPath_pagePath lower
  have elsewhere : ∀ position, position ≠ entry.frame + address % 4096 ->
      after.memory position = machine.memory position :=
    fun position different => Function.update_of_ne different _ _
  have inPage : frameOf (entry.frame + address % 4096) = entry.frame :=
    Owned.frameOf_physical entry address
  have otherFrame : ∀ frame, frame ≠ entry.frame ->
      AgreeOn machine.memory after.memory frame := by
    intro frame different position inFrame
    apply elsewhere
    rintro rfl
    exact different (inFrame.symm.trans inPage)
  have inPages : ∀ position, after.memory position ≠ machine.memory position ->
      ∃ path, LowerPath path ∧ PageAt machine.memory root path (frameOf position) := by
    intro position changed
    obtain rfl : position = entry.frame + address % 4096 := by
      by_contra different
      exact changed (elsewhere position different)
    exact ⟨pagePath address, lowerPage, inPage.symm ▸ isPage⟩
  have walks := owned.treeWalk_store inPages
  have kept : Owned root pool after free := owned.store rfl rfl inPages
  refine ⟨.of_treeWalk kept rfl rfl walks ?_, walks, ?_⟩
  · intro frame outside _
    apply otherFrame
    rintro rfl
    exact outside (owned.page _ _ lowerPage isPage).1
  · funext position
    have sameTranslation : translation after.memory root position =
        translation machine.memory root position := by
      rw [translation_eq, translation_eq, walks]
    by_cases same : position = address
    · subst same
      have leafAfter := (walks (pagePath position)).trans leaf
      rw [PagedSpace.write_inside (by omega) (by omega),
        owned.lowerSpace_of_leaf lower leaf, kept.lowerSpace_of_leaf lower leafAfter]
      simp [after, pageTranslation]
    · rw [PagedSpace.write_outside (by omega)]
      by_cases inside : position < 2 ^ 47
      · rw [lowerSpace_eq inside, lowerSpace_eq inside, sameTranslation]
        apply Option.map_congr
        intro mapped otherTranslates
        obtain ⟨other, above, _, rfl, otherPage⟩ :=
          owned.leaf_of_translation (lowerHalf_of_lt inside) otherTranslates
        rw [show after.memory (pageTranslation other position).physical = _ from
          elsewhere _ ?_]
        intro samePhysical
        have sameFrame : other.frame = entry.frame := by
          rw [← Owned.frameOf_physical other position, samePhysical, inPage]
        rw [sameFrame] at otherPage
        have samePath := owned.pageUnique _ _ _ (lowerPath_pagePath inside) lowerPage
          otherPage isPage
        have samePage := (pagePath_eq_iff lower inside).mp samePath
        have sameOffset : other.frame + position % 4096 =
          entry.frame + address % 4096 := samePhysical
        omega
      · rw [lowerSpace_of_le (by omega), lowerSpace_of_le (by omega)]

end StarterKernel
