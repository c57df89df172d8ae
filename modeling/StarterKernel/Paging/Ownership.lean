import StarterKernel.Paging.Edit
import StarterKernel.Paging.Reclaimed
import Mathlib.Data.Set.Defs

/-!
# Who owns a frame

Every frame of the pool the allocator was given is free, a page table of the
lower half, a page of the lower half, or lost; no frame has two of these roles
at once.  `Owned` is that invariant together with the shape of the lower half:
no large pages, and links that grant every permission, so that a leaf entry
alone decides what its page allows.
-/

namespace StarterKernel

open RadixTree (Slot Walk)

/-- An entry above a leaf that withholds no permission. -/
structure Permissive (entry : PtEntry) : Prop where
  user : entry.user = true
  writable : entry.writable = true
  executable : entry.noExecute = false

/-- The path of a 4 KiB page leads to a leaf that maps the frame. -/
def PageAt (memory : Nat -> UInt8) (root : Nat) (path : List Nat) (frame : Nat) :
    Prop :=
  path.length = 4 ∧
    ∃ entry above, treeWalk memory root path = .leaf (entry :: above) ∧
      entry.frame = frame

/-- A page table or a page of the lower half. -/
def InUse (memory : Nat -> UInt8) (root frame : Nat) : Prop :=
  (∃ path, LowerPath path ∧ tableAt memory root path = some frame) ∨
    ∃ path, LowerPath path ∧ PageAt memory root path frame

/-- The frames of the pool have one role each.  `free` is the freelist. -/
structure Owned
    (root : Nat) (pool : Set Nat) (machine : Machine) (free : List Nat) :
    Prop where
  rootFrame : IsFrame root
  poolFrame : ∀ frame ∈ pool, PoolFrame machine.hhdmBase frame
  freelist : machine.FreelistIs free
  freeInPool : ∀ frame ∈ free, frame ∈ pool
  tree : IsTree machine.memory root
  lowerTable : ∀ path frame, LowerPath path ->
    tableAt machine.memory root path = some frame -> frame ∈ pool ∧ frame ∉ free
  upperTable : ∀ path frame, ¬LowerPath path ->
    tableAt machine.memory root path = some frame -> frame ∉ pool
  smallPages : ∀ path table index, LowerPath path ->
    tableAt machine.memory root path = some table ->
    (entryAt machine.memory table index).pageSize = false
  permissive : ∀ path table entries, LowerPath path ->
    treeWalk machine.memory root path = .table table entries ->
    ∀ entry ∈ entries, Permissive entry
  page : ∀ path frame, LowerPath path -> PageAt machine.memory root path frame ->
    frame ∈ pool ∧ frame ≠ 0 ∧ frame ∉ free ∧
      ∀ above, tableAt machine.memory root above ≠ some frame
  pageUnique : ∀ left right frame, LowerPath left -> LowerPath right ->
    PageAt machine.memory root left frame ->
    PageAt machine.memory root right frame -> left = right

/-- A frame of the pool that has no role. -/
structure Unowned
    (root : Nat) (pool : Set Nat) (machine : Machine) (free : List Nat)
    (fresh : Nat) : Prop where
  inPool : fresh ∈ pool
  notFree : fresh ∉ free
  notTable : ∀ path, tableAt machine.memory root path ≠ some fresh
  notPage : ∀ path, LowerPath path -> ¬PageAt machine.memory root path fresh

variable {root table index fresh frame : Nat} {pool : Set Nat}
variable {machine other : Machine} {free : List Nat} {path : List Nat}
variable {entry : PtEntry} {entries : List PtEntry}

namespace Owned

theorem isFrame (owned : Owned root pool machine free) (member : frame ∈ free) :
    IsFrame frame :=
  (owned.poolFrame frame (owned.freeInPool frame member)).toIsFrame

theorem nodup (owned : Owned root pool machine free) : free.Nodup :=
  owned.freelist.nodup

/-- The freelist is determined by the machine. -/
theorem free_unique {rest : List Nat} (left : Owned root pool machine free)
    (right : Owned root pool machine rest) : free = rest :=
  left.freelist.unique right.freelist
    (fun frame member => left.poolFrame frame (left.freeInPool frame member))
    (fun frame member => right.poolFrame frame (right.freeInPool frame member))

theorem table_notFree (owned : Owned root pool machine free)
    (reached : tableAt machine.memory root path = some frame) : frame ∉ free := by
  by_cases lower : LowerPath path
  · exact (owned.lowerTable path frame lower reached).2
  · intro member
    exact owned.upperTable path frame lower reached
      (owned.freeInPool frame member)

/-! ## The shape of the lower half -/

/-- The slots below the root hold no large page. -/
theorem slot_small (owned : Owned root pool machine free)
    (lower : LowerPath (index :: path)) (below : 0 < path.length)
    (parent : treeWalk machine.memory root path = .table table entries) :
    (entryAt machine.memory table index).pageSize = false :=
  owned.smallPages path table index
    ((lowerPath_cons (List.length_pos_iff.mp below)).mp lower) (tableAt_of_treeWalk parent)

/-- Large pages do not occur in the lower half. -/
theorem leaf_length (owned : Owned root pool machine free)
    (lower : LowerPath path)
    (leaf : treeWalk machine.memory root path = .leaf entries) :
    4 ≤ path.length := by
  induction path generalizing entries with
  | nil => exact absurd lower not_lowerPath_nil
  | cons index path inductionHypothesis =>
      rw [treeWalk_cons] at leaf
      cases parent : treeWalk machine.memory root path with
      | fault => simp [parent, RadixTree.Walk.step] at leaf
      | leaf above =>
          have nonempty : path ≠ [] := by
            rintro rfl
            cases parent
          have := inductionHypothesis ((lowerPath_cons nonempty).mp lower) parent
          simp only [List.length_cons]
          omega
      | table table above =>
          by_contra short
          simp only [List.length_cons] at short
          have notLeaf :
              classify path.length (entryAt machine.memory table index) ≠ .leaf := by
            intro isLeaf
            unfold classify at isLeaf
            split at isLeaf
            · cases isLeaf
            · split at isLeaf
              next last =>
                simp only [Bool.or_eq_true, decide_eq_true_eq,
                  Bool.and_eq_true] at last
                rcases last with deep | ⟨below, large⟩
                · omega
                · rw [owned.slot_small lower below parent] at large
                  cases large
              · cases isLeaf
          rw [parent] at leaf
          simp only [RadixTree.Walk.step] at leaf
          cases slot : classify path.length (entryAt machine.memory table index)
            with
          | absent => simp [slot] at leaf
          | leaf => exact notLeaf slot
          | table next => simp [slot] at leaf

/-- A page of the lower half hangs off a level 1 table. -/
theorem page_parent (owned : Owned root pool machine free)
    (lower : LowerPath (index :: path)) (size : path.length = 3)
    (leaf : treeWalk machine.memory root (index :: path) = .leaf entries) :
    ∃ table above, treeWalk machine.memory root path = .table table above ∧
      (entryAt machine.memory table index).present = true ∧
      entries = entryAt machine.memory table index :: above := by
  have nonempty : path ≠ [] := by
    rintro rfl
    cases size
  have lowerParent := (lowerPath_cons nonempty).mp lower
  rw [treeWalk_cons] at leaf
  cases parent : treeWalk machine.memory root path with
  | fault => simp [parent, RadixTree.Walk.step] at leaf
  | leaf above =>
      have := owned.leaf_length lowerParent parent
      omega
  | table table above =>
      rw [parent] at leaf
      simp only [RadixTree.Walk.step] at leaf
      refine ⟨table, above, rfl, ?_⟩
      cases present : (entryAt machine.memory table index).present with
      | false => simp [classify_of_absent present] at leaf
      | true =>
          rw [classify_of_leaf present (Or.inl size.ge)] at leaf
          simp only [RadixTree.Walk.leaf.injEq] at leaf
          exact ⟨rfl, leaf.symm⟩

/-- A present entry above level 1 of the lower half leads to a table. -/
theorem treeWalk_descend (owned : Owned root pool machine free)
    (lower : LowerPath (index :: path)) (inner : path.length < 3)
    (parent : treeWalk machine.memory root path = .table table entries)
    (present : (entryAt machine.memory table index).present = true) :
    treeWalk machine.memory root (index :: path) =
      .table (entryAt machine.memory table index).frame
        (entryAt machine.memory table index :: entries) := by
  have denotes : classify path.length (entryAt machine.memory table index) =
      .table (entryAt machine.memory table index).frame := by
    apply classify_of_table present
    rintro (deep | ⟨below, large⟩)
    · omega
    · rw [owned.slot_small lower below parent] at large
      cases large
  rw [treeWalk_cons, parent]
  simp only [RadixTree.Walk.step, denotes]

/-- The links to a table of the lower half are permissive, as are the links to
the root. -/
theorem permissive_of_slot (owned : Owned root pool machine free)
    (lower : LowerPath (index :: path))
    (parent : treeWalk machine.memory root path = .table table entries) :
    ∀ entry ∈ entries, Permissive entry := by
  by_cases empty : path = []
  · subst empty
    cases parent
    simp
  · exact owned.permissive path table entries
      ((lowerPath_cons empty).mp lower) parent

/-! ## Changes that keep the tables -/

/-- The invariant depends on the tables and on the freelist only. -/
theorem congr (owned : Owned root pool machine free)
    (sameBase : other.hhdmBase = machine.hhdmBase)
    (sameHead : other.freelist = machine.freelist)
    (agreeTables : ∀ path frame, tableAt machine.memory root path = some frame ->
      AgreeOn machine.memory other.memory frame)
    (agreeFree : ∀ frame ∈ free, AgreeOn machine.memory other.memory frame) :
    Owned root pool other free := by
  have sameWalk : ∀ path, treeWalk other.memory root path =
      treeWalk machine.memory root path := treeWalk_congr owned.rootFrame agreeTables
  have sameTables : ∀ path, tableAt other.memory root path =
      tableAt machine.memory root path := fun path => tableAt_congr (sameWalk path)
  have samePages : ∀ path frame, PageAt other.memory root path frame ↔
      PageAt machine.memory root path frame := by
    intro path frame
    unfold PageAt
    rw [sameWalk]
  refine
    { rootFrame := owned.rootFrame
      poolFrame := ?_
      freelist := owned.freelist.congr (fun _ member => owned.isFrame member)
        sameBase sameHead agreeFree
      freeInPool := owned.freeInPool
      tree := isTree_congr owned.tree sameTables
      lowerTable := ?_
      upperTable := ?_
      smallPages := ?_
      permissive := ?_
      page := ?_
      pageUnique := ?_ }
  · rw [sameBase]
    exact owned.poolFrame
  · simp only [sameTables]
    exact owned.lowerTable
  · simp only [sameTables]
    exact owned.upperTable
  · intro path table index lower reached
    rw [sameTables] at reached
    rw [(agreeTables path table reached).entryAt_eq
      (isFrame_of_tableAt owned.rootFrame reached)]
    exact owned.smallPages path table index lower reached
  · simp only [sameWalk]
    exact owned.permissive
  · simp only [samePages, sameTables]
    exact owned.page
  · simp only [samePages]
    exact owned.pageUnique

/-- Frames may leave the freelist. -/
theorem shrink {rest : List Nat} (owned : Owned root pool machine free)
    (sameBase : other.hhdmBase = machine.hhdmBase)
    (sameMemory : other.memory = machine.memory)
    (freelist : other.FreelistIs rest) (subset : ∀ frame ∈ rest, frame ∈ free) :
    Owned root pool other rest := by
  refine
    { rootFrame := owned.rootFrame
      poolFrame := sameBase ▸ owned.poolFrame
      freelist := freelist
      freeInPool := fun frame member => owned.freeInPool frame (subset frame member)
      tree := sameMemory ▸ owned.tree
      lowerTable := ?_
      upperTable := sameMemory ▸ owned.upperTable
      smallPages := sameMemory ▸ owned.smallPages
      permissive := sameMemory ▸ owned.permissive
      page := ?_
      pageUnique := sameMemory ▸ owned.pageUnique }
  · rw [sameMemory]
    intro path frame lower reached
    obtain ⟨inPool, notFree⟩ := owned.lowerTable path frame lower reached
    exact ⟨inPool, fun member => notFree (subset frame member)⟩
  · rw [sameMemory]
    intro path frame lower isPage
    obtain ⟨inPool, nonzero, notFree, notTable⟩ := owned.page path frame lower isPage
    exact ⟨inPool, nonzero, fun member => notFree (subset frame member), notTable⟩

/-- A frame taken off the freelist has no role. -/
theorem unowned_of_free {rest : List Nat} (owned : Owned root pool machine (fresh :: rest))
    (sameMemory : other.memory = machine.memory) :
    Unowned root pool other rest fresh where
  inPool := owned.freeInPool fresh (by simp)
  notFree := (List.nodup_cons.mp owned.nodup).1
  notTable := by
    rw [sameMemory]
    intro path reached
    exact owned.table_notFree reached (by simp)
  notPage := by
    rw [sameMemory]
    intro path lower isPage
    exact (owned.page path fresh lower isPage).2.2.1 (by simp)

/-! ## Installing a frame -/

theorem freelistIs_installFrame (owned : Owned root pool machine free)
    (unowned : Unowned root pool machine free fresh)
    (parent : treeWalk machine.memory root path = .table table entries)
    (inTable : index < 512) :
    { machine with memory := installFrame machine.memory table index fresh entry
      }.FreelistIs free := by
  have reached : tableAt machine.memory root path = some table :=
    tableAt_of_treeWalk parent
  refine owned.freelist.congr (fun _ member => owned.isFrame member) rfl rfl ?_
  intro frame member
  have notTable : frame ≠ table := by
    rintro rfl
    exact owned.table_notFree reached member
  have notFresh : frame ≠ fresh := by
    rintro rfl
    exact unowned.notFree member
  exact agreeOn_installFrame (isFrame_of_tableAt owned.rootFrame reached) inTable
    (owned.poolFrame fresh unowned.inPool).toIsFrame notTable notFresh

/-- Installing a table installs no page. -/
theorem pageAt_installTable (owned : Owned root pool machine free)
    (unowned : Unowned root pool machine free fresh)
    (parent : treeWalk machine.memory root path = .table table entries)
    (inTable : index < 512)
    (vacant : (entryAt machine.memory table index).present = false)
    (inner : path.length < 3)
    (denotes : classify path.length entry = .table fresh) (query : List Nat) (frame : Nat) :
    PageAt (installFrame machine.memory table index fresh entry) root query frame ↔
      PageAt machine.memory root query frame := by
  have freshFrame := (owned.poolFrame fresh unowned.inPool).toIsFrame
  obtain ⟨_, elsewhere⟩ := treeWalk_installTable owned.rootFrame owned.tree
    parent inTable vacant freshFrame unowned.notTable denotes
  unfold PageAt
  refine and_congr_right fun size => ?_
  rw [elsewhere]
  rintro rfl
  simp only [List.length_cons] at size
  omega

/-- Neither the new entry nor the cleared frame holds a large page. -/
theorem smallPages_installTable (owned : Owned root pool machine free)
    (unowned : Unowned root pool machine free fresh)
    (parent : treeWalk machine.memory root path = .table table entries)
    (inTable : index < 512)
    (small : path ≠ [] -> entry.pageSize = false) {query : List Nat} {other : Nat}
    (position : Nat) (lowerQuery : LowerPath query)
    (reached : tableAt machine.memory root query = some other) :
    (entryAt (installFrame machine.memory table index fresh entry) other
      position).pageSize = false := by
  have tableReached : tableAt machine.memory root path = some table :=
    tableAt_of_treeWalk parent
  have notFresh : other ≠ fresh := by
    rintro rfl
    exact unowned.notTable query reached
  rw [entryAt_installFrame (isFrame_of_tableAt owned.rootFrame tableReached) inTable
    (owned.poolFrame fresh unowned.inPool).toIsFrame
    (isFrame_of_tableAt owned.rootFrame reached) notFresh]
  split
  next same =>
    obtain ⟨rfl, rfl⟩ := same
    obtain rfl : query = path := owned.tree _ _ _ reached tableReached
    apply small
    rintro rfl
    exact not_lowerPath_nil lowerQuery
  next => exact owned.smallPages query other position lowerQuery reached

/-- A frame without a role becomes a page table of the lower half. -/
theorem link (owned : Owned root pool machine free)
    (unowned : Unowned root pool machine free fresh)
    (lower : LowerPath (index :: path))
    (parent : treeWalk machine.memory root path = .table table entries)
    (inTable : index < 512)
    (vacant : (entryAt machine.memory table index).present = false)
    (inner : path.length < 3)
    (denotes : classify path.length entry = .table fresh)
    (small : path ≠ [] -> entry.pageSize = false)
    (isPermissive : Permissive entry) :
    Owned root pool
      { machine with memory := installFrame machine.memory table index fresh entry }
      free := by
  have freshFrame := (owned.poolFrame fresh unowned.inPool).toIsFrame
  have tableReached : tableAt machine.memory root path = some table :=
    tableAt_of_treeWalk parent
  have tableFrame := isFrame_of_tableAt owned.rootFrame tableReached
  have different : fresh ≠ table := by
    rintro rfl
    exact unowned.notTable path tableReached
  obtain ⟨slotWalk, elsewhere⟩ := treeWalk_installTable owned.rootFrame owned.tree
    parent inTable vacant freshFrame unowned.notTable denotes
  have tables := tableAt_installTable owned.rootFrame owned.tree parent inTable
    vacant freshFrame unowned.notTable denotes
  have samePages := owned.pageAt_installTable unowned parent inTable vacant inner denotes
  refine
    { rootFrame := owned.rootFrame
      poolFrame := owned.poolFrame
      freelist := owned.freelistIs_installFrame unowned parent inTable
      freeInPool := owned.freeInPool
      tree := isTree_installTable owned.rootFrame owned.tree parent inTable vacant
        freshFrame unowned.notTable denotes
      lowerTable := ?_
      upperTable := ?_
      smallPages := ?_
      permissive := ?_
      page := ?_
      pageUnique := ?_ }
  · intro query frame lowerQuery reached
    rw [tables] at reached
    split at reached
    · obtain rfl := Option.some.inj reached
      exact ⟨unowned.inPool, unowned.notFree⟩
    · exact owned.lowerTable query frame lowerQuery reached
  · intro query frame upper reached
    rw [tables, if_neg (by rintro rfl; exact upper lower)] at reached
    exact owned.upperTable query frame upper reached
  · intro query other position lowerQuery reached
    rw [tables] at reached
    split at reached
    · obtain rfl := Option.some.inj reached
      rw [entryAt_installFrame_fresh tableFrame inTable freshFrame different]
      rfl
    · exact owned.smallPages_installTable unowned parent inTable small position lowerQuery
        reached
  · intro query other above lowerQuery reached
    by_cases atSlot : query = index :: path
    · subst atSlot
      rw [slotWalk] at reached
      cases reached
      simp only [List.mem_cons, forall_eq_or_imp]
      exact ⟨isPermissive, owned.permissive_of_slot lower parent⟩
    · rw [elsewhere query atSlot] at reached
      exact owned.permissive query other above lowerQuery reached
  · intro query frame lowerQuery isPage
    rw [samePages] at isPage
    obtain ⟨inPool, nonzero, notFree, notTable⟩ :=
      owned.page query frame lowerQuery isPage
    refine ⟨inPool, nonzero, notFree, ?_⟩
    intro above reached
    rw [tables] at reached
    split at reached
    · obtain rfl := Option.some.inj reached
      exact unowned.notPage query lowerQuery isPage
    · exact notTable above reached
  · intro left right frame lowerLeft lowerRight leftPage rightPage
    rw [samePages] at leftPage rightPage
    exact owned.pageUnique left right frame lowerLeft lowerRight leftPage rightPage

/-! ## Setting a leaf -/

/-- Changing one leaf changes one page. -/
theorem pageAt_setLeaf (size : path.length = 3)
    (slotWalk : treeWalk other.memory root (index :: path) = .leaf (entry :: entries))
    (elsewhere : ∀ query, ¬(index :: path) <:+ query ->
      treeWalk other.memory root query = treeWalk machine.memory root query)
    {query : List Nat} (isPage : PageAt other.memory root query frame) :
    query = index :: path ∧ frame = entry.frame ∨
      query ≠ index :: path ∧ PageAt machine.memory root query frame := by
  obtain ⟨querySize, leaf, above, reached, points⟩ := isPage
  by_cases atSlot : query = index :: path
  · subst atSlot
    rw [slotWalk] at reached
    cases reached
    exact Or.inl ⟨rfl, points.symm⟩
  · have avoids : ¬(index :: path) <:+ query := by
      intro isSuffix
      apply atSlot
      refine (isSuffix.eq_of_length ?_).symm
      rw [List.length_cons, size, querySize]
    rw [elsewhere query avoids] at reached
    exact Or.inr ⟨atSlot, querySize, leaf, above, reached, points⟩

/-- Changing one leaf of the lower half keeps the invariant if the page it maps
has no other role. -/
theorem setLeaf (owned : Owned root pool machine free)
    (sameBase : other.hhdmBase = machine.hhdmBase)
    (freelist : other.FreelistIs free)
    (size : path.length = 3)
    (sameTables : ∀ query, tableAt other.memory root query =
      tableAt machine.memory root query)
    (slotWalk : treeWalk other.memory root (index :: path) =
      .leaf (entry :: entries))
    (elsewhere : ∀ query, ¬(index :: path) <:+ query ->
      treeWalk other.memory root query = treeWalk machine.memory root query)
    (smallPages : ∀ query table position, LowerPath query ->
      tableAt machine.memory root query = some table ->
      (entryAt other.memory table position).pageSize = false)
    (inPool : entry.frame ∈ pool) (nonzero : entry.frame ≠ 0)
    (notFree : entry.frame ∉ free)
    (notTable : ∀ above, tableAt machine.memory root above ≠ some entry.frame)
    (onlyHere : ∀ query, LowerPath query ->
      PageAt machine.memory root query entry.frame -> query = index :: path) :
    Owned root pool other free := by
  have pages {query : List Nat} {frame : Nat} (isPage : PageAt other.memory root query frame) :=
    pageAt_setLeaf size slotWalk elsewhere isPage
  refine
    { rootFrame := owned.rootFrame
      poolFrame := ?_
      freelist := freelist
      freeInPool := owned.freeInPool
      tree := isTree_congr owned.tree sameTables
      lowerTable := ?_
      upperTable := ?_
      smallPages := ?_
      permissive := ?_
      page := ?_
      pageUnique := ?_ }
  · rw [sameBase]
    exact owned.poolFrame
  · simp only [sameTables]
    exact owned.lowerTable
  · simp only [sameTables]
    exact owned.upperTable
  · simp only [sameTables]
    exact smallPages
  · intro query table above lower reached
    by_cases through : (index :: path) <:+ query
    · obtain ⟨below, rfl⟩ := through
      have isLeaf := RadixTree.walk_append_of_leaf slotWalk below
      unfold treeWalk at reached
      rw [isLeaf] at reached
      cases reached
    · rw [elsewhere query through] at reached
      exact owned.permissive query table above lower reached
  · intro query frame lower isPage
    simp only [sameTables]
    rcases pages isPage with ⟨rfl, rfl⟩ | ⟨_, before⟩
    · exact ⟨inPool, nonzero, notFree, notTable⟩
    · exact owned.page query frame lower before
  · intro left right frame lowerLeft lowerRight leftPage rightPage
    rcases pages leftPage with ⟨rfl, rfl⟩ | ⟨leftElsewhere, leftBefore⟩ <;>
      rcases pages rightPage with ⟨rfl, _⟩ | ⟨rightElsewhere, rightBefore⟩
    · rfl
    · exact (onlyHere right lowerRight rightBefore).symm
    · subst_vars
      exact onlyHere left lowerLeft leftBefore
    · exact owned.pageUnique left right frame lowerLeft lowerRight leftBefore
        rightBefore

theorem no_table_of_vacant
    (parent : treeWalk machine.memory root path = .table table entries)
    (vacant : (entryAt machine.memory table index).present = false) :
    ∀ frame above,
      treeWalk machine.memory root (index :: path) ≠ .table frame above := by
  rw [treeWalk_of_absent parent vacant]
  simp

/-- A frame without a role becomes a page of the lower half. -/
theorem map (owned : Owned root pool machine free)
    (unowned : Unowned root pool machine free fresh) (nonzero : fresh ≠ 0)
    (size : path.length = 3)
    (parent : treeWalk machine.memory root path = .table table entries)
    (inTable : index < 512)
    (vacant : (entryAt machine.memory table index).present = false)
    (present : entry.present = true) (points : entry.frame = fresh)
    (small : entry.pageSize = false) :
    Owned root pool
      { machine with memory := installFrame machine.memory table index fresh entry }
      free := by
  have freshFrame := (owned.poolFrame fresh unowned.inPool).toIsFrame
  have tableReached : tableAt machine.memory root path = some table :=
    tableAt_of_treeWalk parent
  have tableFrame := isFrame_of_tableAt owned.rootFrame tableReached
  have denotes : classify path.length entry = .leaf :=
    classify_of_leaf present (Or.inl size.ge)
  have noTable := no_table_of_vacant parent vacant
  obtain ⟨slotWalk, elsewhere⟩ := treeWalk_installLeaf owned.rootFrame owned.tree
    parent inTable freshFrame unowned.notTable denotes
  subst points
  refine owned.setLeaf rfl (owned.freelistIs_installFrame unowned parent inTable)
    size
    (tableAt_installLeaf owned.rootFrame owned.tree parent inTable freshFrame
      unowned.notTable denotes noTable)
    slotWalk elsewhere ?_ unowned.inPool nonzero unowned.notFree unowned.notTable ?_
  · intro query other position lowerQuery reached
    have notFresh : other ≠ entry.frame := by
      rintro rfl
      exact unowned.notTable query reached
    rw [entryAt_installFrame tableFrame inTable freshFrame
      (isFrame_of_tableAt owned.rootFrame reached) notFresh]
    split
    next => exact small
    next => exact owned.smallPages query other position lowerQuery reached
  · intro query lowerQuery isPage
    exact absurd isPage (unowned.notPage query lowerQuery)

/-- The permissions of a page of the lower half may change. -/
theorem protect (owned : Owned root pool machine free)
    (lower : LowerPath (index :: path)) (size : path.length = 3)
    (parent : treeWalk machine.memory root path = .table table entries)
    (inTable : index < 512)
    (mapped : (entryAt machine.memory table index).present = true)
    (present : entry.present = true)
    (points : entry.frame = (entryAt machine.memory table index).frame)
    (small : entry.pageSize = false) :
    Owned root pool
      { machine with memory := writeEntry machine.memory table index entry }
      free := by
  have tableReached : tableAt machine.memory root path = some table :=
    tableAt_of_treeWalk parent
  have tableFrame := isFrame_of_tableAt owned.rootFrame tableReached
  have denotes : classify path.length entry = .leaf :=
    classify_of_leaf present (Or.inl size.ge)
  have before : treeWalk machine.memory root (index :: path) =
      .leaf (entryAt machine.memory table index :: entries) := by
    rw [treeWalk_cons, parent]
    simp only [RadixTree.Walk.step, classify_of_leaf mapped (Or.inl size.ge)]
  have isPage : PageAt machine.memory root (index :: path) entry.frame :=
    ⟨by rw [List.length_cons, size], _, _, before, points.symm⟩
  obtain ⟨inPool, nonzero, notFree, notTable⟩ :=
    owned.page (index :: path) entry.frame lower isPage
  have noTable : ∀ frame above,
      treeWalk machine.memory root (index :: path) ≠ .table frame above := by
    rw [before]
    simp
  obtain ⟨slotWalk, elsewhere⟩ := treeWalk_writeLeaf owned.rootFrame owned.tree
    parent inTable denotes
  refine owned.setLeaf rfl ?_ size
    (tableAt_writeLeaf owned.rootFrame owned.tree parent inTable denotes noTable)
    slotWalk elsewhere ?_ inPool nonzero notFree notTable ?_
  · refine owned.freelist.congr (fun _ member => owned.isFrame member) rfl rfl ?_
    intro frame member
    have different : frame ≠ table := by
      rintro rfl
      exact owned.table_notFree tableReached member
    exact agreeOn_writeEntry tableFrame inTable different
  · intro query other position lowerQuery reached
    rw [entryAt_writeEntry tableFrame inTable
      (isFrame_of_tableAt owned.rootFrame reached)]
    split
    next => exact small
    next => exact owned.smallPages query other position lowerQuery reached
  · intro query lowerQuery otherPage
    exact owned.pageUnique query (index :: path) entry.frame lowerQuery lower
      otherPage isPage

end Owned

/-! ## Reclaiming the lower half -/

/-- `unmap_lower_half` establishes the invariant over any tree whose lower tables
belong to the pool. -/
theorem owned_unmapLowerHalf
    (rootFrame : IsFrame root)
    (poolFrame : ∀ frame ∈ pool, PoolFrame machine.hhdmBase frame)
    (freelist : machine.FreelistIs free)
    (freeInPool : ∀ frame ∈ free, frame ∈ pool)
    (tree : IsTree machine.memory root)
    (lowerTable : ∀ path frame, LowerPath path ->
      tableAt machine.memory root path = some frame -> frame ∈ pool ∧ frame ∉ free)
    (upperTable : ∀ path frame, ¬LowerPath path ->
      tableAt machine.memory root path = some frame -> frame ∉ pool) :
    Owned root pool (machine.unmapLowerHalf root)
      ((lowerTables machine.memory root).reverse ++ free) := by
  have lowerInPool : ∀ frame ∈ lowerTables machine.memory root,
      frame ∈ pool ∧ frame ∉ free := by
    intro frame member
    obtain ⟨path, lower, reached⟩ := mem_lowerTables.mp member
    exact lowerTable path frame lower reached
  have rootNotFree : root ∉ free := fun member =>
    upperTable [] root not_lowerPath_nil RadixTree.tableAt_nil
      (freeInPool root member)
  have tables : ∀ path frame, LowerPath path ->
      tableAt (machine.unmapLowerHalf root).memory root path ≠ some frame := by
    intro path frame lower reached
    exact ((Machine.tableAt_unmapLowerHalf rootFrame tree path).mp reached).1 lower
  have pages : ∀ path frame, LowerPath path ->
      ¬PageAt (machine.unmapLowerHalf root).memory root path frame := by
    rintro path frame lower ⟨_, entry, above, reached, _⟩
    rw [Machine.treeWalk_unmapLowerHalf_of_lower rootFrame tree lower] at reached
    cases reached
  refine
    { rootFrame := rootFrame
      poolFrame := ?_
      freelist := Machine.freelistIs_unmapLowerHalf rootFrame tree freelist
        (fun frame member =>
          (poolFrame frame (freeInPool frame member)).toIsFrame)
        rootNotFree
        (fun frame member =>
          (poolFrame frame (lowerInPool frame member).1).toDirectMapped)
        (fun frame member => (lowerInPool frame member).2)
      freeInPool := ?_
      tree := Machine.isTree_unmapLowerHalf rootFrame tree
      lowerTable := fun path frame lower reached =>
        absurd reached (tables path frame lower)
      upperTable := ?_
      smallPages := fun path table _ lower reached =>
        absurd reached (tables path table lower)
      permissive := ?_
      page := fun path frame lower isPage => absurd isPage (pages path frame lower)
      pageUnique := fun left _ frame lower _ isPage _ =>
        absurd isPage (pages left frame lower) }
  · rw [Machine.unmapLowerHalf_hhdmBase rootFrame tree]
    exact poolFrame
  · intro frame member
    rcases List.mem_append.mp member with freed | stillFree
    · exact (lowerInPool frame (List.mem_reverse.mp freed)).1
    · exact freeInPool frame stillFree
  · intro path frame upper reached
    exact upperTable path frame upper
      ((Machine.tableAt_unmapLowerHalf rootFrame tree path).mp reached).2
  · intro path table entries lower reached
    rw [Machine.treeWalk_unmapLowerHalf_of_lower rootFrame tree lower] at reached
    cases reached

/-- `unmap_lower_half` moves the tables of the lower half to the freelist. -/
theorem Owned.unmapLowerHalf (owned : Owned root pool machine free) :
    Owned root pool (machine.unmapLowerHalf root)
      ((lowerTables machine.memory root).reverse ++ free) :=
  owned_unmapLowerHalf owned.rootFrame owned.poolFrame owned.freelist
    owned.freeInPool owned.tree owned.lowerTable owned.upperTable

end StarterKernel
