import Mathlib.Data.List.Nodup
import Mathlib.Data.List.Infix
import Mathlib.Data.List.Flatten

/-!
# Radix trees of tables

A radix tree resolves a list of indices through a chain of tables.  The tables
sit in a store that maps a frame and an index to an entry, and a classifier
says what an entry at a given depth denotes: nothing, a leaf, or the frame of a
table one level further down.

Paths list the deepest index first, so the table above `index :: path` is the
table at `path` and recursion on a path follows the walk that resolves it.
-/

namespace RadixTree

/-- What an entry of a table denotes. -/
inductive Slot (α : Type)
  | absent
  | leaf
  | table (frame : α)
  deriving DecidableEq

/-- How far a walk gets, with the entries it went through, deepest first. -/
inductive Walk (α E : Type)
  | fault
  | leaf (entries : List E)
  | table (frame : α) (entries : List E)

variable {α ι E σ : Type}

/-- Continue a walk through one more entry. -/
def Walk.step
    (classify : Nat -> E -> Slot α)
    (depth : Nat) (read : α -> E) : Walk α E -> Walk α E
  | .fault => .fault
  | .leaf entries => .leaf entries
  | .table frame entries =>
      match classify depth (read frame) with
      | .absent => .fault
      | .leaf => .leaf (read frame :: entries)
      | .table next => .table next (read frame :: entries)

/-- The frame of the table a walk ends in. -/
def Walk.table? : Walk α E -> Option α
  | .table frame _ => some frame
  | _ => none

variable (classify : Nat -> E -> Slot α) (entry other : α -> ι -> E) (root : α)

/-- Resolve a path from the root. -/
def walk : List ι -> Walk α E
  | [] => .table root []
  | index :: path =>
      (walk path).step classify path.length fun frame => entry frame index

/-- The table reached by a path, if the path ends in a table. -/
def tableAt (path : List ι) : Option α :=
  (walk classify entry root path).table?

/-- No table is reached by two paths. -/
def UniqueTables : Prop :=
  ∀ left right frame,
    tableAt classify entry root left = some frame ->
    tableAt classify entry root right = some frame ->
    left = right

/-- The tables below a table, each after the tables below it. -/
def postorder (indices : List ι) : (levels depth : Nat) -> α -> List α
  | 0, _, _ => []
  | levels + 1, depth, frame =>
      indices.flatMap fun index =>
        match classify depth (entry frame index) with
        | .table next => postorder indices levels (depth + 1) next ++ [next]
        | _ => []

/-- The tables below one slot of a table, in postorder. -/
def slotTables (indices : List ι) (levels depth : Nat) (frame : α) (index : ι) :
    List α :=
  match classify depth (entry frame index) with
  | .table next =>
      postorder classify entry indices levels (depth + 1) next ++ [next]
  | _ => []

variable {classify entry other root}

theorem postorder_succ {indices : List ι} {levels depth : Nat} {frame : α} :
    postorder classify entry indices (levels + 1) depth frame =
      indices.flatMap
        (slotTables classify entry indices levels depth frame) := rfl

/-- A slot holds a table and the tables below it, or nothing. -/
theorem mem_slotTables
    {indices : List ι} {levels depth : Nat} {frame member : α} {index : ι} :
    member ∈ slotTables classify entry indices levels depth frame index ↔
      ∃ next, classify depth (entry frame index) = .table next ∧
        (member ∈ postorder classify entry indices levels (depth + 1) next ∨
          member = next) := by
  unfold slotTables
  cases slot : classify depth (entry frame index) <;> simp

@[simp] theorem walk_nil : walk classify entry root [] = .table root [] := rfl

theorem walk_cons {index : ι} {path : List ι} :
    walk classify entry root (index :: path) =
      (walk classify entry root path).step classify path.length
        fun frame => entry frame index := rfl

@[simp] theorem tableAt_nil : tableAt classify entry root [] = some root := rfl

theorem tableAt_eq_some {path : List ι} {frame : α} :
    tableAt classify entry root path = some frame ↔
      ∃ entries, walk classify entry root path = .table frame entries := by
  unfold tableAt
  cases walk classify entry root path <;> simp [Walk.table?]

/-- A table is referenced by an entry of the table above it. -/
theorem tableAt_cons {index : ι} {path : List ι} {frame : α} :
    tableAt classify entry root (index :: path) = some frame ↔
      ∃ parent, tableAt classify entry root path = some parent ∧
        classify path.length (entry parent index) = .table frame := by
  unfold tableAt
  rw [walk_cons]
  cases walk classify entry root path with
  | fault => simp [Walk.step, Walk.table?]
  | leaf entries => simp [Walk.step, Walk.table?]
  | table parent entries =>
      simp only [Walk.step, Walk.table?]
      cases slot : classify path.length (entry parent index) <;> simp [slot]

theorem tableAt_of_append {below path : List ι} {frame : α}
    (reached : tableAt classify entry root (below ++ path) = some frame) :
    ∃ parent, tableAt classify entry root path = some parent := by
  induction below generalizing frame with
  | nil => exact ⟨frame, reached⟩
  | cons index below inductionHypothesis =>
      rw [List.cons_append, tableAt_cons] at reached
      obtain ⟨parent, parentReached, _⟩ := reached
      exact inductionHypothesis parentReached

/-- A walk that ends in a table went through one entry for each index. -/
theorem length_of_walk {path : List ι} {frame : α} {entries : List E}
    (reached : walk classify entry root path = .table frame entries) :
    entries.length = path.length := by
  induction path generalizing frame entries with
  | nil =>
      cases reached
      rfl
  | cons index path inductionHypothesis =>
      rw [walk_cons] at reached
      cases parent : walk classify entry root path with
      | fault => simp [parent, Walk.step] at reached
      | leaf above => simp [parent, Walk.step] at reached
      | table table above =>
          rw [parent] at reached
          simp only [Walk.step] at reached
          cases slot : classify path.length (entry table index) with
          | absent => simp [slot] at reached
          | leaf => simp [slot] at reached
          | table next =>
              simp only [slot, Walk.table.injEq] at reached
              rw [← reached.2, List.length_cons, List.length_cons,
                inductionHypothesis parent]

/-- A walk that ends in a leaf went through an entry. -/
theorem entries_of_leaf {path : List ι} {entries : List E}
    (leaf : walk classify entry root path = .leaf entries) :
    ∃ last above, entries = last :: above := by
  induction path with
  | nil => cases leaf
  | cons index path inductionHypothesis =>
      rw [walk_cons] at leaf
      cases parent : walk classify entry root path with
      | fault => simp [parent, Walk.step] at leaf
      | leaf above =>
          rw [parent] at leaf
          exact inductionHypothesis (parent.trans leaf)
      | table table above =>
          rw [parent] at leaf
          simp only [Walk.step] at leaf
          cases slot : classify path.length (entry table index) with
          | absent => simp [slot] at leaf
          | table next => simp [slot] at leaf
          | leaf =>
              simp only [slot, Walk.leaf.injEq] at leaf
              exact ⟨_, above, leaf.symm⟩

/-- Below a fault a walk stays faulted. -/
theorem walk_append_of_fault {path : List ι}
    (fault : walk classify entry root path = .fault) (below : List ι) :
    walk classify entry root (below ++ path) = .fault := by
  induction below with
  | nil => exact fault
  | cons index below inductionHypothesis =>
      rw [List.cons_append, walk_cons, inductionHypothesis]
      rfl

/-- Below a leaf a walk stays at that leaf. -/
theorem walk_append_of_leaf {path : List ι} {entries : List E}
    (leaf : walk classify entry root path = .leaf entries) (below : List ι) :
    walk classify entry root (below ++ path) = .leaf entries := by
  induction below with
  | nil => exact leaf
  | cons index below inductionHypothesis =>
      rw [List.cons_append, walk_cons, inductionHypothesis]
      rfl

/-! ## Changing the entries of a tree -/

/-- A walk only depends on the entries it goes through. -/
theorem walk_congr {path : List ι}
    (agree : ∀ index above frame, (index :: above) <:+ path ->
      tableAt classify entry root above = some frame ->
      other frame index = entry frame index) :
    walk classify other root path = walk classify entry root path := by
  induction path with
  | nil => rfl
  | cons index path inductionHypothesis =>
      have prefixAgrees := inductionHypothesis fun i above frame isSuffix =>
        agree i above frame (isSuffix.trans (List.suffix_cons index path))
      rw [walk_cons, walk_cons, prefixAgrees]
      cases reached : walk classify entry root path with
      | fault => rfl
      | leaf entries => rfl
      | table frame entries =>
          have same := agree index path frame (List.suffix_refl _)
            (tableAt_eq_some.mpr ⟨entries, reached⟩)
          simp only [Walk.step, same]

/-- `other` differs from `entry` in the slot at one path only, as far as the
tables of the tree are concerned. -/
def AgreeOff
    (classify : Nat -> E -> Slot α) (entry other : α -> ι -> E) (root : α)
    (slot : List ι) : Prop :=
  ∀ index above frame,
    tableAt classify entry root above = some frame ->
    index :: above ≠ slot ->
    other frame index = entry frame index

/-- In a tree with unique tables, changing one entry of one table changes one
slot. -/
theorem AgreeOff.of_frame
    {index : ι} {path : List ι} {frame : α}
    (unique : UniqueTables classify entry root)
    (reached : tableAt classify entry root path = some frame)
    (agree : ∀ table position,
      (∃ above, tableAt classify entry root above = some table) ->
      (table ≠ frame ∨ position ≠ index) ->
      other table position = entry table position) :
    AgreeOff classify entry other root (index :: path) := by
  intro position above table tableReached different
  apply agree table position ⟨above, tableReached⟩
  by_contra same
  simp only [not_or, not_not] at same
  obtain ⟨rfl, rfl⟩ := same
  exact different (by rw [unique above path table tableReached reached])

/-- Walks that avoid the changed slot are unchanged. -/
theorem AgreeOff.walk_eq {slot path : List ι}
    (agree : AgreeOff classify entry other root slot)
    (avoids : ¬slot <:+ path) :
    walk classify other root path = walk classify entry root path := by
  apply walk_congr
  intro index above frame isSuffix reached
  apply agree index above frame reached
  intro same
  exact avoids (same ▸ isSuffix)

theorem not_suffix_of_cons {index : ι} {path : List ι} :
    ¬(index :: path) <:+ path := by
  intro isSuffix
  have tooLong := isSuffix.length_le
  simp only [List.length_cons] at tooLong
  omega

/-- The walk to the changed slot goes through the new entry. -/
theorem AgreeOff.walk_slot {index : ι} {path : List ι}
    (agree : AgreeOff classify entry other root (index :: path)) :
    walk classify other root (index :: path) =
      (walk classify entry root path).step classify path.length
        fun frame => other frame index := by
  rw [walk_cons, agree.walk_eq not_suffix_of_cons]

/-- Linking an empty table into a vacant slot adds one table and changes no
other walk. -/
theorem walk_link
    {index : ι} {path : List ι} {frame fresh : α} {entries : List E}
    (agree : AgreeOff classify entry other root (index :: path))
    (parent : walk classify entry root path = .table frame entries)
    (vacant : walk classify entry root (index :: path) = .fault)
    (linked : classify path.length (other frame index) = .table fresh)
    (empty : ∀ position,
      classify (path.length + 1) (other fresh position) = .absent) :
    walk classify other root (index :: path) =
        .table fresh (other frame index :: entries) ∧
      ∀ query, query ≠ index :: path ->
        walk classify other root query = walk classify entry root query := by
  have slotWalk : walk classify other root (index :: path) =
      .table fresh (other frame index :: entries) := by
    rw [agree.walk_slot, parent]
    simp only [Walk.step, linked]
  refine ⟨slotWalk, ?_⟩
  intro query different
  by_cases through : (index :: path) <:+ query
  · obtain ⟨below, rfl⟩ := through
    rw [walk_append_of_fault vacant]
    cases below using List.reverseRecOn with
    | nil => exact absurd rfl different
    | append_singleton below position =>
        rw [List.append_assoc]
        apply walk_append_of_fault
        rw [List.singleton_append, walk_cons, slotWalk]
        simp only [Walk.step, List.length_cons, empty position]
  · exact agree.walk_eq through

/-- After linking a fresh table the tables are the old ones and the fresh one. -/
theorem tableAt_link [DecidableEq ι] {slot : List ι} {fresh : α} {entries : List E}
    (slotWalk : walk classify other root slot = .table fresh entries)
    (elsewhere : ∀ query, query ≠ slot ->
      walk classify other root query = walk classify entry root query)
    (query : List ι) :
    tableAt classify other root query =
      if query = slot then some fresh else tableAt classify entry root query := by
  unfold tableAt
  split
  next same => rw [same, slotWalk]; rfl
  next different => rw [elsewhere query different]

/-- Linking a fresh table keeps tables unique. -/
theorem UniqueTables.link [DecidableEq ι] {slot : List ι} {fresh : α}
    (unique : UniqueTables classify entry root)
    (isFresh : ∀ path, tableAt classify entry root path ≠ some fresh)
    (tables : ∀ query, tableAt classify other root query =
      if query = slot then some fresh else tableAt classify entry root query) :
    UniqueTables classify other root := by
  intro left right frame leftReached rightReached
  rw [tables] at leftReached rightReached
  split at leftReached <;> split at rightReached
  next leftIs rightIs => rw [leftIs, rightIs]
  next =>
    rw [← leftReached] at rightReached
    exact absurd rightReached (isFresh right)
  next =>
    rw [← rightReached] at leftReached
    exact absurd leftReached (isFresh left)
  next => exact unique left right frame leftReached rightReached

/-- Replacing what is not a table by a leaf changes no table. -/
theorem tableAt_of_leaf {slot : List ι} {entries : List E}
    (agree : AgreeOff classify entry other root slot)
    (noTable : ∀ frame entries,
      walk classify entry root slot ≠ .table frame entries)
    (slotWalk : walk classify other root slot = .leaf entries)
    (query : List ι) :
    tableAt classify other root query = tableAt classify entry root query := by
  by_cases through : slot <:+ query
  · obtain ⟨below, rfl⟩ := through
    unfold tableAt
    rw [walk_append_of_leaf slotWalk]
    cases before : walk classify entry root slot with
    | fault => rw [walk_append_of_fault before]; rfl
    | leaf entries => rw [walk_append_of_leaf before]; rfl
    | table frame entries => exact absurd before (noTable frame entries)
  · unfold tableAt
    rw [agree.walk_eq through]

/-! ## Enumerating and reclaiming the tables below a table -/

private theorem mem_slotTables_of_mem_postorder
    {indices : List ι} {levels : Nat} {path : List ι} {frame member : α} {index : ι}
    (reached : tableAt classify entry root path = some frame)
    (below : ∀ next, tableAt classify entry root (index :: path) = some next ->
      (member ∈ postorder classify entry indices levels (index :: path).length next ↔
        ∃ rest, rest ≠ [] ∧ rest.length ≤ levels ∧
          tableAt classify entry root (rest ++ index :: path) = some member)) :
    member ∈ slotTables classify entry indices levels path.length frame index ↔
      ∃ rest, rest.length ≤ levels ∧
        tableAt classify entry root (rest ++ index :: path) = some member := by
  rw [mem_slotTables]
  constructor
  · rintro ⟨next, slot, inSlot⟩
    have nextReached : tableAt classify entry root (index :: path) = some next :=
      tableAt_cons.mpr ⟨frame, reached, slot⟩
    rcases inSlot with deeper | rfl
    · obtain ⟨rest, _, bound, restReached⟩ := (below next nextReached).mp deeper
      exact ⟨rest, bound, restReached⟩
    · exact ⟨[], by simp, nextReached⟩
  · rintro ⟨rest, bound, restReached⟩
    obtain ⟨next, nextReached⟩ := tableAt_of_append restReached
    obtain ⟨parent, parentReached, slot⟩ := tableAt_cons.mp nextReached
    obtain rfl : parent = frame :=
      Option.some.inj (parentReached.symm.trans reached)
    refine ⟨next, slot, ?_⟩
    by_cases last : rest = []
    · right
      subst last
      exact Option.some.inj (restReached.symm.trans nextReached)
    · exact Or.inl ((below next nextReached).mpr ⟨rest, last, bound, restReached⟩)

/-- The postorder lists exactly the tables below a table. -/
theorem mem_postorder
    {indices : List ι}
    (complete : ∀ depth frame index next,
      classify depth (entry frame index) = .table next -> index ∈ indices)
    {levels : Nat} {path : List ι} {frame member : α}
    (reached : tableAt classify entry root path = some frame) :
    member ∈ postorder classify entry indices levels path.length frame ↔
      ∃ below, below ≠ [] ∧ below.length ≤ levels ∧
        tableAt classify entry root (below ++ path) = some member := by
  induction levels generalizing path frame with
  | zero =>
      simp only [postorder, List.not_mem_nil, Nat.le_zero,
        List.length_eq_zero_iff, false_iff, not_exists, not_and]
      intro below nonempty empty
      exact absurd empty nonempty
  | succ levels inductionHypothesis =>
      have inSlot (index : ι) :
          member ∈ slotTables classify entry indices levels path.length frame
              index ↔
            ∃ rest, rest.length ≤ levels ∧
              tableAt classify entry root (rest ++ index :: path) = some member :=
        mem_slotTables_of_mem_postorder reached fun _ nextReached =>
          inductionHypothesis nextReached
      rw [postorder_succ, List.mem_flatMap]
      constructor
      · rintro ⟨index, _, inIndex⟩
        obtain ⟨rest, bound, restReached⟩ := (inSlot index).mp inIndex
        exact ⟨rest ++ [index], by simp, by simpa using bound, by
          simpa using restReached⟩
      · rintro ⟨below, nonempty, bound, memberReached⟩
        cases below using List.reverseRecOn with
        | nil => exact absurd rfl nonempty
        | append_singleton rest index =>
            rw [List.append_assoc, List.singleton_append] at memberReached
            obtain ⟨next, nextReached⟩ := tableAt_of_append memberReached
            obtain ⟨parent, _, slot⟩ := tableAt_cons.mp nextReached
            refine ⟨index, complete _ _ _ _ slot, (inSlot index).mpr ?_⟩
            exact ⟨rest, by simpa using bound, memberReached⟩

/-- The tables below the slot at a path are those at the paths through it. -/
theorem mem_slotTables_iff
    {indices : List ι}
    (complete : ∀ depth frame index next,
      classify depth (entry frame index) = .table next -> index ∈ indices)
    {levels : Nat} {path : List ι} {frame member : α} {index : ι}
    (reached : tableAt classify entry root path = some frame) :
    member ∈ slotTables classify entry indices levels path.length frame index ↔
      ∃ rest, rest.length ≤ levels ∧
        tableAt classify entry root (rest ++ index :: path) = some member :=
  mem_slotTables_of_mem_postorder reached fun _ nextReached =>
    mem_postorder complete nextReached

private theorem path_index_eq
    {left right path : List ι} {leftIndex rightIndex : ι}
    (same : left ++ leftIndex :: path = right ++ rightIndex :: path) :
    leftIndex = rightIndex := by
  have tails := (List.append_inj' same (by simp)).2
  exact (List.cons.inj tails).1

/-- With unique tables the postorder lists no table twice, and not the table it
starts from. -/
theorem nodup_postorder
    {indices : List ι} (indicesNodup : indices.Nodup)
    (complete : ∀ depth frame index next,
      classify depth (entry frame index) = .table next -> index ∈ indices)
    (unique : UniqueTables classify entry root)
    (levels : Nat) {path : List ι} {frame : α}
    (reached : tableAt classify entry root path = some frame) :
    (postorder classify entry indices levels path.length frame ++
      [frame]).Nodup := by
  have notSelf : ∀ levels path frame,
      tableAt classify entry root path = some frame ->
      frame ∉ postorder classify entry indices levels path.length frame := by
    intro levels path frame reached member
    obtain ⟨below, nonempty, _, again⟩ :=
      (mem_postorder complete reached).mp member
    have := unique _ _ _ again reached
    simp [nonempty] at this
  induction levels generalizing path frame with
  | zero => simp [postorder]
  | succ levels inductionHypothesis =>
      rw [List.nodup_append]
      refine ⟨?_, by simp, ?_⟩
      · rw [postorder_succ, List.nodup_flatMap]
        constructor
        · intro index _
          unfold slotTables
          cases slot : classify path.length (entry frame index) with
          | absent => simp
          | leaf => simp
          | table next =>
              have nextReached :
                  tableAt classify entry root (index :: path) = some next :=
                tableAt_cons.mpr ⟨frame, reached, slot⟩
              exact inductionHypothesis nextReached
        · apply indicesNodup.imp
          intro leftIndex rightIndex different member inLeft inRight
          obtain ⟨leftRest, _, leftReached⟩ :=
            (mem_slotTables_iff complete reached).mp inLeft
          obtain ⟨rightRest, _, rightReached⟩ :=
            (mem_slotTables_iff complete reached).mp inRight
          exact different
            (path_index_eq (unique _ _ _ leftReached rightReached))
      · intro member inPostorder last isLast
        rw [List.mem_singleton] at isLast
        subst isLast
        rintro rfl
        exact notSelf _ _ _ reached inPostorder

/-- The tables below a slot are read from the table of the slot and from
themselves. -/
theorem slotTables_congr
    {indices : List ι} {levels depth : Nat} {frame : α} {index : ι}
    (sameEntry : other frame index = entry frame index)
    (below : ∀ next, classify depth (entry frame index) = .table next ->
      postorder classify other indices levels (depth + 1) next =
        postorder classify entry indices levels (depth + 1) next) :
    slotTables classify other indices levels depth frame index =
      slotTables classify entry indices levels depth frame index := by
  unfold slotTables
  rw [sameEntry]
  cases slot : classify depth (entry frame index) with
  | absent => rfl
  | leaf => rfl
  | table next => simp only [below next slot]

/-- The postorder reads only the table it starts from and the tables it
lists. -/
theorem postorder_congr
    {indices : List ι} {levels depth : Nat} {frame : α}
    (agree : ∀ table ∈ frame :: postorder classify entry indices levels depth frame,
      ∀ index, other table index = entry table index) :
    postorder classify other indices levels depth frame =
      postorder classify entry indices levels depth frame := by
  induction levels generalizing depth frame with
  | zero => rfl
  | succ levels inductionHypothesis =>
      rw [postorder_succ, postorder_succ]
      apply List.flatMap_congr
      intro index member
      apply slotTables_congr (agree frame (by simp) index)
      intro next slot
      apply inductionHypothesis
      intro table tableMember position
      apply agree
      rw [List.mem_cons] at tableMember ⊢
      right
      rw [postorder_succ, List.mem_flatMap]
      exact ⟨index, member, mem_slotTables.mpr ⟨next, slot, tableMember.symm⟩⟩

section Reclaim

variable (classify) (target : E -> α) (entryOf : σ -> α -> ι -> E) (push : σ -> α -> σ)

/-- Release the tables below a table, each after the tables below it, reading
the referencing entry once before the descent and once more afterwards. -/
def reclaim (indices : List ι) : (levels depth : Nat) -> α -> σ -> σ
  | 0, _, _, state => state
  | levels + 1, depth, frame, state =>
      indices.foldl (fun state index =>
        match classify depth (entryOf state frame index) with
        | .table next =>
            let below := reclaim indices levels (depth + 1) next state
            push below (target (entryOf below frame index))
        | _ => state) state

/-- The part of a reclamation that concerns one slot. -/
def reclaimSlot (indices : List ι) (levels depth : Nat) (frame : α)
    (state : σ) (index : ι) : σ :=
  match classify depth (entryOf state frame index) with
  | .table next =>
      let below := reclaim classify target entryOf push indices levels
        (depth + 1) next state
      push below (target (entryOf below frame index))
  | _ => state

variable {classify target entryOf push} {valid : α -> Prop}

theorem reclaim_succ
    {indices : List ι} {levels depth : Nat} {frame : α} {state : σ} :
    reclaim classify target entryOf push indices (levels + 1) depth frame state =
      indices.foldl
        (reclaimSlot classify target entryOf push indices levels depth frame)
        state := rfl

/-- Releasing frames preserves the entries of every other frame. -/
theorem entryOf_foldl_push
    (preserves : ∀ state frame table index,
      valid frame -> valid table -> table ≠ frame ->
      entryOf (push state frame) table index = entryOf state table index)
    {frames : List α} {state : σ} {table : α} {index : ι}
    (framesValid : ∀ frame ∈ frames, valid frame) (tableValid : valid table)
    (absent : table ∉ frames) :
    entryOf (frames.foldl push state) table index =
      entryOf state table index := by
  induction frames generalizing state with
  | nil => rfl
  | cons frame frames inductionHypothesis =>
      simp only [List.mem_cons, not_or] at absent
      rw [List.foldl_cons,
        inductionHypothesis
          (fun frame member => framesValid frame (List.mem_cons_of_mem _ member))
          absent.2,
        preserves _ _ _ _ (framesValid frame (by simp)) tableValid absent.1]

/-- The postorder lists tables that entries point to. -/
theorem valid_of_mem_postorder
    (tableValid : ∀ depth value next,
      classify depth value = .table next -> valid next)
    {indices : List ι} {levels depth : Nat} {frame member : α}
    (listed : member ∈ postorder classify entry indices levels depth frame) :
    valid member := by
  induction levels generalizing depth frame with
  | zero => simp [postorder] at listed
  | succ levels inductionHypothesis =>
      rw [postorder_succ, List.mem_flatMap] at listed
      obtain ⟨index, _, inSlot⟩ := listed
      obtain ⟨next, slot, deeper | rfl⟩ := mem_slotTables.mp inSlot
      · exact inductionHypothesis deeper
      · exact tableValid _ _ _ slot

theorem valid_of_mem_slotTables
    (tableValid : ∀ depth value next,
      classify depth value = .table next -> valid next)
    {indices : List ι} {levels depth : Nat} {frame member : α} {index : ι}
    (listed : member ∈ slotTables classify entry indices levels depth frame index) :
    valid member := by
  obtain ⟨next, slot, deeper | rfl⟩ := mem_slotTables.mp listed
  · exact valid_of_mem_postorder tableValid deeper
  · exact tableValid _ _ _ slot

/-- Releasing the tables of one slot does not change the tables of another. -/
theorem slotTables_foldl_push
    (tableValid : ∀ depth value next,
      classify depth value = .table next -> valid next)
    (preserves : ∀ state frame table index,
      valid frame -> valid table -> table ≠ frame ->
      entryOf (push state frame) table index = entryOf state table index)
    {indices : List ι} {levels depth : Nat} {frame : α} {index : ι} {state : σ}
    {released : List α} (frameValid : valid frame)
    (releasedValid : ∀ table ∈ released, valid table)
    (frameAbsent : frame ∉ released)
    (disjoint : ∀ table ∈ slotTables classify (entryOf state) indices levels depth
      frame index, table ∉ released) :
    slotTables classify (entryOf (released.foldl push state)) indices levels depth
        frame index =
      slotTables classify (entryOf state) indices levels depth frame index := by
  apply slotTables_congr
    (entryOf_foldl_push preserves releasedValid frameValid frameAbsent)
  intro next slot
  apply postorder_congr
  intro table member position
  have inSlot := mem_slotTables.mpr
    ⟨next, slot, (List.mem_cons.mp member).symm⟩
  exact entryOf_foldl_push preserves releasedValid
    (valid_of_mem_slotTables tableValid inSlot) (disjoint table inSlot)

/-- Reclaiming never reads a released table: it pushes exactly the postorder of
the tree it started from. -/
theorem reclaim_eq
    {indices : List ι}
    (targetTable : ∀ depth value next,
      classify depth value = .table next -> target value = next)
    (tableValid : ∀ depth value next,
      classify depth value = .table next -> valid next)
    (preserves : ∀ state frame table index,
      valid frame -> valid table -> table ≠ frame ->
      entryOf (push state frame) table index = entryOf state table index)
    {levels depth : Nat} {frame : α} {state : σ} (frameValid : valid frame)
    (nodup : (postorder classify (entryOf state) indices levels depth frame ++
      [frame]).Nodup) :
    reclaim classify target entryOf push indices levels depth frame state =
      (postorder classify (entryOf state) indices levels depth frame).foldl
        push state := by
  induction levels generalizing depth frame state with
  | zero => rfl
  | succ levels inductionHypothesis =>
      -- The visited slots shrink while the indices of the descents stay fixed.
      suffices visits : ∀ (visited : List ι) (state : σ),
          (visited.flatMap (slotTables classify (entryOf state) indices levels
            depth frame) ++ [frame]).Nodup ->
          visited.foldl (reclaimSlot classify target entryOf push indices levels
            depth frame) state =
          (visited.flatMap (slotTables classify (entryOf state) indices levels
            depth frame)).foldl push state from
        visits indices state nodup
      intro visited
      induction visited with
      | nil => intro state _; rfl
      | cons index rest visitHypothesis =>
          intro state nodup
          rw [List.flatMap_cons, List.append_assoc] at nodup
          obtain ⟨slotNodup, restNodup, slotDisjoint⟩ := List.nodup_append.mp nodup
          have frameAbsent : frame ∉ slotTables classify (entryOf state) indices
              levels depth frame index := fun member =>
            slotDisjoint frame member frame (by simp) rfl
          have slotStep : reclaimSlot classify target entryOf push indices levels
              depth frame state index =
                (slotTables classify (entryOf state) indices levels depth frame
                  index).foldl push state := by
            unfold reclaimSlot slotTables
            unfold slotTables at slotNodup frameAbsent
            cases slot : classify depth (entryOf state frame index) with
            | absent => rfl
            | leaf => rfl
            | table next =>
                simp only [slot, List.mem_append, not_or] at slotNodup frameAbsent ⊢
                rw [inductionHypothesis (tableValid _ _ _ slot) slotNodup,
                  entryOf_foldl_push preserves
                    (fun table => valid_of_mem_postorder tableValid)
                    frameValid frameAbsent.1,
                  targetTable _ _ _ slot, List.foldl_append]
                rfl
          have restUnchanged :
              rest.flatMap (slotTables classify
                (entryOf ((slotTables classify (entryOf state) indices levels depth
                  frame index).foldl push state)) indices levels depth frame) =
                rest.flatMap
                  (slotTables classify (entryOf state) indices levels depth frame) := by
            apply List.flatMap_congr
            intro position member
            apply slotTables_foldl_push tableValid preserves frameValid
              (fun table => valid_of_mem_slotTables tableValid) frameAbsent
            intro table inRest inSlot
            refine slotDisjoint table inSlot table ?_ rfl
            exact List.mem_append_left _
              (List.mem_flatMap.mpr ⟨position, member, inRest⟩)
          rw [List.foldl_cons, slotStep, List.flatMap_cons, List.foldl_append,
            visitHypothesis, restUnchanged]
          rw [restUnchanged]
          exact restNodup

end Reclaim

end RadixTree
