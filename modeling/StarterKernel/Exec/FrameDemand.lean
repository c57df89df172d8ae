import StarterKernel.Exec.AddressSpace
import StarterKernel.Paging.WellFormed
import Mathlib.Data.Finset.Card
import Mathlib.Data.Finset.Dedup
import Mathlib.Tactic.IntervalCases

/-!
# How many frames a list of pages takes

When nothing but the pages of a list is mapped in the lower half, the frames in use are
those of the pages and of the tables above them.  So the list alone says how many frames
the next page takes, and whether the freelist is long enough for it.
-/

namespace StarterKernel

open RadixTree (Slot Walk)
open PagedSpace (Space)

/-- The number of different values that a function takes on a list. -/
def distinct (value : Nat -> Nat) (items : List Nat) : Nat :=
  (items.map value).toFinset.card

/-- The frames that mapping the pages of these addresses takes: the pages and their
tables of level 1, 2 and 3. -/
def framesFor (addresses : List Nat) : Nat :=
  distinct (· / 2 ^ 12) addresses + distinct (· / 2 ^ 21) addresses +
    distinct (· / 2 ^ 30) addresses + distinct (· / 2 ^ 39) addresses

variable {root address depth : Nat} {pool : Set Nat} {machine after : Machine}
variable {free rest taken : List Nat} {pages more : List Nat}

theorem distinct_concat (value : Nat -> Nat) (items : List Nat) (item : Nat) :
    distinct value (items ++ [item]) =
      distinct value items + if ∃ other ∈ items, value other = value item then 0 else 1 := by
  unfold distinct
  rw [List.map_append, List.toFinset_append, List.map_singleton, List.toFinset_cons,
    List.toFinset_nil, insert_empty_eq, Finset.union_comm, Finset.singleton_union]
  have seen : value item ∈ (items.map value).toFinset ↔
      ∃ other ∈ items, value other = value item := by
    rw [List.mem_toFinset, List.mem_map]
  by_cases isSeen : ∃ other ∈ items, value other = value item
  · rw [if_pos isSeen, Finset.insert_eq_of_mem (seen.mpr isSeen), Nat.add_zero]
  · rw [if_neg isSeen, Finset.card_insert_of_notMem (mt seen.mp isSeen)]

theorem distinct_mono (value : Nat -> Nat) (subset : ∀ item ∈ pages, item ∈ more) :
    distinct value pages ≤ distinct value more := by
  apply Finset.card_le_card
  intro image member
  rw [List.mem_toFinset, List.mem_map] at member ⊢
  obtain ⟨item, fromPages, same⟩ := member
  exact ⟨item, subset item fromPages, same⟩

theorem framesFor_append_left (pages more : List Nat) :
    framesFor pages ≤ framesFor (pages ++ more) := by
  have subset : ∀ item ∈ pages, item ∈ pages ++ more :=
    fun _ member => List.mem_append_left more member
  unfold framesFor
  have := distinct_mono (· / 2 ^ 12) subset
  have := distinct_mono (· / 2 ^ 21) subset
  have := distinct_mono (· / 2 ^ 30) subset
  have := distinct_mono (· / 2 ^ 39) subset
  omega

/-! ## The tables above the mapped pages -/

/-- Walks of lower-half addresses are the same down to a table if the addresses are in
the part of the lower half that the table maps. -/
theorem walkPath_eq_iff {other : Nat} (left : address < 2 ^ 47) (right : other < 2 ^ 47)
    (bound : depth < 3) :
    walkPath address (depth + 1) = walkPath other (depth + 1) ↔
      address / 2 ^ (39 - 9 * depth) = other / 2 ^ (39 - 9 * depth) := by
  have one (address : Nat) : walkPath address 1 = [address / 2 ^ 39 % 512] := rfl
  have two (address : Nat) : walkPath address 2 =
      [address / 2 ^ 30 % 512, address / 2 ^ 39 % 512] := rfl
  have three (address : Nat) : walkPath address 3 =
      [address / 2 ^ 21 % 512, address / 2 ^ 30 % 512, address / 2 ^ 39 % 512] := rfl
  interval_cases depth
  · simp only [one, List.cons.injEq, and_true]
    omega
  · simp only [two, List.cons.injEq, and_true]
    omega
  · simp only [three, List.cons.injEq, and_true]
    omega

/-- The pages of these addresses are mapped in the lower half, and nothing else is. -/
structure MapsPages
    (root : Nat) (pool : Set Nat) (pages : List Nat) (machine : Machine)
    (free : List Nat) : Prop where
  owned : Owned root pool machine free
  used : TablesUsed machine.memory root
  lower : ∀ page ∈ pages, page < 2 ^ 47
  mapped : ∀ address, lowerSpace machine.memory root address ≠ none ↔
    ∃ page ∈ pages, page / 2 ^ 12 = address / 2 ^ 12

/-- Above a mapped address there are tables. -/
theorem Owned.table_of_mapped (owned : Owned root pool machine free)
    (lower : address < 2 ^ 47) (mapped : lowerSpace machine.memory root address ≠ none)
    (bound : depth < 3) :
    tableAt machine.memory root (walkPath address (depth + 1)) ≠ none := by
  intro noTable
  rw [Ne, lowerSpace_eq_none_iff lower,
    owned.translation_eq_none_iff (lowerHalf_of_lt lower)] at mapped
  have ends : ∀ frame entries,
      treeWalk machine.memory root (walkPath address (depth + 1)) ≠
        .table frame entries := by
    intro frame entries reached
    rw [tableAt_of_treeWalk reached] at noTable
    cases noTable
  have same := treeWalk_pagePath (show depth + 1 ≤ 4 by omega) ends
  cases walk : treeWalk machine.memory root (walkPath address (depth + 1)) with
  | fault => exact mapped (same.trans walk)
  | table frame entries => exact ends frame entries walk
  | leaf entries =>
      have deep := owned.leaf_length
        ((lowerPath_walkPath address depth).mpr (lowerHalf_of_lt lower)) walk
      rw [walkPath_length] at deep
      omega

/-- A table is there exactly if it maps the page of one of the addresses. -/
theorem MapsPages.table_iff (maps : MapsPages root pool pages machine free)
    (lower : address < 2 ^ 47) (bound : depth < 3) :
    tableAt machine.memory root (walkPath address (depth + 1)) ≠ none ↔
      ∃ page ∈ pages, page / 2 ^ (39 - 9 * depth) = address / 2 ^ (39 - 9 * depth) := by
  constructor
  · intro isTable
    obtain ⟨frame, reached⟩ := Option.ne_none_iff_exists'.mp isTable
    obtain ⟨other, isMapped, deeper, below, samePath⟩ := maps.used _ frame
      ((lowerPath_walkPath address depth).mpr (lowerHalf_of_lt lower)) reached
    have sameDepth : deeper = depth := by
      have length := congrArg List.length samePath
      rw [walkPath_length, walkPath_length] at length
      omega
    obtain ⟨page, member, samePage⟩ := (maps.mapped other).mp isMapped
    have otherLower : other < 2 ^ 47 := by
      have := maps.lower page member
      omega
    rw [sameDepth, walkPath_eq_iff lower otherLower bound] at samePath
    refine ⟨page, member, ?_⟩
    rw [samePath]
    interval_cases depth <;> omega
  · rintro ⟨page, member, same⟩
    have isMapped := (maps.mapped page).mpr ⟨page, member, rfl⟩
    have pageLower := maps.lower page member
    rw [← (walkPath_eq_iff pageLower lower bound).mpr same]
    exact maps.owned.table_of_mapped pageLower isMapped bound

/-- The frames that the next page takes. -/
theorem MapsPages.framesFor_concat (maps : MapsPages root pool pages machine free)
    (lower : address < 2 ^ 47) :
    framesFor (pages ++ [address]) = framesFor pages +
      if lowerSpace machine.memory root address = none then
        framesNeeded machine.memory root address
      else 0 := by
  have tables : ∀ depth < 3, (if ∃ page ∈ pages,
        page / 2 ^ (39 - 9 * depth) = address / 2 ^ (39 - 9 * depth) then 0 else 1) =
      if tableAt machine.memory root (walkPath address (depth + 1)) = none then 1
      else 0 := by
    intro depth bound
    rw [← ite_not, if_congr ((not_congr (maps.table_iff lower bound).symm).trans
      not_ne_iff) rfl rfl]
  have level3 : (if ∃ page ∈ pages, page / 2 ^ 39 = address / 2 ^ 39 then 0 else 1) = _ :=
    tables 0 (by omega)
  have level2 : (if ∃ page ∈ pages, page / 2 ^ 30 = address / 2 ^ 30 then 0 else 1) = _ :=
    tables 1 (by omega)
  have level1 : (if ∃ page ∈ pages, page / 2 ^ 21 = address / 2 ^ 21 then 0 else 1) = _ :=
    tables 2 (by omega)
  have needed : framesNeeded machine.memory root address =
      (if tableAt machine.memory root (walkPath address (0 + 1)) = none then 1 else 0) +
        ((if tableAt machine.memory root (walkPath address (1 + 1)) = none then 1
          else 0) +
        ((if tableAt machine.memory root (walkPath address (2 + 1)) = none then 1
          else 0) + 0)) + 1 := rfl
  simp only [framesFor, distinct_concat]
  by_cases vacant : lowerSpace machine.memory root address = none
  · have newPage : ¬∃ page ∈ pages, page / 2 ^ 12 = address / 2 ^ 12 :=
      fun mapped => (maps.mapped address).mpr mapped vacant
    rw [if_pos vacant, if_neg newPage, level3, level2, level1, needed]
    omega
  · obtain ⟨page, member, samePage⟩ := (maps.mapped address).mp vacant
    have seen : ∀ shift, 12 ≤ shift ->
        ∃ page ∈ pages, page / 2 ^ shift = address / 2 ^ shift := by
      intro shift low
      refine ⟨page, member, ?_⟩
      obtain ⟨extra, rfl⟩ := Nat.exists_eq_add_of_le low
      rw [Nat.pow_add, ← Nat.div_div_eq_div_mul, samePage, Nat.div_div_eq_div_mul]
    rw [if_neg vacant, if_pos (seen 12 (by omega)),
      if_pos (seen 21 (by omega)), if_pos (seen 30 (by omega)),
      if_pos (seen 39 (by omega))]
    omega

/-! ## Mapping the next page -/

theorem usableCount_append (enough : taken.length ≤ usableCount (taken ++ rest)) :
    usableCount (taken ++ rest) = taken.length + usableCount rest := by
  induction taken with
  | nil => rw [List.nil_append, List.length_nil, Nat.zero_add]
  | cons frame taken inductionHypothesis =>
      rw [List.cons_append] at enough ⊢
      by_cases isZero : frame = 0
      · subst isZero
        rw [usableCount_zero, List.length_cons] at enough
        omega
      · rw [usableCount_cons isZero, List.length_cons] at enough ⊢
        rw [inductionHypothesis (by omega)]
        omega

theorem samePage_concat {position : Nat} :
    (∃ page ∈ pages ++ [address], page / 2 ^ 12 = position / 2 ^ 12) ↔
      (∃ page ∈ pages, page / 2 ^ 12 = position / 2 ^ 12) ∨
        address / 2 ^ 12 = position / 2 ^ 12 := by
  simp only [List.mem_append, List.mem_singleton, or_and_right, exists_or, exists_eq_left]

theorem MapsPages.lower_concat (maps : MapsPages root pool pages machine free)
    (lower : address < 2 ^ 47) : ∀ page ∈ pages ++ [address], page < 2 ^ 47 := by
  intro page member
  rcases List.mem_append.mp member with fromPages | last
  · exact maps.lower page fromPages
  · rw [List.mem_singleton.mp last]
    exact lower

/-- A page that is mapped is among the pages. -/
theorem MapsPages.concat_mapped (maps : MapsPages root pool pages machine free)
    (lower : address < 2 ^ 47) (isMapped : lowerSpace machine.memory root address ≠ none) :
    MapsPages root pool (pages ++ [address]) machine free := by
  refine ⟨maps.owned, maps.used, maps.lower_concat lower, fun position => ?_⟩
  rw [samePage_concat, maps.mapped]
  constructor
  · exact Or.inl
  · rintro (before | samePage)
    · exact before
    · obtain ⟨page, member, same⟩ := (maps.mapped address).mp isMapped
      exact ⟨page, member, same.trans samePage⟩

/-- With frames for it the next page is mapped, unless it is already. -/
theorem MapsPages.vmMap (usable writable executable : Bool)
    (maps : MapsPages root pool pages machine free) (lower : address < 2 ^ 47)
    (enough : framesFor (pages ++ [address]) ≤ framesFor pages + usableCount free) :
    let after := (machine.vmMap root address usable writable executable).2
    ∃ rest, Extends root pool machine after free rest ∧
      MapsPages root pool (pages ++ [address]) after rest ∧
      usableCount rest + framesFor (pages ++ [address]) =
        usableCount free + framesFor pages ∧
      lowerSpace after.memory root =
        PagedSpace.map 4096 (lowerSpace machine.memory root) address
          { user := usable, writable := writable, executable := executable } := by
  intro after
  have owned := maps.owned
  have lowerHalf := lowerHalf_of_lt lower
  have run := owned.wellFormed.vmMap usable writable executable (owned.smallWalk lowerHalf)
  have concat := maps.framesFor_concat lower
  by_cases vacant : lowerSpace machine.memory root address = none
  · have fault := (owned.translation_eq_none_iff lowerHalf).mp
      ((lowerSpace_eq_none_iff lower).mp vacant)
    rw [if_pos vacant] at concat
    have succeeds : (machine.vmMap root address usable writable executable).1 = true := by
      refine (run.succeeds fault).mpr ?_
      unfold framesNeeded at concat
      omega
    obtain ⟨taken, rest, split, kept, footprint, isMapped, _⟩ :=
      Machine.vmMap_spec usable writable executable owned lowerHalf
    obtain ⟨other, extend, _⟩ :=
      owned.vmMap_extends usable writable executable lowerHalf
    obtain rfl : other = rest := extend.kept.free_unique kept
    have isMapped := isMapped succeeds
    have space := isMapped.lowerSpace_eq footprint owned kept split lower
    have count := isMapped.count
    refine ⟨other, extend, ⟨kept, isMapped.tablesUsed footprint owned kept split lower
      maps.used, maps.lower_concat lower, ?_⟩, ?_, space⟩
    · intro position
      rw [samePage_concat, show lowerSpace after.memory root = _ from space, Ne,
        PagedSpace.map_eq_none_iff, not_and_or, ← Ne, maps.mapped]
      simp only [vacant, ne_eq, not_true_eq_false, imp_false, not_not]
      rw [show (4096 : Nat) = 2 ^ 12 from rfl, eq_comm (a := position / 2 ^ 12)]
    · have enoughTaken : taken.length ≤ usableCount (taken ++ other) := by
        rw [← split]
        unfold framesNeeded at concat
        omega
      have split' := usableCount_append enoughTaken
      rw [← split] at split'
      unfold framesNeeded at concat
      omega
  · have isMapped := mt ((lowerSpace_eq_none_iff lower).mpr ∘
      (owned.translation_eq_none_iff lowerHalf).mpr) vacant
    have unchanged : after = machine := congrArg Prod.snd (run.mapped isMapped)
    rw [if_neg vacant] at concat
    rw [unchanged, PagedSpace.map_mapped vacant]
    exact ⟨free, Extends.refl owned, maps.concat_mapped lower vacant, by omega, rfl⟩

/-- Without frames for it the next page stays unmapped, and the usable frames are gone. -/
theorem MapsPages.vmMap_short (usable writable executable : Bool)
    (maps : MapsPages root pool pages machine free) (lower : address < 2 ^ 47)
    (short : framesFor pages + usableCount free < framesFor (pages ++ [address])) :
    let after := (machine.vmMap root address usable writable executable).2
    ∃ rest, Extends root pool machine after free rest ∧
      lowerSpace after.memory root address = none ∧ (0 ∉ free -> rest = []) := by
  intro after
  have owned := maps.owned
  have lowerHalf := lowerHalf_of_lt lower
  have run := owned.wellFormed.vmMap usable writable executable (owned.smallWalk lowerHalf)
  have concat := maps.framesFor_concat lower
  have vacant : lowerSpace machine.memory root address = none := by
    by_contra isMapped
    rw [if_neg isMapped] at concat
    omega
  have fault := (owned.translation_eq_none_iff lowerHalf).mp
    ((lowerSpace_eq_none_iff lower).mp vacant)
  rw [if_pos vacant] at concat
  have fails : (machine.vmMap root address usable writable executable).1 = false := by
    rw [← Bool.not_eq_true, run.succeeds fault]
    unfold framesNeeded at concat
    omega
  obtain ⟨taken, rest, split, kept, _, _, refused⟩ :=
    Machine.vmMap_spec usable writable executable owned lowerHalf
  obtain ⟨other, extend, _⟩ := owned.vmMap_extends usable writable executable lowerHalf
  refine ⟨other, extend, ?_, ?_⟩
  · rw [lowerSpace_eq_none_iff lower, extend.kept.translation_eq_none_iff lowerHalf,
      (refused fails).same]
    exact fault
  · intro noZero
    have drained := run.drained fault fails
    rw [usableCount_eq_length noZero, List.drop_eq_nil_of_le (Nat.le_succ _)] at drained
    exact extend.kept.freelist.unique drained extend.kept.wellFormed.poolFrame (by simp)

/-- Once the freelist is empty no page is mapped any more. -/
theorem Extends.mapped_of_nil (extend : Extends root pool machine after [] rest)
    (owned : Owned root pool machine []) (lower : address < 2 ^ 47)
    (mapped : lowerSpace after.memory root address ≠ none) :
    lowerSpace machine.memory root address ≠ none := by
  have lowerHalf := lowerHalf_of_lt lower
  have lowerPath := lowerPath_pagePath lower
  have kept := extend.kept
  rw [Ne, lowerSpace_eq_none_iff lower] at mapped ⊢
  obtain ⟨translated, translates⟩ := Option.ne_none_iff_exists'.mp mapped
  obtain ⟨entry, links, leaf, _, isPage⟩ := kept.leaf_of_translation lowerHalf translates
  rcases extend.fresh entry.frame (Or.inr ⟨_, lowerPath, isPage⟩) with
    (⟨path, _, reached⟩ | ⟨path, pathLower, before⟩) | isFree
  · exact absurd (extend.tables path _ reached)
      ((kept.page _ _ lowerPath isPage).2.2.2 path)
  · obtain rfl := kept.pageUnique _ _ _ pathLower lowerPath
      (extend.pages path _ pathLower before) isPage
    obtain ⟨_, other, above, leafBefore, _⟩ := before
    rw [owned.translation_eq_none_iff lowerHalf, leafBefore]
    nofun
  · cases isFree

/-- Pages other than the one `vm_map` is called for stay as they are. -/
theorem Owned.vmMap_otherPage {position : Nat} (usable writable executable : Bool)
    (owned : Owned root pool machine free) (lower : address < 2 ^ 47)
    (inside : position < 2 ^ 47) (otherPage : position / 4096 ≠ address / 4096) :
    lowerSpace (machine.vmMap root address usable writable executable).2.memory root
        position = none ↔
      lowerSpace machine.memory root position = none := by
  obtain ⟨_, _, _, _, footprint, _⟩ :=
    Machine.vmMap_spec usable writable executable owned (lowerHalf_of_lt lower)
  rw [lowerSpace_eq_none_iff inside, lowerSpace_eq_none_iff inside,
    footprint.translation_eq (mt (pagePath_eq_iff lower inside).mp otherPage)]

end StarterKernel
