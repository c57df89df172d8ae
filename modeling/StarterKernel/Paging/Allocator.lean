import StarterKernel.Paging.Frames
import StarterKernel.Library.Chain

/-!
# The physical page allocator

The freelist is an intrusive list: the first word of each free page is a
direct-map pointer to the next one.  `FreelistIs` gives the list of its frames,
and the two operations of the allocator pop and push that list.
-/

namespace StarterKernel

/-- A frame the allocator can hold: its direct-map pointer is not null. -/
structure PoolFrame (hhdmBase frame : Nat) : Prop
    extends IsFrame frame, DirectMapped hhdmBase frame

/-- A freelist that is not empty and does not begin with physical page 0 has a frame that
`vm_map` can use. -/
theorem exists_usable_frame {free : List Nat}
    (usable : ¬(free = [] ∨ ∃ rest, free = 0 :: rest)) :
    ∃ fresh rest, free = fresh :: rest ∧ fresh ≠ 0 := by
  obtain ⟨fresh, rest, rfl⟩ :=
    List.exists_cons_of_ne_nil fun empty => usable (Or.inl empty)
  exact ⟨fresh, rest, rfl, fun zero => usable (Or.inr ⟨rest, zero ▸ rfl⟩)⟩

namespace Machine

/-- The freelist consists of these frames, in this order. -/
def FreelistIs (machine : Machine) (frames : List Nat) : Prop :=
  IntrusiveList.Chain (fun pointer => machine.loadDirect pointer 8) 0
    machine.freelist (frames.map machine.ptov)

variable {machine other : Machine} {frame : Nat} {frames freed : List Nat}

theorem ptov_eq (direct : DirectMapped machine.hhdmBase frame) :
    machine.ptov frame = machine.hhdmBase + frame := by
  have := direct.noWrap
  unfold ptov
  rw [Nat.mod_eq_of_lt (by omega), Nat.add_comm]

theorem ptov_ne_zero (direct : DirectMapped machine.hhdmBase frame) :
    machine.ptov frame ≠ 0 := by
  have := direct.nonNull
  rw [ptov_eq direct]
  omega

theorem loadDirect_ptov_of_lt (word : frame < wordSize) (count : Nat) :
    machine.loadDirect (machine.ptov frame) count =
      ByteMemory.load machine.memory frame count := by
  rw [loadDirect, physicalOf_ptov _ word]

theorem loadDirect_ptov (isFrame : IsFrame frame) (count : Nat) :
    machine.loadDirect (machine.ptov frame) count =
      ByteMemory.load machine.memory frame count :=
  loadDirect_ptov_of_lt isFrame.isPage.word count

/-- The freelist depends on its head and on the bytes of its frames. -/
theorem FreelistIs.congr
    (list : machine.FreelistIs frames)
    (allFrames : ∀ frame ∈ frames, IsFrame frame)
    (sameBase : other.hhdmBase = machine.hhdmBase)
    (sameHead : other.freelist = machine.freelist)
    (agree : ∀ frame ∈ frames, AgreeOn machine.memory other.memory frame) :
    other.FreelistIs frames := by
  have samePtov : other.ptov = machine.ptov := by
    funext paddr
    rw [ptov, ptov, sameBase]
  unfold FreelistIs at list ⊢
  rw [samePtov, sameHead]
  refine list.congr ?_
  intro pointer member
  obtain ⟨frame, inList, rfl⟩ := List.mem_map.mp member
  have isFrame := allFrames frame inList
  rw [loadDirect_ptov isFrame, ← samePtov, loadDirect_ptov isFrame]
  apply ByteMemory.load_congr
  intro offset small
  exact agree frame inList _ (frameOf_add_of_lt isFrame (by omega))

/-- A machine has one freelist. -/
theorem FreelistIs.unique {left right : List Nat}
    (leftList : machine.FreelistIs left) (rightList : machine.FreelistIs right)
    (leftFrames : ∀ frame ∈ left, PoolFrame machine.hhdmBase frame)
    (rightFrames : ∀ frame ∈ right, PoolFrame machine.hhdmBase frame) :
    left = right := by
  have samePointers : left.map machine.ptov = right.map machine.ptov :=
    IntrusiveList.Chain.unique leftList rightList
  have recovered : ∀ list : List Nat,
      (∀ frame ∈ list, PoolFrame machine.hhdmBase frame) ->
      (list.map machine.ptov).map machine.physicalOf = list := by
    intro list allFrames
    rw [List.map_map]
    conv_rhs => rw [← List.map_id list]
    apply List.map_congr_left
    intro frame member
    have := (allFrames frame member).bound
    exact physicalOf_ptov _ (by unfold wordSize; omega)
  rw [← recovered left leftFrames, samePointers, recovered right rightFrames]

/-- The frames of the freelist are pairwise distinct. -/
theorem FreelistIs.nodup (list : machine.FreelistIs frames) : frames.Nodup :=
  List.Nodup.of_map _ (IntrusiveList.Chain.nodup list)

theorem FreelistIs.freelist_lt (list : machine.FreelistIs frames) :
    machine.freelist < wordSize := by
  cases frames with
  | nil =>
      have empty : machine.freelist = 0 := list
      rw [empty]
      decide
  | cons frame frames =>
      have headIs : machine.freelist = machine.ptov frame := list.1
      rw [headIs]
      exact Nat.mod_lt _ (by decide)

theorem pmemAlloc_nil (list : machine.FreelistIs []) :
    machine.pmemAlloc = (0, machine.kprintf "No free space, sorry :(\n") := by
  have empty : machine.freelist = 0 := list
  rw [pmemAlloc, if_pos empty]

/-- The machine with the first frame taken off the freelist. -/
def popped (machine : Machine) : Machine :=
  { machine with
    freelist := machine.loadDirect machine.freelist 8
    freePageCounter := machine.freePageCounter - 1 }

/-- Allocation takes the first frame off the freelist and leaves memory as it
is. -/
theorem pmemAlloc_cons_of_lt
    (list : machine.FreelistIs (frame :: frames)) (word : frame < wordSize) :
    machine.pmemAlloc = (frame, machine.popped) ∧
      machine.popped.FreelistIs frames := by
  obtain ⟨headIs, nonNull, tail⟩ := list
  constructor
  · rw [pmemAlloc, if_neg (headIs ▸ nonNull), headIs, physicalOf_ptov _ word, popped,
      headIs]
  · unfold FreelistIs popped
    simp only [headIs]
    exact tail

theorem pmemAlloc_cons
    (list : machine.FreelistIs (frame :: frames)) (isFrame : IsFrame frame) :
    machine.pmemAlloc = (frame, machine.popped) ∧
      machine.popped.FreelistIs frames :=
  pmemAlloc_cons_of_lt list isFrame.isPage.word

theorem pmemFree_eq_of_lt (word : frame < wordSize) :
    machine.pmemFree frame =
      { machine with
        memory := ByteMemory.store machine.memory frame 8 machine.freelist
        freelist := machine.ptov frame
        freePageCounter := machine.freePageCounter + 1 } := by
  rw [pmemFree, storeDirect, physicalOf_ptov _ word]

theorem pmemFree_eq (isFrame : IsFrame frame) :
    machine.pmemFree frame =
      { machine with
        memory := ByteMemory.store machine.memory frame 8 machine.freelist
        freelist := machine.ptov frame
        freePageCounter := machine.freePageCounter + 1 } :=
  pmemFree_eq_of_lt isFrame.isPage.word

@[simp] theorem pmemFree_hhdmBase :
    (machine.pmemFree frame).hhdmBase = machine.hhdmBase := rfl

/-- Freeing a page writes inside that page only. -/
theorem agreeOn_pmemFree_page {table : Nat}
    (isPage : IsPage frame) (different : table ≠ frame) :
    AgreeOn machine.memory (machine.pmemFree frame).memory table := by
  rw [pmemFree_eq_of_lt isPage.word]
  apply agreeOn_store
  intro offset small
  rw [isPage.frameOf_add_of_lt (by omega)]
  exact different.symm

theorem agreeOn_pmemFree {table : Nat}
    (isFrame : IsFrame frame) (different : table ≠ frame) :
    AgreeOn machine.memory (machine.pmemFree frame).memory table :=
  agreeOn_pmemFree_page isFrame.isPage different

theorem agreeOn_foldl_pmemFree {table : Nat}
    (allFrames : ∀ frame ∈ freed, IsFrame frame) (absent : table ∉ freed) :
    AgreeOn machine.memory (freed.foldl pmemFree machine).memory table := by
  induction freed generalizing machine with
  | nil => exact AgreeOn.refl _ _
  | cons frame freed inductionHypothesis =>
      simp only [List.mem_cons, not_or] at absent
      simp only [List.mem_cons, forall_eq_or_imp] at allFrames
      exact (agreeOn_pmemFree allFrames.1 absent.1).trans
        (inductionHypothesis allFrames.2 absent.2)

@[simp] theorem foldl_pmemFree_hhdmBase :
    (freed.foldl pmemFree machine).hhdmBase = machine.hhdmBase := by
  induction freed generalizing machine with
  | nil => rfl
  | cons frame freed inductionHypothesis =>
      rw [List.foldl_cons, inductionHypothesis, pmemFree_hhdmBase]

/-- Freeing puts the page at the front of the freelist. -/
theorem FreelistIs.pmemFree_page
    (list : machine.FreelistIs frames)
    (allPages : ∀ frame ∈ frames, IsPage frame)
    (isPage : IsPage frame) (direct : DirectMapped machine.hhdmBase frame)
    (absent : frame ∉ frames) :
    (machine.pmemFree frame).FreelistIs (frame :: frames) := by
  refine IntrusiveList.Chain.push list (ptov_ne_zero direct) ?_ ?_
  · have linked :
        (machine.pmemFree frame).loadDirect ((machine.pmemFree frame).ptov frame) 8 =
          machine.freelist := by
      have small : machine.freelist < 256 ^ 8 := list.freelist_lt
      rw [loadDirect_ptov_of_lt isPage.word, pmemFree_eq_of_lt isPage.word,
        ByteMemory.load_store, Nat.mod_eq_of_lt small]
    exact linked
  · intro pointer member
    obtain ⟨listed, inList, rfl⟩ := List.mem_map.mp member
    have listedPage := allPages listed inList
    have different : listed ≠ frame := fun same => absent (same ▸ inList)
    have sameWord :
        ByteMemory.load (machine.pmemFree frame).memory listed 8 =
          ByteMemory.load machine.memory listed 8 := by
      apply ByteMemory.load_congr
      intro offset small
      exact agreeOn_pmemFree_page isPage different _
        (listedPage.frameOf_add_of_lt (by omega))
    calc (machine.pmemFree frame).loadDirect
            ((machine.pmemFree frame).ptov listed) 8
        = ByteMemory.load (machine.pmemFree frame).memory listed 8 :=
          loadDirect_ptov_of_lt listedPage.word 8
      _ = ByteMemory.load machine.memory listed 8 := sameWord
      _ = machine.loadDirect (machine.ptov listed) 8 :=
          (loadDirect_ptov_of_lt listedPage.word 8).symm

theorem FreelistIs.pmemFree
    (list : machine.FreelistIs frames)
    (allFrames : ∀ frame ∈ frames, IsFrame frame)
    (isPoolFrame : PoolFrame machine.hhdmBase frame) (absent : frame ∉ frames) :
    (machine.pmemFree frame).FreelistIs (frame :: frames) :=
  list.pmemFree_page (fun frame member => (allFrames frame member).isPage)
    isPoolFrame.toIsFrame.isPage isPoolFrame.toDirectMapped absent

/-- Freeing several frames reverses them onto the freelist. -/
theorem FreelistIs.foldl_pmemFree
    (list : machine.FreelistIs frames)
    (allFrames : ∀ frame ∈ frames, IsFrame frame)
    (freedFrames : ∀ frame ∈ freed, PoolFrame machine.hhdmBase frame)
    (nodup : freed.Nodup) (disjoint : ∀ frame ∈ freed, frame ∉ frames) :
    (freed.foldl Machine.pmemFree machine).FreelistIs (freed.reverse ++ frames) := by
  induction freed generalizing machine frames with
  | nil => exact list
  | cons frame freed inductionHypothesis =>
      simp only [List.mem_cons, forall_eq_or_imp] at freedFrames disjoint
      obtain ⟨notLater, laterNodup⟩ := List.nodup_cons.mp nodup
      have first := list.pmemFree allFrames freedFrames.1 disjoint.1
      rw [List.foldl_cons, List.reverse_cons, List.append_assoc]
      apply inductionHypothesis first
      · intro member inList
        rcases List.mem_cons.mp inList with rfl | inList
        · exact freedFrames.1.toIsFrame
        · exact allFrames member inList
      · exact freedFrames.2
      · exact laterNodup
      · intro member later
        rw [List.mem_cons, not_or]
        exact ⟨fun same => notLater (same ▸ later), disjoint.2 member later⟩

end Machine
end StarterKernel
