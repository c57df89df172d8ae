import StarterKernel.Paging.MemInit

/-!
# Handing out the usable pages

After the loops of `mem_init` the allocator holds the pages of the usable entries
of the memory map, and repeated allocation returns them one after the other.
-/

namespace StarterKernel

namespace Machine

/-- The results of so many calls of `pmem_alloc` in a row. -/
def drain : (count : Nat) -> Machine -> List Nat
  | 0, _ => []
  | count + 1, machine => machine.pmemAlloc.1 :: drain count machine.pmemAlloc.2

variable {machine : Machine} {pages : List Nat} {count : Nat}

/-- An allocator without pages stays without pages. -/
theorem FreelistIs.drain_nil (list : machine.FreelistIs []) :
    machine.drain count = List.replicate count 0 := by
  induction count generalizing machine with
  | zero => rfl
  | succ count inductionHypothesis =>
      have empty : machine.freelist = 0 := list
      have next : (machine.kprintf "No free space, sorry :(\n").FreelistIs [] := by
        change (machine.kprintf "No free space, sorry :(\n").freelist = 0
        rw [kprintf_freelist, empty]
      rw [drain, pmemAlloc_nil list, inductionHypothesis next, List.replicate_succ]

/-- Allocation returns the pages of the freelist in order and then `0`. -/
theorem FreelistIs.drain_eq
    (list : machine.FreelistIs pages) (words : ∀ page ∈ pages, page < wordSize) :
    machine.drain count =
      pages.take count ++ List.replicate (count - pages.length) 0 := by
  induction count generalizing machine pages with
  | zero => simp [drain]
  | succ count inductionHypothesis =>
      cases pages with
      | nil =>
          rw [list.drain_nil, List.take_nil, List.nil_append, List.length_nil,
            Nat.sub_zero]
      | cons page pages =>
          simp only [List.mem_cons, forall_eq_or_imp] at words
          obtain ⟨allocated, rest⟩ := pmemAlloc_cons_of_lt list words.1
          rw [drain, allocated, inductionHypothesis rest words.2, List.take_succ_cons,
            List.length_cons, Nat.add_sub_add_right, List.cons_append]

end Machine

variable {machine : Machine} {memmap page : Nat}

/-- The usable pages are the aligned ones inside a usable entry. -/
theorem UsableMap.mem_usablePages_iff (usableMap : UsableMap machine memmap) :
    page ∈ machine.usablePages memmap (machine.mmapCount memmap) ↔
      ∃ index < machine.mmapCount memmap, (machine.mmapAt memmap index).type = 1 ∧
        page % 4096 = 0 ∧ (machine.mmapAt memmap index).base ≤ page ∧
        page + 4096 ≤ (machine.mmapAt memmap index).base +
          (machine.mmapAt memmap index).length := by
  rw [Machine.mem_usablePages]
  constructor
  · rintro ⟨index, small, usable, inRange⟩
    obtain ⟨position, inRegion, rfl⟩ := mem_rangeFrames.mp inRange
    have aligned := usableMap.aligned index small usable
    exact ⟨index, small, usable, by omega, by omega, by omega⟩
  · rintro ⟨index, small, usable, pageAligned, above, below⟩
    have aligned := usableMap.aligned index small usable
    refine ⟨index, small, usable, mem_rangeFrames.mpr ?_⟩
    exact ⟨(page - (machine.mmapAt memmap index).base) / 4096, by omega, by omega⟩

/-- The loops of `mem_init` put the pages of the usable entries on the freelist, each
once and no other page, and `pmem_alloc` hands out each of them once and then `0`. -/
theorem usable_pages_handed_out_once
    {machine : Machine} {memmap : Nat}
    (usableMap : UsableMap machine memmap) (empty : machine.freelist = 0) :
    ∃ after pages, machine.memInitLoop memmap wordSize 0 = some after ∧
      after.FreelistIs pages ∧ pages.Nodup ∧
      (∀ page, page ∈ pages ↔
        ∃ index < machine.mmapCount memmap, (machine.mmapAt memmap index).type = 1 ∧
          page % 4096 = 0 ∧ (machine.mmapAt memmap index).base ≤ page ∧
          page + 4096 ≤ (machine.mmapAt memmap index).base +
            (machine.mmapAt memmap index).length) ∧
      ∀ count, after.drain count =
        pages.take count ++ List.replicate (count - pages.length) 0 := by
  obtain ⟨after, run, _, list⟩ := usableMap.memInitLoop_start empty
  have words : ∀ page ∈ (machine.usablePages memmap (machine.mmapCount memmap)).reverse,
      page < wordSize := by
    intro page member
    exact (usableMap.page (List.mem_reverse.mp member)).1.word
  refine ⟨after, _, run, list, list.nodup, fun page => ?_, fun count =>
    list.drain_eq words⟩
  rw [List.mem_reverse]
  exact usableMap.mem_usablePages_iff

/-- A memory map with one usable region. -/
theorem usable_pages_handed_out_once_bootMachine :
    ∃ after pages,
      (Handover.start (bootHdr []) (bootMachine (bootContent []))).memInitLoop
        (bootHdr []).memmap wordSize 0 = some after ∧
      after.FreelistIs pages ∧ after.drain 1 = pages.take 1 ++
        List.replicate (1 - pages.length) 0 := by
  have handover := handover_bootMachine [] []
  obtain ⟨after, pages, run, list, _, _, drained⟩ :=
    usable_pages_handed_out_once handover.usableMap handover.empty
  exact ⟨after, pages, run, list, drained 1⟩

end StarterKernel
