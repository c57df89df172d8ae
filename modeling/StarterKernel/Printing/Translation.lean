import StarterKernel.Kernel.Translate
import StarterKernel.Paging.LargePages
import StarterKernel.Exec.BootImage
import StarterKernel.Printing.Formats

/-!
# What `translate` prints

The walk of `translate` goes on below a large page, as that of the page table editors
does.  So what it prints last agrees with the walk of the processor unless a large page
covers the address, and then only if the bytes of the page, read as entries of a page
table, lead back to the right part of it.
-/

namespace StarterKernel

open RadixTree (Slot Walk)
open StateError

variable {memory : Nat -> UInt8} {root address depth level table : Nat}
variable {machine : Machine} {bytes more : List UInt8}

/-! ## Two walks -/

/-- The bytes at `table`, read as a page table, lead to a page. -/
def LeadsTo (memory : Nat -> UInt8) (table index page : Nat) : Prop :=
  (entryAt memory table index).present = true ∧ (entryAt memory table index).frame = page

/-- The bytes of a large page lead to the part of it that the address lies in.  A leaf
with two entries above it is a page of 2 MiB, one with a single entry above it is a page
of 1 GiB. -/
def LeafAgrees (memory : Nat -> UInt8) (address : Nat) (entry : PtEntry) (above : Nat) :
    Prop :=
  (above = 2 ->
    LeadsTo memory entry.frame (indices address 1)
      (entry.frame / 2 ^ 21 * 2 ^ 21 + 2 ^ 12 * indices address 1)) ∧
  (above = 1 ->
    ∃ table, LeadsTo memory entry.frame (indices address 2) table ∧
      LeadsTo memory table (indices address 1)
        (entry.frame / 2 ^ 30 * 2 ^ 30 + 2 ^ 21 * indices address 2 +
          2 ^ 12 * indices address 1))

/-- No large page covers the address, or its bytes lead to the right part of it. -/
def LargeAgrees (memory : Nat -> UInt8) (root address : Nat) : Prop :=
  ∀ entry links, treeWalk memory root (pagePath address) = .leaf (entry :: links) ->
    LeafAgrees memory address entry links.length

/-- The address that the code finds. -/
def takenAddress (memory : Nat -> UInt8) (root address : Nat) : Option Nat :=
  (takenTable memory root address 4).map fun page => page + indices address 0

/-- The address that the processor finds. -/
def hardwareAddress (memory : Nat -> UInt8) (root address : Nat) : Option Nat :=
  (translation memory root address).map Translation.physical

theorem hardwareAddress_of_leaf {entry : PtEntry} {links : List PtEntry}
    (leaf : treeWalk memory root (pagePath address) = .leaf (entry :: links)) :
    hardwareAddress memory root address =
      some (entry.frame / 2 ^ (12 + 9 * (3 - links.length)) *
        2 ^ (12 + 9 * (3 - links.length)) +
          address % 2 ^ (12 + 9 * (3 - links.length))) := by
  rw [hardwareAddress, translation_eq, leaf]
  rfl

/-- The offset of an address in a large page. -/
theorem mod_large (address : Nat) :
    address % 2 ^ 21 = 2 ^ 12 * indices address 1 + indices address 0 ∧
      address % 2 ^ 30 =
        2 ^ 21 * indices address 2 + 2 ^ 12 * indices address 1 + indices address 0 := by
  have offset : indices address 0 = address % 0x1000 := rfl
  have first : indices address 1 = address / 2 ^ (12 + 9 * 0) % 512 := rfl
  have second : indices address 2 = address / 2 ^ (12 + 9 * 1) % 512 := rfl
  rw [offset, first, second]
  omega

theorem takenTable_succ_eq_some {page : Nat}
    (taken : takenTable memory root address depth = some table) :
    takenTable memory root address (depth + 1) = some page ↔
      LeadsTo memory table (indices address (4 - depth)) page := by
  rw [takenTable, taken, Option.bind_some, LeadsTo]
  dsimp only
  split
  next present => simp [present]
  next absent => simp [absent]

theorem takenAddress_eq_some {page : Nat} :
    takenAddress memory root address = some (page + indices address 0) ↔
      takenTable memory root address 4 = some page := by
  rw [takenAddress, Option.map_eq_some_iff]
  constructor
  · rintro ⟨other, taken, same⟩
    rw [taken, Nat.add_right_cancel same]
  · exact fun taken => ⟨page, taken, rfl⟩

/-- Where the walks part at a leaf, the bytes of the page decide. -/
theorem leafAgrees_iff {entry : PtEntry} {above : Nat} (inner : 0 < above)
    (few : above ≤ 3) (taken : takenTable memory root address (above + 1) = some entry.frame) :
    takenAddress memory root address =
        some (entry.frame / 2 ^ (12 + 9 * (3 - above)) * 2 ^ (12 + 9 * (3 - above)) +
          address % 2 ^ (12 + 9 * (3 - above))) ↔
      LeafAgrees memory address entry above := by
  obtain ⟨inMiddle, inLarge⟩ := mod_large address
  have aligned := entry.frame_mod
  obtain rfl | rfl | rfl : above = 3 ∨ above = 2 ∨ above = 1 := by omega
  · -- The leaf maps a page of 4 KiB.
    have whole : entry.frame / 2 ^ 12 * 2 ^ 12 = entry.frame := by omega
    have small : LeafAgrees memory address entry 3 := ⟨by omega, by omega⟩
    refine ⟨fun _ => small, fun _ => ?_⟩
    rw [show 12 + 9 * (3 - 3) = 12 from rfl, whole]
    exact takenAddress_eq_some.mpr taken
  · -- One entry is read from a page of 2 MiB.
    rw [show 12 + 9 * (3 - 2) = 21 from rfl, inMiddle, ← Nat.add_assoc,
      takenAddress_eq_some, takenTable_succ_eq_some taken]
    exact ⟨fun leads => ⟨fun _ => leads, by omega⟩, fun agrees => agrees.1 rfl⟩
  · -- Two entries are read, the first from a page of 1 GiB.
    rw [show 12 + 9 * (3 - 1) = 30 from rfl, inLarge, ← Nat.add_assoc, ← Nat.add_assoc,
      takenAddress_eq_some]
    constructor
    · intro reached
      obtain ⟨table, last, leads⟩ := takenTable_succ_some reached
      exact ⟨by omega, fun _ => ⟨table, (takenTable_succ_eq_some taken).mp last, leads⟩⟩
    · rintro ⟨_, agrees⟩
      obtain ⟨table, first, second⟩ := agrees rfl
      have last : takenTable memory root address 3 = some table :=
        (takenTable_succ_eq_some taken).mpr first
      exact (takenTable_succ_eq_some last).mpr second

/-- The two walks find the same address exactly where large pages agree. -/
theorem takenAddress_eq_iff :
    takenAddress memory root address = hardwareAddress memory root address ↔
      LargeAgrees memory root address := by
  cases walk : treeWalk memory root (pagePath address) with
  | fault =>
      have notTaken : takenAddress memory root address = none := by
        rw [takenAddress, takenTable_of_fault walk]
        rfl
      have notFound : hardwareAddress memory root address = none := by
        rw [hardwareAddress, translation_eq, walk]
        rfl
      rw [notTaken, notFound]
      refine ⟨fun _ entry links leaf => ?_, fun _ => rfl⟩
      rw [walk] at leaf
      cases leaf
  | table frame entries => exact absurd walk (pagePath_ne_table frame entries)
  | leaf entries =>
      obtain ⟨entry, links, rfl⟩ := RadixTree.entries_of_leaf walk
      obtain ⟨inner, few, taken⟩ := takenTable_of_pagePath_leaf walk
      rw [hardwareAddress_of_leaf walk, leafAgrees_iff inner few taken]
      constructor
      · intro agrees other above leaf
        obtain ⟨rfl, rfl⟩ := List.cons.inj (Walk.leaf.inj (walk.symm.trans leaf))
        exact agrees
      · exact fun agrees => agrees entry links walk

/-! ## What is printed -/

/-- The machine after some bytes were given to `kprint_c`. -/
def Machine.printed (machine : Machine) (bytes : List UInt8) : Machine :=
  { machine with terminal := machine.terminal ++ bytes }

theorem Machine.printed_nil (machine : Machine) : machine.printed [] = machine := by
  rw [printed, List.append_nil]

theorem Machine.printed_printed (machine : Machine) (bytes more : List UInt8) :
    (machine.printed bytes).printed more = machine.printed (bytes ++ more) := by
  simp only [printed, List.append_assoc]

namespace Kernel

theorem kprintf_apply {format : String} {args : List Argument}
    (prints : kprintfBytes format args = some bytes) (machine : Machine) :
    kprintf format args machine = .ok () (machine.printed bytes) := by
  rw [kprintf, prints]
  rfl

/-- The call prints something and does nothing else. -/
def Prints (call : Kernel Unit) : Prop :=
  ∀ machine, ∃ bytes, call machine = .ok () (machine.printed bytes)

theorem Prints.of_isSome {format : String} {args : List Argument}
    (prints : (kprintfBytes format args).isSome = true) : Prints (kprintf format args) := by
  intro machine
  obtain ⟨bytes, same⟩ := Option.isSome_iff_exists.mp prints
  exact ⟨bytes, kprintf_apply same machine⟩

/-- The call prints something and does nothing else, and what it prints ends with `last`. -/
def PrintsLast {α : Type} (call : Kernel α) (machine : Machine) (value : α)
    (last : List UInt8) : Prop :=
  ∃ before, call machine = .ok value (machine.printed (before ++ last))

theorem PrintsLast.after {α : Type} {call : Kernel Unit} {next : Kernel α} {value : α}
    {last : List UInt8} (prints : Prints call)
    (rest : ∀ bytes, PrintsLast next (machine.printed bytes) value last) :
    PrintsLast (call >>= fun _ => next) machine value last := by
  obtain ⟨bytes, run⟩ := prints machine
  obtain ⟨before, goesOn⟩ := rest bytes
  refine ⟨bytes ++ before, ?_⟩
  rw [bind_of_ok run, goesOn, Machine.printed_printed, List.append_assoc]

theorem Prints.forM {α : Type} {body : α -> Kernel Unit} {items : List α}
    (each : ∀ item ∈ items, Prints (body item)) : Prints (items.forM body) := by
  induction items with
  | nil => exact fun machine => ⟨[], by rw [Machine.printed_nil]; rfl⟩
  | cons item items inductionHypothesis =>
      intro machine
      obtain ⟨bytes, run⟩ := each item (List.mem_cons_self ..) machine
      obtain ⟨more, goesOn⟩ := inductionHypothesis
        (fun other member => each other (List.mem_cons_of_mem _ member))
        (machine.printed bytes)
      exact ⟨bytes ++ more, by
        rw [forM_cons_apply, bind_of_ok run, goesOn, Machine.printed_printed]⟩

end Kernel

/-! ### The formats of `translate` -/

section Formats

variable {word other : Nat}

/-- A call with a complete format and proper arguments of the right kind prints
something. -/
theorem kprintfBytes_isSome {format : String} {args : List Argument} (kinds : List UInt8)
    (noNul : 0 ∉ textBytes format) (complete : Complete (textBytes format))
    (sameKinds : directives (textBytes format) = kinds)
    (fits : List.Forall₂ (fun d argument => argument.Fits d) kinds args)
    (proper : ∀ argument ∈ args, argument.Proper) :
    (kprintfBytes format args).isSome = true := by
  have fitsFormat : FitsFormat (textBytes format) args := by rwa [FitsFormat, sameKinds]
  obtain ⟨output, rendered⟩ := exists_rendered complete fitsFormat proper
  have held := stringAt_literal format
  obtain ⟨left, prints⟩ := (kprintfPrints_iff held noNul complete).mp
    ((kprintfPrints_iff_rendered held noNul complete fitsFormat).mpr rendered)
  have rounds : (textBytes format).length < format.length + 1 := by
    rw [textBytes, List.length_map, String.length_toList]
    exact Nat.lt_succ_self _
  rw [kprintfBytes, kprintfLoop_eq held noNul complete rounds, prints]
  rfl

theorem kprintf_address (bound : word < wordSize) :
    (kprintfBytes "og address: %p" [.word word]).isSome = true :=
  kprintfBytes_isSome [112] (by decide) (by decide) (by decide)
    (.cons (Argument.fits_word (by decide)) .nil) (by simpa [Argument.Proper] using bound)

theorem kprintf_index (levelBound : other < wordSize) (bound : word < wordSize) :
    (kprintfBytes "\n   level %d index is: %p" [.word other, .word word]).isSome = true :=
  kprintfBytes_isSome [100, 112] (by decide) (by decide) (by decide)
    (.cons (Argument.fits_word (by decide)) (.cons (Argument.fits_word (by decide)) .nil))
    (by simpa [Argument.Proper] using ⟨levelBound, bound⟩)

theorem kprintf_translating (bound : word < wordSize) :
    (kprintfBytes "Translating %p \n" [.word word]).isSome = true :=
  kprintfBytes_isSome [112] (by decide) (by decide) (by decide)
    (.cons (Argument.fits_word (by decide)) .nil) (by simpa [Argument.Proper] using bound)

theorem kprintf_level {level : Nat} (levelBound : level < wordSize)
    (indexBound : other < wordSize) (bound : word < wordSize) :
    (kprintfBytes "   level %d (index %d of %p)\n"
      [.word level, .word other, .word word]).isSome = true :=
  kprintfBytes_isSome [100, 100, 112] (by decide) (by decide) (by decide)
    (.cons (Argument.fits_word (by decide)) (.cons (Argument.fits_word (by decide))
      (.cons (Argument.fits_word (by decide)) .nil)))
    (by simpa [Argument.Proper] using ⟨levelBound, indexBound, bound⟩)

theorem kprintf_text {bytes : List UInt8} (short : bytes.length < 2 ^ 31) :
    (kprintfBytes "%s" [.text bytes]).isSome = true ∧
      (kprintfBytes "      %s" [.text bytes]).isSome = true := by
  have proper : ∀ argument ∈ [Argument.text bytes], argument.Proper := by
    simpa [Argument.Proper] using (cString_length_le bytes).trans_lt short
  constructor
  · exact kprintfBytes_isSome [115] (by decide) (by decide) (by decide) (.cons rfl .nil) proper
  · exact kprintfBytes_isSome [115] (by decide) (by decide) (by decide) (.cons rfl .nil) proper

theorem kprintf_next (bound : word < wordSize) :
    (kprintfBytes " ->  %p\n" [.word word]).isSome = true :=
  kprintfBytes_isSome [112] (by decide) (by decide) (by decide)
    (.cons (Argument.fits_word (by decide)) .nil) (by simpa [Argument.Proper] using bound)

/-- The last line where the walk finds the address. -/
theorem kprintf_maps (addressBound : other < wordSize) (bound : word < wordSize) :
    kprintfBytes "%p maps to %p\n" [.word other, .word word] =
      some ([48, 120] ++ hexText other ++ textBytes " maps to 0" ++
        120 :: (hexText word ++ [10])) := by
  have size : "%p maps to %p\n".length = 14 := rfl
  simp [kprintfBytes, size, kprintfLoop, literal, textBytes, directive, kprintPBytes_eq bound,
    kprintPBytes_eq addressBound]

/-- The last line where the walk finds an entry that is not present. -/
theorem kprintf_notPresent :
    kprintfBytes "   Not Present!\n" [] = some (textBytes "   Not Present" ++ [33, 10]) := by
  decide

end Formats

/-! ### The walk -/

namespace Kernel

theorem tableEntry_apply (tableFrame : IsFrame table) (hhdmBase : Nat) (machine : Machine) :
    tableEntry hhdmBase ((table + hhdmBase) % wordSize) (indices address (level + 1)) machine =
      .ok (entryAt machine.memory table (indices address (level + 1))) machine := by
  have read : ({ machine with hhdmBase := hhdmBase } : Machine).loadEntry
      (({ machine with hhdmBase := hhdmBase } : Machine).ptov table +
        8 * indices address (level + 1)) =
        entryAt machine.memory table (indices address (level + 1)) :=
    Machine.loadEntry_eq tableFrame (indices_lt address level)
  exact congrArg (EStateM.Result.ok · machine) read

/-- What the walk of `translate` prints last: nothing if it reaches the page. -/
def lastOfWalk : Option Nat -> List UInt8
  | some _ => []
  | none => textBytes "   Not Present" ++ [33, 10]

/-- The loop of `translate` finds what its walk finds, and prints last that an entry is
not present if one is not. -/
theorem translateLoop_prints (hhdmBase : Nat) (rootFrame : IsFrame root) (few : level ≤ 4)
    (sameMemory : machine.memory = memory)
    (taken : takenTable memory root address (4 - level) = some table) :
    PrintsLast (translateLoop hhdmBase address level table) machine
      (takenTable memory root address 4)
      (lastOfWalk (takenTable memory root address 4)) := by
  have tableFrame := isFrame_of_takenTable rootFrame taken
  induction level generalizing table machine with
  | zero =>
      rw [taken]
      exact ⟨[], by rw [lastOfWalk, List.append_nil, Machine.printed_nil]; rfl⟩
  | succ level inductionHypothesis =>
      have below : 4 - (4 - (level + 1)) = level + 1 := by omega
      have next : 4 - level = 4 - (level + 1) + 1 := by omega
      have inTable := indices_lt address level
      rw [PrintsLast, translateLoop]
      dsimp only
      rw [bind_of_ok (tableEntry_apply tableFrame hhdmBase machine), sameMemory]
      cases present :
        (entryAt memory table (indices address (level + 1))).present with
      | false =>
          have unreached : takenTable memory root address 4 = none :=
            takenTable_of_absent taken (by rw [below]; exact present) (by omega)
          rw [if_neg (by simp), unreached, bind_of_ok (kprintf_apply kprintf_notPresent machine)]
          refine ⟨[], ?_⟩
          rw [List.nil_append, lastOfWalk, pure_apply]
      | true =>
          have reached := takenTable_succ (by rw [below]; exact present) taken
          rw [below, ← next] at reached
          have frame := PtEntry.frame_lt
            (entryAt memory table (indices address (level + 1)))
          rw [if_pos rfl]
          refine PrintsLast.after (.of_isSome (kprintf_level (by unfold wordSize; omega)
            (by unfold wordSize; omega) (Nat.mod_lt _ (by decide)))) fun _ => ?_
          refine PrintsLast.after (.of_isSome (kprintf_text ?_).2) fun _ => ?_
          · split <;> decide
          refine PrintsLast.after (.of_isSome (kprintf_text ?_).1) fun _ => ?_
          · split <;> decide
          refine PrintsLast.after (.of_isSome (kprintf_text ?_).1) fun _ => ?_
          · split <;> decide
          refine PrintsLast.after (.of_isSome (kprintf_next (by unfold wordSize; omega)))
            fun _ => ?_
          exact inductionHypothesis (by omega) sameMemory reached
            (isFrame_of_takenTable rootFrame reached)

end Kernel

/-- What `translate` prints last, for what its walk finds. -/
def lastLine (address : Nat) : Option Nat -> List UInt8
  | some physical =>
      [48, 120] ++ hexText address ++ textBytes " maps to 0" ++
        120 :: (hexText physical ++ [10])
  | none => textBytes "   Not Present" ++ [33, 10]

/-- `translate` ends with a line about the address its walk finds. -/
theorem translate_prints (hdr : Stivale2Struct) (word : address < wordSize)
    (cr3 : machine.cr3 < 2 ^ 52) :
    Kernel.PrintsLast (Kernel.translate hdr address) machine ()
      (lastLine address (takenAddress machine.memory machine.root address)) := by
  have rootFrame : IsFrame machine.root := by
    unfold Machine.root
    exact ⟨by omega, by omega⟩
  have masked : machine.readCr3 &&& cr3Mask = machine.root := by
    rw [Machine.root, Nat.mod_eq_of_lt cr3]
    exact and_cr3Mask (by unfold wordSize Machine.readCr3; omega)
  have offset : indices address 0 < 2 ^ 12 := Nat.mod_lt _ (by decide)
  have pieces : ∀ level ∈ [4, 3, 2, 1, 0], indices address level < wordSize ∧
      level < wordSize := by
    intro level member
    refine ⟨?_, ?_⟩
    · rcases level with _ | level
      · unfold wordSize
        omega
      · have inTable := indices_lt address level
        unfold wordSize
        omega
    · simp only [List.mem_cons, List.not_mem_nil, or_false] at member
      unfold wordSize
      omega
  rw [Kernel.PrintsLast, Kernel.translate]
  rw [bind_of_ok (get_apply machine), masked]
  refine Kernel.PrintsLast.after (.of_isSome (kprintf_address word)) fun _ => ?_
  refine Kernel.PrintsLast.after (.forM fun level member => .of_isSome
    (kprintf_index (pieces level member).2 (pieces level member).1)) fun _ => ?_
  refine Kernel.PrintsLast.after (fun machine => ⟨[10], rfl⟩) fun _ => ?_
  refine Kernel.PrintsLast.after (.of_isSome (kprintf_translating word)) fun _ => ?_
  generalize later : Machine.printed _ _ = state
  have sameMemory : state.memory = machine.memory := by
    rw [← later]
    rfl
  have start : takenTable machine.memory machine.root address (4 - 4) = some machine.root := rfl
  obtain ⟨before, run⟩ :=
    Kernel.translateLoop_prints hdr.hhdm rootFrame (le_refl 4) sameMemory start
  rw [Kernel.PrintsLast, bind_of_ok run, takenAddress]
  cases reached : takenTable machine.memory machine.root address 4 with
  | none => exact ⟨before, rfl⟩
  | some page =>
      have bound := (isFrame_of_takenTable rootFrame reached).bound
      have noWrap : (page + indices address 0) % wordSize = page + indices address 0 :=
        Nat.mod_eq_of_lt (by unfold wordSize; omega)
      dsimp only
      rw [noWrap, Kernel.kprintf_apply (kprintf_maps word (by unfold wordSize; omega)),
        Machine.printed_printed, Kernel.lastOfWalk, List.append_nil]
      exact ⟨before, rfl⟩

/-! ### Telling the last lines apart -/

/-- Lists that end alike from the last occurrence of an item on. -/
theorem eq_of_suffix {α : Type} {item : α} {above other below last : List α}
    (ends : above ++ item :: last <:+ other ++ item :: below)
    (notLast : item ∉ last) (notBelow : item ∉ below) : last = below := by
  have tail : item :: last <:+ other ++ item :: below :=
    (List.suffix_append above _).trans ends
  rcases List.suffix_or_suffix_of_suffix tail (List.suffix_append other _) with
    inside | inside
  · rcases List.suffix_cons_iff.mp inside with same | deeper
    · exact List.tail_eq_of_cons_eq same
    · exact absurd (deeper.mem (List.mem_cons_self ..)) notBelow
  · rcases List.suffix_cons_iff.mp inside with same | deeper
    · exact (List.tail_eq_of_cons_eq same).symm
    · exact absurd (deeper.mem (List.mem_cons_self ..)) notLast

theorem not_mem_hexText {value : Nat} {byte : UInt8} (other : byte ≠ 103)
    (noDigit : Numerals.byteDigit byte = none) : byte ∉ hexText value := by
  intro member
  rcases mem_hexText member with digit | same
  · rw [noDigit] at digit
    cases digit
  · exact other same

/-- No text ends both in a number and in an exclamation mark. -/
theorem not_both_lines {value : Nat} {text : List UInt8}
    (number : hexText value ++ [10] <:+ text) (mark : [33, 10] <:+ text) : False := by
  have some : 0 < (hexText value).length := List.length_pos_iff.mpr hexText_ne_nil
  have inside : [33, 10] <:+ hexText value ++ [10] :=
    List.suffix_of_suffix_length_le mark number (by simp; omega)
  have member : 33 ∈ hexText value ++ [10] := inside.mem (List.mem_cons_self ..)
  rw [List.mem_append] at member
  rcases member with digit | newline
  · exact not_mem_hexText (by decide) (by decide) digit
  · exact absurd newline (by decide)

/-- The last line is the one for a result exactly if that is what the walk finds. -/
theorem lastLine_suffix_iff {found query : Option Nat} {before : List UInt8} :
    lastLine address query <:+ before ++ lastLine address found ↔ found = query := by
  refine ⟨fun ends => ?_, fun same => by rw [same]; exact List.suffix_append before _⟩
  have number : ∀ value, hexText value ++ [10] <:+ lastLine address (some value) :=
    fun value => (List.suffix_cons 120 _).trans (List.suffix_append _ _)
  have mark : [33, 10] <:+ lastLine address none := List.suffix_append _ _
  cases query with
  | some value =>
      cases found with
      | some other =>
          have notIn : ∀ value, 120 ∉ hexText value ++ [10] := by
            intro value member
            rw [List.mem_append] at member
            rcases member with digit | newline
            · exact not_mem_hexText (by decide) (by decide) digit
            · exact absurd newline (by decide)
          rw [lastLine, lastLine, ← List.append_assoc] at ends
          have same := eq_of_suffix ends (notIn value) (notIn other)
          rw [hexText_injective (List.append_cancel_right same)]
      | none =>
          exact (not_both_lines ((number value).trans ends)
            (mark.trans (List.suffix_append before _))).elim
  | none =>
      cases found with
      | some other =>
          exact (not_both_lines ((number other).trans (List.suffix_append before _))
            (mark.trans ends)).elim
      | none => rfl

/-! ## The agreement -/

/-- `translate` prints last where the processor maps the address, or that it does not. -/
structure TranslateAgrees (machine : Machine) (address : Nat) (printed : List UInt8) :
    Prop where
  maps : ∀ physical, lastLine address (some physical) <:+ printed ↔
    ∃ mapped, translation machine.memory machine.root address = some mapped ∧
      mapped.physical = physical
  absent : lastLine address none <:+ printed ↔
    translation machine.memory machine.root address = none

theorem translateAgrees_iff {before : List UInt8} {found : Option Nat} :
    TranslateAgrees machine address (before ++ lastLine address found) ↔
      found = hardwareAddress machine.memory machine.root address := by
  constructor
  · intro agrees
    cases translated : translation machine.memory machine.root address with
    | none =>
        rw [lastLine_suffix_iff.mp (agrees.absent.mpr translated), hardwareAddress, translated]
        rfl
    | some mapped =>
        have line := (agrees.maps mapped.physical).mpr ⟨mapped, translated, rfl⟩
        rw [lastLine_suffix_iff.mp line, hardwareAddress, translated]
        rfl
  · intro same
    refine ⟨fun physical => ?_, ?_⟩
    · rw [lastLine_suffix_iff, same, hardwareAddress, Option.map_eq_some_iff]
    · rw [lastLine_suffix_iff, same, hardwareAddress, Option.map_eq_none_iff]

theorem translate_agrees_iff_same (hdr : Stivale2Struct) (word : address < wordSize)
    (cr3 : machine.cr3 < 2 ^ 52) :
    (∃ printed,
      Kernel.translate hdr address machine =
        .ok () { machine with terminal := machine.terminal ++ printed } ∧
      TranslateAgrees machine address printed) ↔
      takenAddress machine.memory machine.root address =
        hardwareAddress machine.memory machine.root address := by
  obtain ⟨before, run⟩ := translate_prints hdr word cr3
  constructor
  · rintro ⟨printed, sameRun, agrees⟩
    have sameMachine := (EStateM.Result.ok.inj (run.symm.trans sameRun)).2
    have samePrinted : machine.terminal ++ (before ++ lastLine address
        (takenAddress machine.memory machine.root address)) = machine.terminal ++ printed :=
      congrArg Machine.terminal sameMachine
    rw [← List.append_cancel_left samePrinted] at agrees
    exact translateAgrees_iff.mp agrees
  · intro same
    exact ⟨_, run, translateAgrees_iff.mpr same⟩

/-- `translate` returns, changes nothing but the terminal, and agrees with the walk of the
processor exactly if no large page covers the address or its bytes lead to the right part
of it. -/
theorem translate_agrees_with_hardware_iff (hdr : Stivale2Struct) {machine : Machine}
    {address : Nat} (word : address < wordSize) (cr3 : machine.cr3 < 2 ^ 52) :
    (∃ printed,
      Kernel.translate hdr address machine =
        .ok () { machine with terminal := machine.terminal ++ printed } ∧
      TranslateAgrees machine address printed) ↔
      LargeAgrees machine.memory machine.root address :=
  (translate_agrees_iff_same hdr word cr3).trans takenAddress_eq_iff

/-- After boot the lower half has no large page. -/
theorem translate_agrees_with_hardware_bootMachine :
    ∃ start printed, (bootMachine (bootContent [])).memInit (bootHdr []) = some start ∧
      Kernel.translate (bootHdr []) 0x400000 start =
        .ok () { start with terminal := start.terminal ++ printed } ∧
      TranslateAgrees start 0x400000 printed := by
  obtain ⟨start, free, init, initialized, _⟩ := boot_initialized [] []
  have cr3 : start.cr3 = bootRoot := initialized.sameCr3
  have root : start.root = bootRoot := by
    rw [Machine.root, cr3]
    decide
  have agrees : LargeAgrees start.memory start.root 0x400000 := by
    intro entry links leaf
    have fault : treeWalk start.memory bootRoot (pagePath 0x400000) = .fault :=
      initialized.lower _ ((lowerPath_walkPath _ 3).mpr (by decide))
    rw [root, fault] at leaf
    cases leaf
  obtain ⟨printed, run, same⟩ := (translate_agrees_with_hardware_iff (bootHdr []) (by decide)
    (by rw [cr3]; decide)).mpr agrees
  exact ⟨start, printed, init, run, same⟩

/-- At the start of the direct map, which the processor maps to physical address 0,
`translate` finds no entry. -/
theorem translate_misses_direct_map :
    (∃ mapped, translation (bootMachine (bootContent [])).memory bootRoot bootHhdmBase =
        some mapped ∧ mapped.physical = 0) ∧
      takenAddress (bootMachine (bootContent [])).memory bootRoot bootHhdmBase = none ∧
      ¬∃ printed,
        Kernel.translate (bootHdr []) bootHhdmBase (bootMachine (bootContent [])) =
          .ok () { bootMachine (bootContent []) with
            terminal := (bootMachine (bootContent [])).terminal ++ printed } ∧
        TranslateAgrees (bootMachine (bootContent [])) bootHhdmBase printed := by
  have mapped := translation_bootMemory (bootContent []) (show 0 < 2 ^ 30 by decide)
  have missed : takenAddress (bootMachine (bootContent [])).memory bootRoot bootHhdmBase =
      none := by
    decide +kernel
  have found : hardwareAddress (bootMachine (bootContent [])).memory bootRoot bootHhdmBase =
      some 0 :=
    congrArg (Option.map Translation.physical) mapped
  refine ⟨⟨_, mapped, rfl⟩, missed, ?_⟩
  intro agrees
  have same := (translate_agrees_iff_same (bootHdr []) (by decide) (by decide)).mp agrees
  have root : (bootMachine (bootContent [])).root = bootRoot := by decide
  rw [root, missed, found] at same
  cases same

end StarterKernel
