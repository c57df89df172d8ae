import StarterKernel.Printing.Formats

/-!
# What `kprintf` reads of its format

The loop of `kprintf` tests for the NUL once a round, but a round at a `%` reads two
characters.  If a `%` is the last character of the format, the second one is the NUL, and
the loop goes on behind it.
-/

namespace StarterKernel

variable {memory other : Nat -> UInt8} {format : List UInt8} {index fuel : Nat}
variable {args as more : List Argument} {output : List UInt8} {c d : UInt8}

/-! ## The accesses of a round -/

theorem kprintfReads_terminator (here : memory index = 0) :
    kprintfReads memory (fuel + 1) index args = [index] := by
  rw [kprintfReads, if_pos here]

theorem kprintfReads_character (here : memory index = c) (present : c ≠ 0) (plain : c ≠ 37) :
    kprintfReads memory (fuel + 1) index args =
      index :: kprintfReads memory fuel (index + 1) args := by
  rw [kprintfReads, here, if_neg present, if_neg plain]

theorem mem_kprintfReads_conversion {read : Nat} (here : memory index = 37)
    (next : memory (index + 1) = d) :
    read ∈ kprintfReads memory (fuel + 1) index args ↔
      read = index ∨ read = index + 1 ∨
        ∃ bytes left, directive d args = some (bytes, left) ∧
          read ∈ kprintfReads memory fuel (index + 2) left := by
  rw [kprintfReads, here, if_neg (by decide), if_pos rfl, next, List.mem_cons, List.mem_cons]
  cases directive d args with
  | none => simp
  | some result =>
      obtain ⟨bytes, left⟩ := result
      simp

/-! ## Complete formats -/

/-- With a complete format no access goes past the NUL, whatever the arguments are. -/
theorem le_of_mem_kprintfReads {read : Nat} (held : StringAt memory index format)
    (noNul : 0 ∉ format) (complete : Complete format)
    (member : read ∈ kprintfReads memory fuel index args) :
    read ≤ index + format.length := by
  induction format using format_induction generalizing index fuel args with
  | nil =>
      cases fuel with
      | zero => cases member
      | succ fuel =>
          rw [kprintfReads_terminator held.terminator, List.mem_singleton] at member
          omega
  | unpaired => exact absurd complete (by decide)
  | conversion d rest inductionHypothesis =>
      rw [complete_conversion] at complete
      simp only [List.mem_cons, not_or] at noNul
      rw [List.length_cons, List.length_cons]
      cases fuel with
      | zero => cases member
      | succ fuel =>
          rw [mem_kprintfReads_conversion held.head held.tail.head] at member
          obtain rfl | rfl | ⟨_, _, _, later⟩ := member
          · omega
          · omega
          · have bound := inductionHypothesis held.tail.tail noNul.2.2 complete later
            omega
  | character c rest plain inductionHypothesis =>
      rw [complete_character plain] at complete
      simp only [List.mem_cons, not_or] at noNul
      rw [List.length_cons]
      cases fuel with
      | zero => cases member
      | succ fuel =>
          rw [kprintfReads_character held.head (Ne.symm noNul.1) plain,
            List.mem_cons] at member
          obtain rfl | later := member
          · omega
          · have bound := inductionHypothesis held.tail noNul.2 complete later
            omega

/-! ## Formats with an unpaired `%` at the end -/

/-- A call that ends has read the character behind the NUL. -/
theorem mem_kprintfReads_of_unpaired (held : StringAt memory index format)
    (noNul : 0 ∉ format) (incomplete : ¬Complete format)
    (ends : kprintfLoop memory fuel index args = some output) :
    index + format.length + 1 ∈ kprintfReads memory fuel index args := by
  induction format using format_induction generalizing index fuel args output with
  | nil => exact absurd rfl incomplete
  | unpaired =>
      cases fuel with
      | zero => cases ends
      | succ fuel =>
          rw [mem_kprintfReads_conversion held.head held.tail.terminator]
          rw [kprintfLoop_conversion held.head held.tail.terminator,
            directive_constant (by decide), Option.bind_some] at ends
          obtain ⟨later, rest, _⟩ := Option.map_eq_some_iff.mp ends
          refine Or.inr (Or.inr ⟨_, _, directive_constant (by decide), ?_⟩)
          cases fuel with
          | zero => cases rest
          | succ fuel =>
              rw [kprintfReads]
              split
              · exact List.mem_singleton_self _
              · split <;> exact List.mem_cons_self ..
  | conversion d rest inductionHypothesis =>
      rw [complete_conversion] at incomplete
      simp only [List.mem_cons, not_or] at noNul
      cases fuel with
      | zero => cases ends
      | succ fuel =>
          rw [mem_kprintfReads_conversion held.head held.tail.head]
          rw [kprintfLoop_conversion held.head held.tail.head, Option.bind_eq_some_iff] at ends
          obtain ⟨⟨bytes, left⟩, prints, goesOn⟩ := ends
          obtain ⟨later, ends, _⟩ := Option.map_eq_some_iff.mp goesOn
          have member := inductionHypothesis held.tail.tail noNul.2.2 incomplete ends
          refine Or.inr (Or.inr ⟨bytes, left, prints, ?_⟩)
          rw [List.length_cons, List.length_cons,
            show index + (rest.length + 1 + 1) + 1 = index + 2 + rest.length + 1 by omega]
          exact member
  | character c rest plain inductionHypothesis =>
      rw [complete_character plain] at incomplete
      simp only [List.mem_cons, not_or] at noNul
      cases fuel with
      | zero => cases ends
      | succ fuel =>
          rw [kprintfLoop_character held.head (Ne.symm noNul.1) plain,
            Option.map_eq_some_iff] at ends
          obtain ⟨later, ends, _⟩ := ends
          have member := inductionHypothesis held.tail noNul.2 incomplete ends
          rw [kprintfReads_character held.head (Ne.symm noNul.1) plain, List.length_cons,
            show index + (rest.length + 1) + 1 = index + 1 + rest.length + 1 by omega]
          exact List.mem_cons_of_mem _ member

/-! ## Staying inside -/

/-- The call ends, prints the same in every memory that holds the format, and reads it up
to its NUL only. -/
def StaysInside (format : List UInt8) (args : List Argument) : Prop :=
  ∃ output, ∀ memory, StringAt memory 0 format ->
    KprintfPrints memory args output ∧
      ∀ fuel, ∀ read ∈ kprintfReads memory fuel 0 args, read ≤ format.length

/-- Nothing but zeros after a format. -/
def zeroPadded (format : List UInt8) (i : Nat) : UInt8 := format.getD i 0

theorem stringAt_zeroPadded (format : List UInt8) : StringAt (zeroPadded format) 0 format := by
  intro i _
  rw [Nat.zero_add, zeroPadded]

theorem StaysInside.complete (stays : StaysInside format args) (noNul : 0 ∉ format) :
    Complete format := by
  by_contra incomplete
  obtain ⟨output, inside⟩ := stays
  have held := stringAt_zeroPadded format
  obtain ⟨⟨fuel, ends⟩, bounded⟩ := inside _ held
  have bound := bounded fuel _ (mem_kprintfReads_of_unpaired held noNul incomplete ends)
  omega

/-- A format has an output only if the counter of `kprint_s` gets through its strings. -/
theorem Rendered.short (rendered : Rendered format args output) {characters : List UInt8}
    (member : .text characters ∈ args) : (cString characters).length < 2 ^ 31 := by
  induction rendered with
  | nil => cases member
  | character _ _ inductionHypothesis => exact inductionHypothesis member
  | percent _ inductionHypothesis => exact inductionHypothesis member
  | unsupported _ _ _ inductionHypothesis => exact inductionHypothesis member
  | argument fits prints _ inductionHypothesis =>
      obtain rfl | later := List.mem_cons.mp member
      · cases fits
        by_contra long
        rw [printArgument, if_pos rfl, kprintSBytes_eq, if_neg long] at prints
        cases prints
      · exact inductionHypothesis later

/-- `kprintf` stays inside its format exactly if the format does not end right after an
unpaired `%` and the strings it prints have fewer than `2 ^ 31` characters. -/
theorem kprintf_staysInside_iff (noNul : 0 ∉ format) (fits : FitsFormat format as)
    (words : ∀ value, .word value ∈ as -> value < wordSize) :
    StaysInside format (as ++ more) ↔
      Complete format ∧
        ∀ characters, .text characters ∈ as -> (cString characters).length < 2 ^ 31 := by
  constructor
  · intro stays
    have complete := stays.complete noNul
    obtain ⟨output, inside⟩ := stays
    obtain ⟨prints, _⟩ := inside _ (stringAt_zeroPadded format)
    obtain ⟨left, pieces⟩ :=
      (kprintfPrints_iff (stringAt_zeroPadded format) noNul complete).mp prints
    obtain ⟨rendered, _⟩ := (printPieces_eq_some complete fits).mp pieces
    exact ⟨complete, fun characters member => rendered.short member⟩
  · rintro ⟨complete, short⟩
    have proper : ∀ argument ∈ as, argument.Proper := by
      intro argument member
      cases argument with
      | word value => exact words value member
      | text characters => exact short characters member
    obtain ⟨output, rendered⟩ := exists_rendered complete fits proper
    refine ⟨output, fun memory held => ⟨?_, fun fuel read member => ?_⟩⟩
    · exact (kprintfPrints_iff held noNul complete).mpr
        ⟨more, (printPieces_eq_some complete fits).mpr ⟨rendered, rfl⟩⟩
    · have bound := le_of_mem_kprintfReads held noNul complete member
      omega

/-- A format that `kprintf` stays inside of. -/
theorem kprintf_staysInside_sample :
    StaysInside (textBytes "%d%%") ([.word 7] ++ [.word 8]) :=
  (@kprintf_staysInside_iff (textBytes "%d%%") [.word 7] [.word 8] (by decide)
    (.cons (by decide : (100 : UInt8) ∈ [99, 100, 120, 112]) .nil)
    (by
      intro value member
      cases List.mem_singleton.mp member
      decide)).mpr
    ⟨by decide, fun characters member => by cases List.mem_singleton.mp member⟩

/-- The format `%` consists of an unpaired `%`: the loop reads the character behind its
NUL, and prints it. -/
theorem kprintf_leaves_percent :
    0 ∉ textBytes "%" ∧ FitsFormat (textBytes "%") [] ∧ ¬StaysInside (textBytes "%") [] ∧
      KprintfPrints (literal "%") [] (textBytes "<not supported>") ∧
      KprintfPrints (fun i => [37, 0, 65].getD i 0) [] (textBytes "<not supported>A") := by
  refine ⟨by decide, List.Forall₂.nil, fun stays => ?_, ⟨2, by decide⟩, ⟨3, by decide⟩⟩
  exact absurd (stays.complete (by decide)) (by decide)

end StarterKernel
