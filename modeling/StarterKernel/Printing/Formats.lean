import StarterKernel.Kernel.Kprintf
import StarterKernel.Printing.Numbers
import Mathlib.Data.List.Forall2

/-!
# The pieces of a format

A format is a sequence of characters and of directives, which have two characters each.
A round of the loop of `kprintf` prints one of these pieces.  So what it prints for two
formats one after the other is what it prints for each of them.
-/

namespace StarterKernel

/-! ## Strings -/

/-- The characters that a string of C consists of: those before the first NUL. -/
def cString (characters : List UInt8) : List UInt8 := characters.takeWhile (· ≠ 0)

theorem cString_length_le (characters : List UInt8) :
    (cString characters).length ≤ characters.length :=
  (List.takeWhile_prefix _).length_le

section Strings

variable {str : Nat -> UInt8} {len fuel i : Nat}

theorem kprintSLoop_eq (inside : i ≤ len) (enough : len < fuel + i) :
    kprintSLoop str len fuel i = some ((List.range' i (len - i)).map str) := by
  induction fuel generalizing i with
  | zero => omega
  | succ fuel inductionHypothesis =>
      rw [kprintSLoop]
      by_cases more : i < len
      · rw [if_pos more, inductionHypothesis more (by omega), Option.map_some,
          show len - i = (len - (i + 1)) + 1 by omega, List.range'_succ, List.map_cons]
      · rw [if_neg more, show len - i = 0 by omega, List.range'_zero, List.map_nil]

theorem kprintSLoop_eq_none (long : fuel + i ≤ len) : kprintSLoop str len fuel i = none := by
  induction fuel generalizing i with
  | zero => rfl
  | succ fuel inductionHypothesis =>
      rw [kprintSLoop, if_pos (by omega), inductionHypothesis (by omega), Option.map_none]

/-- `kprint_s` prints the characters of its string, unless its counter overflows. -/
theorem kprintSBytes_eq (characters : List UInt8) :
    kprintSBytes characters =
      if (cString characters).length < 2 ^ 31 then some (cString characters) else none := by
  rw [kprintSBytes]
  change kprintSLoop _ (cString characters).length _ _ = _
  by_cases short : (cString characters).length < 2 ^ 31
  · rw [if_pos short, kprintSLoop_eq (Nat.zero_le _) (by omega), Nat.sub_zero]
    congr 1
    refine List.ext_getElem (by simp) fun i _ inside => ?_
    have prefixes : cString characters <+: characters := List.takeWhile_prefix _
    rw [List.getElem_map, List.getElem_range', Nat.zero_add, Nat.one_mul,
      List.getD_eq_getElem _ _ (inside.trans_le prefixes.length_le), prefixes.getElem inside]
  · rw [if_neg short, kprintSLoop_eq_none (by omega)]

end Strings

/-! ## The scan -/

/-- A character, or the character after a `%`. -/
inductive Piece
  | character (c : UInt8)
  | conversion (d : UInt8)
  deriving DecidableEq

/-- The pieces of a format, and whether it ends right after an unpaired `%`. -/
def scan : List UInt8 -> List Piece × Bool
  | [] => ([], false)
  | [c] => if c = 37 then ([], true) else ([.character c], false)
  | c :: d :: rest =>
      if c = 37 then (.conversion d :: (scan rest).1, (scan rest).2)
      else (.character c :: (scan (d :: rest)).1, (scan (d :: rest)).2)

/-- The scan of a format does not end right after an unpaired `%`. -/
def Complete (format : List UInt8) : Prop := (scan format).2 = false

instance Complete.decidable (format : List UInt8) : Decidable (Complete format) :=
  inferInstanceAs (Decidable (_ = _))

/-- The characters after a `%` that print an argument: `c`, `s`, `d`, `x` and `p`. -/
def takesArgument (d : UInt8) : Bool := d ∈ [99, 115, 100, 120, 112]

/-- The directive of a piece, if it prints an argument. -/
def Piece.wants : Piece -> Option UInt8
  | character _ => none
  | conversion d => if takesArgument d then some d else none

/-- The directives of a format that print an argument. -/
def directives (format : List UInt8) : List UInt8 := (scan format).1.filterMap Piece.wants

variable {format rest more : List UInt8} {c d : UInt8}

theorem scan_nil : scan [] = ([], false) := by rw [scan]

theorem scan_character (plain : c ≠ 37) :
    scan (c :: rest) = (.character c :: (scan rest).1, (scan rest).2) := by
  cases rest with
  | nil => simp only [scan, if_neg plain]
  | cons next rest => rw [scan, if_neg plain]

theorem scan_conversion :
    scan (37 :: d :: rest) = (.conversion d :: (scan rest).1, (scan rest).2) := by
  rw [scan, if_pos rfl]

theorem complete_character (plain : c ≠ 37) : Complete (c :: rest) ↔ Complete rest := by
  rw [Complete, Complete, scan_character plain]

theorem complete_conversion : Complete (37 :: d :: rest) ↔ Complete rest := by
  rw [Complete, Complete, scan_conversion]

/-- Formats are nothing, a lone `%`, a directive and a format, or a character and a
format. -/
theorem format_induction {motive : List UInt8 -> Prop} (nil : motive [])
    (unpaired : motive [37])
    (conversion : ∀ d rest, motive rest -> motive (37 :: d :: rest))
    (character : ∀ c rest, c ≠ 37 -> motive rest -> motive (c :: rest)) :
    ∀ format, motive format := by
  intro format
  induction format using scan.induct with
  | case1 => exact nil
  | case2 => exact unpaired
  | case3 c plain => exact character c [] plain nil
  | case4 d rest inductionHypothesis => exact conversion d rest inductionHypothesis
  | case5 c d rest plain inductionHypothesis =>
      exact character c (d :: rest) plain inductionHypothesis

/-- The scan of a complete format does not depend on what comes after it. -/
theorem scan_append (complete : Complete format) :
    scan (format ++ more) = ((scan format).1 ++ (scan more).1, (scan more).2) := by
  induction format using format_induction with
  | nil => simp [scan_nil]
  | unpaired => exact absurd complete (by decide)
  | conversion d rest inductionHypothesis =>
      rw [complete_conversion] at complete
      rw [List.cons_append, List.cons_append, scan_conversion, scan_conversion,
        inductionHypothesis complete, List.cons_append]
  | character c rest plain inductionHypothesis =>
      rw [complete_character plain] at complete
      rw [List.cons_append, scan_character plain, scan_character plain,
        inductionHypothesis complete, List.cons_append]

/-! ## Printing pieces -/

/-- What a piece prints, and the arguments it leaves. -/
def Piece.print : Piece -> List Argument -> Option (List UInt8 × List Argument)
  | character c, args => some ([c], args)
  | conversion d, args => directive d args

/-- What pieces print one after the other, and the arguments they leave. -/
def printPieces : List Piece -> List Argument -> Option (List UInt8 × List Argument)
  | [], args => some ([], args)
  | piece :: pieces, args => do
      let (bytes, args) ← piece.print args
      let (later, args) ← printPieces pieces args
      return (bytes ++ later, args)

theorem printPieces_cons_eq_some {piece : Piece} {pieces : List Piece}
    {args left : List Argument} {output : List UInt8} :
    printPieces (piece :: pieces) args = some (output, left) ↔
      ∃ bytes middle later, piece.print args = some (bytes, middle) ∧
        printPieces pieces middle = some (later, left) ∧ output = bytes ++ later := by
  rw [printPieces]
  simp only [Option.bind_eq_bind, Option.bind_eq_some_iff, Option.pure_def,
    Option.some.injEq, Prod.exists, Prod.mk.injEq]
  constructor
  · rintro ⟨bytes, middle, prints, later, rest, goesOn, rfl, rfl⟩
    exact ⟨bytes, middle, later, prints, goesOn, rfl⟩
  · rintro ⟨bytes, middle, later, prints, goesOn, rfl⟩
    exact ⟨bytes, middle, prints, later, left, goesOn, rfl, rfl⟩

theorem printPieces_append_eq_some {first second : List Piece} {args left : List Argument}
    {output : List UInt8} :
    printPieces (first ++ second) args = some (output, left) ↔
      ∃ bytes middle later, printPieces first args = some (bytes, middle) ∧
        printPieces second middle = some (later, left) ∧ output = bytes ++ later := by
  induction first generalizing args output with
  | nil => simp [printPieces]
  | cons piece first inductionHypothesis =>
      rw [List.cons_append, printPieces_cons_eq_some]
      simp only [printPieces_cons_eq_some, inductionHypothesis]
      constructor
      · rintro ⟨bytes, middle, _, prints, ⟨more, next, later, firsts, seconds, rfl⟩, rfl⟩
        exact ⟨_, _, _, ⟨bytes, middle, more, prints, firsts, rfl⟩, seconds,
          (List.append_assoc ..).symm⟩
      · rintro ⟨_, next, later, ⟨bytes, middle, more, prints, firsts, rfl⟩, seconds, rfl⟩
        exact ⟨bytes, middle, _, prints, ⟨more, next, later, firsts, seconds, rfl⟩,
          List.append_assoc ..⟩

/-! ## The loop -/

/-- The memory from `index` on holds a string and its NUL. -/
def StringAt (memory : Nat -> UInt8) (index : Nat) (bytes : List UInt8) : Prop :=
  ∀ i ≤ bytes.length, memory (index + i) = bytes.getD i 0

variable {memory : Nat -> UInt8} {index fuel : Nat} {args : List Argument}
variable {output : List UInt8}

theorem StringAt.head (held : StringAt memory index (c :: rest)) : memory index = c :=
  held 0 (Nat.zero_le _)

theorem StringAt.tail (held : StringAt memory index (c :: rest)) :
    StringAt memory (index + 1) rest := by
  intro i inside
  rw [Nat.add_assoc, Nat.add_comm 1, held (i + 1) (by simpa using inside),
    List.getD_cons_succ]

theorem StringAt.terminator (held : StringAt memory index []) : memory index = 0 :=
  held 0 (Nat.le_refl _)

/-- A round at a character that is not `%`. -/
theorem kprintfLoop_character (here : memory index = c) (present : c ≠ 0) (plain : c ≠ 37) :
    kprintfLoop memory (fuel + 1) index args =
      (kprintfLoop memory fuel (index + 1) args).map fun later => c :: later := by
  rw [kprintfLoop, here, if_neg present, if_neg plain]

/-- A round at a directive. -/
theorem kprintfLoop_conversion (here : memory index = 37) (next : memory (index + 1) = d) :
    kprintfLoop memory (fuel + 1) index args =
      (directive d args).bind fun (bytes, args) =>
        (kprintfLoop memory fuel (index + 2) args).map fun later => bytes ++ later := by
  rw [kprintfLoop, here, if_neg (by decide), if_pos rfl, next]
  cases directive d args <;> rfl

/-- A call that ends within some rounds ends in the same way within more of them. -/
theorem kprintfLoop_add (more : Nat)
    (ends : kprintfLoop memory fuel index args = some output) :
    kprintfLoop memory (fuel + more) index args = some output := by
  induction fuel generalizing index args output with
  | zero => cases ends
  | succ fuel inductionHypothesis =>
      rw [Nat.add_right_comm]
      by_cases last : memory index = 0
      · rw [kprintfLoop, if_pos last] at ends ⊢
        exact ends
      · by_cases percent : memory index = 37
        · rw [kprintfLoop_conversion percent rfl, Option.bind_eq_some_iff] at ends ⊢
          obtain ⟨⟨bytes, middle⟩, prints, goesOn⟩ := ends
          obtain ⟨later, rest, same⟩ := Option.map_eq_some_iff.mp goesOn
          exact ⟨_, prints, Option.map_eq_some_iff.mpr
            ⟨later, inductionHypothesis rest, same⟩⟩
        · rw [kprintfLoop_character rfl last percent, Option.map_eq_some_iff] at ends ⊢
          obtain ⟨later, rest, same⟩ := ends
          exact ⟨later, inductionHypothesis rest, same⟩

/-- The loop prints the pieces of a complete format, in fewer rounds than it has
characters, and stops at its NUL. -/
theorem kprintfLoop_eq (held : StringAt memory index format) (noNul : 0 ∉ format)
    (complete : Complete format) (enough : format.length < fuel) :
    kprintfLoop memory fuel index args =
      (printPieces (scan format).1 args).map Prod.fst := by
  induction format using format_induction generalizing index fuel args with
  | nil =>
      obtain ⟨fuel, rfl⟩ : ∃ rest, fuel = rest + 1 := Nat.exists_eq_succ_of_ne_zero (by omega)
      rw [kprintfLoop, if_pos held.terminator, scan_nil]
      rfl
  | unpaired => exact absurd complete (by decide)
  | conversion d rest inductionHypothesis =>
      obtain ⟨fuel, rfl⟩ : ∃ rest, fuel = rest + 1 := Nat.exists_eq_succ_of_ne_zero (by omega)
      rw [complete_conversion] at complete
      rw [kprintfLoop_conversion held.head held.tail.head, scan_conversion, printPieces]
      simp only [List.mem_cons, not_or] at noNul
      simp only [List.length_cons] at enough
      cases prints : directive d args with
      | none => simp [Piece.print, prints]
      | some result =>
          simp only [Option.bind_some, Piece.print, prints, Option.bind_eq_bind,
            inductionHypothesis held.tail.tail noNul.2.2 complete (show _ < fuel by omega)]
          cases printPieces (scan rest).1 result.2 <;> rfl
  | character c rest plain inductionHypothesis =>
      obtain ⟨fuel, rfl⟩ : ∃ rest, fuel = rest + 1 := Nat.exists_eq_succ_of_ne_zero (by omega)
      rw [complete_character plain] at complete
      simp only [List.mem_cons, not_or] at noNul
      simp only [List.length_cons] at enough
      rw [kprintfLoop_character held.head (Ne.symm noNul.1) plain, scan_character plain,
        printPieces, inductionHypothesis held.tail noNul.2 complete (by omega)]
      simp only [Piece.print, Option.bind_eq_bind, Option.bind_some]
      cases printPieces (scan rest).1 args <;> rfl

/-- The call of `kprintf` with the format at the start of the memory ends, having
printed `output`. -/
def KprintfPrints (memory : Nat -> UInt8) (args : List Argument) (output : List UInt8) :
    Prop :=
  ∃ fuel, kprintfLoop memory fuel 0 args = some output

/-- A call with a complete format prints its pieces. -/
theorem kprintfPrints_iff (held : StringAt memory 0 format) (noNul : 0 ∉ format)
    (complete : Complete format) :
    KprintfPrints memory args output ↔
      ∃ left, printPieces (scan format).1 args = some (output, left) := by
  have loop (more : Nat) : kprintfLoop memory (format.length + 1 + more) 0 args =
      (printPieces (scan format).1 args).map Prod.fst :=
    kprintfLoop_eq held noNul complete (by omega)
  have printed : (printPieces (scan format).1 args).map Prod.fst = some output ↔
      ∃ left, printPieces (scan format).1 args = some (output, left) := by
    simp [Option.map_eq_some_iff]
  rw [← printed]
  constructor
  · rintro ⟨fuel, ends⟩
    rw [← loop fuel, Nat.add_comm]
    exact kprintfLoop_add _ ends
  · intro prints
    exact ⟨format.length + 1, (loop 0).trans prints⟩

/-! ## Arguments of the right kind -/

/-- The argument is of the kind that a directive prints: a string for `s`, a word for the
others. -/
def Argument.Fits (argument : Argument) (d : UInt8) : Prop :=
  match argument with
  | .word _ => d ∈ [99, 100, 120, 112]
  | .text _ => d = 115

/-- One argument of the right kind for each directive of a format, and no others. -/
def FitsFormat (format : List UInt8) (args : List Argument) : Prop :=
  List.Forall₂ (fun d argument => argument.Fits d) (directives format) args

/-- What the matching `kprint_*` function prints for the argument of a directive. -/
def printArgument (d : UInt8) : Argument -> Option (List UInt8)
  | .word value =>
      if d = 99 then some [UInt8.ofNat value]
      else if d = 100 then kprintDBytes value
      else if d = 120 then kprintXBytes value
      else if d = 112 then kprintPBytes value
      else none
  | .text characters => if d = 115 then kprintSBytes characters else none

theorem Argument.fits_word {value : Nat} (ofWord : d ∈ [99, 100, 120, 112]) :
    (Argument.word value).Fits d := ofWord

theorem directive_argument {argument : Argument} (fits : argument.Fits d) :
    directive d (argument :: args) =
      (printArgument d argument).map fun bytes => (bytes, args) := by
  cases argument with
  | word value =>
      simp only [Argument.Fits, List.mem_cons, List.not_mem_nil, or_false] at fits
      obtain rfl | rfl | rfl | rfl := fits <;> rfl
  | text characters =>
      cases fits
      rfl

/-- What a directive without an argument prints. -/
def constantText (d : UInt8) : List UInt8 :=
  if d = 37 then [37] else textBytes "<not supported>"

theorem directive_constant (constant : takesArgument d = false) :
    directive d args = some (constantText d, args) := by
  have different : d ≠ 99 ∧ d ≠ 115 ∧ d ≠ 100 ∧ d ≠ 120 ∧ d ≠ 112 := by
    simpa [takesArgument] using constant
  obtain ⟨notC, notS, notD, notX, notP⟩ := different
  have prints : kprintSBytes (textBytes "<not supported>") =
      some (textBytes "<not supported>") := by
    rw [kprintSBytes_eq]
    decide
  unfold directive constantText
  by_cases percent : d = 37
  · rw [if_pos percent, if_pos percent]
  · rw [if_neg percent, if_neg percent, if_neg notC, if_neg notS, if_neg notD, if_neg notX,
      if_neg notP, prints, Option.map_some]

/-- The output of a format, clause by clause: characters are copied, each directive prints
its own argument, and `%%` and unsupported directives take none. -/
inductive Rendered : List UInt8 -> List Argument -> List UInt8 -> Prop
  | nil : Rendered [] [] []
  | character {c : UInt8} {format : List UInt8} {args : List Argument} {output : List UInt8}
      (plain : c ≠ 37) (rest : Rendered format args output) :
      Rendered (c :: format) args (c :: output)
  | percent {format : List UInt8} {args : List Argument} {output : List UInt8}
      (rest : Rendered format args output) :
      Rendered (37 :: 37 :: format) args (37 :: output)
  | unsupported {d : UInt8} {format : List UInt8} {args : List Argument}
      {output : List UInt8} (unsupported : takesArgument d = false) (other : d ≠ 37)
      (rest : Rendered format args output) :
      Rendered (37 :: d :: format) args (textBytes "<not supported>" ++ output)
  | argument {d : UInt8} {argument : Argument} {bytes format : List UInt8}
      {args : List Argument} {output : List UInt8} (fits : argument.Fits d)
      (prints : printArgument d argument = some bytes)
      (rest : Rendered format args output) :
      Rendered (37 :: d :: format) (argument :: args) (bytes ++ output)

theorem directives_character (plain : c ≠ 37) :
    directives (c :: rest) = directives rest := by
  rw [directives, directives, scan_character plain]
  rfl

theorem directives_conversion :
    directives (37 :: d :: rest) =
      if takesArgument d then d :: directives rest else directives rest := by
  rw [directives, directives, scan_conversion, List.filterMap_cons, Piece.wants]
  cases takesArgument d <;> rfl

theorem fitsFormat_nil : FitsFormat [] args ↔ args = [] := by
  rw [FitsFormat, directives, scan_nil]
  exact List.forall₂_nil_left_iff

theorem fitsFormat_character (plain : c ≠ 37) :
    FitsFormat (c :: rest) args ↔ FitsFormat rest args := by
  rw [FitsFormat, FitsFormat, directives_character plain]

theorem fitsFormat_constant (takes : takesArgument d = false) :
    FitsFormat (37 :: d :: rest) args ↔ FitsFormat rest args := by
  rw [FitsFormat, FitsFormat, directives_conversion, takes, if_neg (by decide)]

theorem fitsFormat_argument (takes : takesArgument d = true) :
    FitsFormat (37 :: d :: rest) args ↔
      ∃ argument others, argument.Fits d ∧ FitsFormat rest others ∧
        args = argument :: others := by
  rw [FitsFormat, directives_conversion, takes, if_pos rfl]
  exact List.forall₂_cons_left_iff

theorem Argument.Fits.takesArgument {argument : Argument} (fits : argument.Fits d) :
    takesArgument d = true := by
  cases argument with
  | word value =>
      simp only [Fits, List.mem_cons, List.not_mem_nil, or_false] at fits
      obtain rfl | rfl | rfl | rfl := fits <;> decide
  | text characters =>
      cases fits
      decide

theorem rendered_character (plain : c ≠ 37) :
    Rendered (c :: rest) args output ↔
      ∃ later, Rendered rest args later ∧ output = c :: later := by
  constructor
  · intro rendered
    cases rendered with
    | character _ rendered => exact ⟨_, rendered, rfl⟩
    | percent _ => exact absurd rfl plain
    | unsupported _ _ _ => exact absurd rfl plain
    | argument _ _ _ => exact absurd rfl plain
  · rintro ⟨later, rendered, rfl⟩
    exact .character plain rendered

theorem rendered_constant (constant : takesArgument d = false) :
    Rendered (37 :: d :: rest) args output ↔
      ∃ later, Rendered rest args later ∧ output = constantText d ++ later := by
  constructor
  · intro rendered
    cases rendered with
    | character plain _ => exact absurd rfl plain
    | percent rendered => exact ⟨_, rendered, rfl⟩
    | unsupported _ other rendered =>
        exact ⟨_, rendered, by rw [constantText, if_neg other]⟩
    | argument fits _ _ => exact absurd fits.takesArgument (by simp [constant])
  · rintro ⟨later, rendered, rfl⟩
    by_cases percent : d = 37
    · subst percent
      exact .percent rendered
    · rw [constantText, if_neg percent]
      exact .unsupported constant percent rendered

theorem rendered_argument {argument : Argument} (fits : argument.Fits d) :
    Rendered (37 :: d :: rest) (argument :: args) output ↔
      ∃ bytes later, printArgument d argument = some bytes ∧ Rendered rest args later ∧
        output = bytes ++ later := by
  constructor
  · intro rendered
    cases rendered with
    | character plain _ => exact absurd rfl plain
    | percent _ => exact absurd fits.takesArgument (by decide)
    | unsupported constant _ _ => exact absurd fits.takesArgument (by simp [constant])
    | argument _ prints rendered => exact ⟨_, _, prints, rendered, rfl⟩
  · rintro ⟨bytes, later, prints, rendered, rfl⟩
    exact .argument fits prints rendered

/-- With arguments that fit a complete format, its pieces print the output of the format
and leave exactly the arguments that follow. -/
theorem printPieces_eq_some {more left : List Argument} (complete : Complete format)
    (fits : FitsFormat format args) :
    printPieces (scan format).1 (args ++ more) = some (output, left) ↔
      Rendered format args output ∧ left = more := by
  induction format using format_induction generalizing args output with
  | nil =>
      obtain rfl := fitsFormat_nil.mp fits
      rw [scan_nil, printPieces]
      constructor
      · intro same
        cases same
        exact ⟨.nil, rfl⟩
      · rintro ⟨rendered, rfl⟩
        cases rendered
        rfl
  | unpaired => exact absurd complete (by decide)
  | conversion d rest inductionHypothesis =>
      rw [complete_conversion] at complete
      rw [scan_conversion, printPieces_cons_eq_some]
      cases takes : takesArgument d with
      | false =>
          rw [fitsFormat_constant takes] at fits
          rw [rendered_constant takes, Piece.print, directive_constant takes]
          constructor
          · rintro ⟨_, _, later, ⟨⟩, prints, rfl⟩
            obtain ⟨rendered, rfl⟩ := (inductionHypothesis complete fits).mp prints
            exact ⟨⟨later, rendered, rfl⟩, rfl⟩
          · rintro ⟨⟨later, rendered, rfl⟩, rfl⟩
            exact ⟨_, _, later, rfl,
              (inductionHypothesis complete fits).mpr ⟨rendered, rfl⟩, rfl⟩
      | true =>
          obtain ⟨argument, args, first, others, rfl⟩ := (fitsFormat_argument takes).mp fits
          rw [rendered_argument first, Piece.print, List.cons_append,
            directive_argument first]
          constructor
          · rintro ⟨bytes, _, later, printed, prints, rfl⟩
            obtain ⟨_, ofArgument, same⟩ := Option.map_eq_some_iff.mp printed
            cases same
            obtain ⟨rendered, rfl⟩ := (inductionHypothesis complete others).mp prints
            exact ⟨⟨bytes, later, ofArgument, rendered, rfl⟩, rfl⟩
          · rintro ⟨⟨bytes, later, ofArgument, rendered, rfl⟩, rfl⟩
            exact ⟨bytes, _, later, by rw [ofArgument, Option.map_some],
              (inductionHypothesis complete others).mpr ⟨rendered, rfl⟩, rfl⟩
  | character c rest plain inductionHypothesis =>
      rw [complete_character plain] at complete
      rw [fitsFormat_character plain] at fits
      rw [scan_character plain, printPieces_cons_eq_some, rendered_character plain]
      constructor
      · rintro ⟨_, _, later, ⟨⟩, prints, rfl⟩
        obtain ⟨rendered, rfl⟩ := (inductionHypothesis complete fits).mp prints
        exact ⟨⟨later, rendered, rfl⟩, rfl⟩
      · rintro ⟨⟨later, rendered, rfl⟩, rfl⟩
        exact ⟨[c], _, later, rfl, (inductionHypothesis complete fits).mpr ⟨rendered, rfl⟩,
          rfl⟩

/-! ## Two formats -/

/-- A word of the machine, or a string that the counter of `kprint_s` gets through. -/
def Argument.Proper : Argument -> Prop
  | .word value => value < wordSize
  | .text characters => (cString characters).length < 2 ^ 31

theorem kprintPBytes_eq {word : Nat} (bound : word < wordSize) :
    kprintPBytes word = some ([48, 120] ++ hexText word) := by
  rw [kprintPBytes, kprintXBytes_hexText bound, Option.map_some]

theorem Argument.Proper.prints {argument : Argument} (proper : argument.Proper)
    (fits : argument.Fits d) : ∃ bytes, printArgument d argument = some bytes := by
  cases argument with
  | word value =>
      simp only [Argument.Fits, List.mem_cons, List.not_mem_nil, or_false] at fits
      obtain rfl | rfl | rfl | rfl := fits
      · exact ⟨_, rfl⟩
      · exact ⟨_, kprintDBytes_eq proper⟩
      · exact ⟨_, kprintXBytes_hexText proper⟩
      · exact ⟨_, kprintPBytes_eq proper⟩
  | text characters =>
      cases fits
      exact ⟨_, (kprintSBytes_eq characters).trans (if_pos proper)⟩

/-- With proper arguments a complete format has an output. -/
theorem exists_rendered (complete : Complete format) (fits : FitsFormat format args)
    (proper : ∀ argument ∈ args, argument.Proper) :
    ∃ output, Rendered format args output := by
  induction format using format_induction generalizing args with
  | nil =>
      obtain rfl := fitsFormat_nil.mp fits
      exact ⟨[], .nil⟩
  | unpaired => exact absurd complete (by decide)
  | conversion d rest inductionHypothesis =>
      rw [complete_conversion] at complete
      cases takes : takesArgument d with
      | false =>
          rw [fitsFormat_constant takes] at fits
          obtain ⟨later, rendered⟩ := inductionHypothesis complete fits proper
          exact ⟨_, (rendered_constant takes).mpr ⟨later, rendered, rfl⟩⟩
      | true =>
          obtain ⟨argument, args, first, others, rfl⟩ := (fitsFormat_argument takes).mp fits
          obtain ⟨bytes, prints⟩ := (proper argument (List.mem_cons_self ..)).prints first
          obtain ⟨later, rendered⟩ := inductionHypothesis complete others
            fun other member => proper other (List.mem_cons_of_mem _ member)
          exact ⟨_, .argument first prints rendered⟩
  | character c rest plain inductionHypothesis =>
      rw [complete_character plain] at complete
      rw [fitsFormat_character plain] at fits
      obtain ⟨later, rendered⟩ := inductionHypothesis complete fits proper
      exact ⟨_, .character plain rendered⟩

/-- A call with a complete format and the arguments that fit it prints its output. -/
theorem kprintfPrints_iff_rendered (held : StringAt memory 0 format) (noNul : 0 ∉ format)
    (complete : Complete format) (fits : FitsFormat format args) :
    KprintfPrints memory args output ↔ Rendered format args output := by
  rw [kprintfPrints_iff held noNul complete]
  have exact := @printPieces_eq_some format args output [] 
  simp only [List.append_nil] at exact
  constructor
  · rintro ⟨left, prints⟩
    exact ((exact complete fits).mp prints).1
  · intro rendered
    exact ⟨[], (exact complete fits).mpr ⟨rendered, rfl⟩⟩

/-- `kprintf` is compositional: for one complete format after another it prints what it
prints for the first with its own arguments and then what it prints for the second.  What
it prints for a format is its output, which exists for proper arguments. -/
theorem kprintf_append {f g : List UInt8} {as bs : List Argument}
    {memory first second : Nat -> UInt8}
    (held : StringAt memory 0 (f ++ g)) (heldFirst : StringAt first 0 f)
    (heldSecond : StringAt second 0 g) (noNulFirst : 0 ∉ f) (noNulSecond : 0 ∉ g)
    (completeFirst : Complete f) (completeSecond : Complete g) (fits : FitsFormat f as) :
    (∀ output, KprintfPrints memory (as ++ bs) output ↔
      ∃ earlier later, KprintfPrints first as earlier ∧ KprintfPrints second bs later ∧
        output = earlier ++ later) ∧
    (∀ output, KprintfPrints first as output ↔ Rendered f as output) ∧
    ((∀ argument ∈ as, argument.Proper) -> ∃ output, KprintfPrints first as output) := by
  have rendered (output : List UInt8) :
      KprintfPrints first as output ↔ Rendered f as output :=
    kprintfPrints_iff_rendered heldFirst noNulFirst completeFirst fits
  have scanned := @scan_append f g completeFirst
  have noNul : 0 ∉ f ++ g := by
    rw [List.mem_append, not_or]
    exact ⟨noNulFirst, noNulSecond⟩
  have complete : Complete (f ++ g) := by
    rw [Complete, scanned]
    exact completeSecond
  refine ⟨fun output => ?_, rendered, fun proper => ?_⟩
  · rw [kprintfPrints_iff held noNul complete, scanned]
    simp only [printPieces_append_eq_some, rendered,
      kprintfPrints_iff heldSecond noNulSecond completeSecond]
    constructor
    · rintro ⟨left, earlier, _, later, firsts, seconds, rfl⟩
      obtain ⟨output, rfl⟩ := (printPieces_eq_some completeFirst fits).mp firsts
      exact ⟨earlier, later, output, ⟨left, seconds⟩, rfl⟩
    · rintro ⟨earlier, later, output, ⟨left, seconds⟩, rfl⟩
      exact ⟨left, earlier, bs, later,
        (printPieces_eq_some completeFirst fits).mpr ⟨output, rfl⟩, seconds, rfl⟩
  · obtain ⟨output, outputs⟩ := exists_rendered completeFirst fits proper
    exact ⟨output, (rendered output).mpr outputs⟩

theorem stringAt_literal (text : String) : StringAt (literal text) 0 (textBytes text) := by
  intro i _
  rw [Nat.zero_add, literal]

/-- Two directives, each in a format of its own. -/
theorem kprintf_append_sample :
    KprintfPrints (literal "%d of %s") [.word 12, .text (textBytes "20")]
      (textBytes "12 of 20") :=
  ((@kprintf_append (textBytes "%d of ") (textBytes "%s") [.word 12]
      [.text (textBytes "20")] (literal "%d of %s") (literal "%d of ") (literal "%s")
      (stringAt_literal "%d of %s") (stringAt_literal _) (stringAt_literal _) (by decide)
      (by decide) (by decide) (by decide)
      (.cons (by decide : (100 : UInt8) ∈ [99, 100, 120, 112]) .nil)).1 _).mpr
    ⟨textBytes "12 of ", textBytes "20", ⟨7, by decide⟩, ⟨3, by decide⟩, by decide⟩

end StarterKernel
