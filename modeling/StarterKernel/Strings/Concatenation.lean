import StarterKernel.Kernel.Strings
import StarterKernel.Strings.Compare
import StarterKernel.Paging.BootTables

/-!
# Concatenating strings (`strcat`)

`strcat` makes an array with one place for the terminator behind the characters, and
writes the terminator one place further.
-/

namespace StarterKernel

open StateError

variable {machine : Machine} {buf : LocalBuffer} {offset index : Int} {character : UInt8}
variable {characters : List UInt8}

/-! ## The writes -/

/-- Write characters one after the other. -/
def LocalBuffer.fill (buf : LocalBuffer) (offset : Int) : List UInt8 -> LocalBuffer
  | [] => buf
  | character :: characters => (buf.write offset character).fill (offset + 1) characters

theorem LocalBuffer.size_fill : (buf.fill offset characters).size = buf.size := by
  induction characters generalizing buf offset with
  | nil => rfl
  | cons character characters inductionHypothesis =>
      rw [fill, inductionHypothesis]
      rfl

theorem LocalBuffer.contents_write (other : Int) :
    (buf.write index character).contents other =
      if other = index then character else buf.contents other :=
  Function.update_apply ..

theorem LocalBuffer.contents_fill_outside
    (outside : index < offset ∨ offset + characters.length ≤ index) :
    (buf.fill offset characters).contents index = buf.contents index := by
  induction characters generalizing buf offset with
  | nil => rfl
  | cons character characters inductionHypothesis =>
      rw [List.length_cons] at outside
      rw [fill, inductionHypothesis (by omega), contents_write, if_neg (by omega)]

theorem LocalBuffer.contents_fill_inside {i : Nat} (inside : i < characters.length) :
    (buf.fill offset characters).contents (offset + i) = characters.getD i 0 := by
  induction characters generalizing buf offset i with
  | nil => cases inside
  | cons character characters inductionHypothesis =>
      rw [fill]
      cases i with
      | zero =>
          rw [contents_fill_outside (by omega), contents_write, if_pos (by omega)]
          rfl
      | succ i =>
          rw [List.length_cons] at inside
          have here : offset + (i + 1 : Nat) = offset + 1 + i := by omega
          rw [here, inductionHypothesis (by omega), List.getD_cons_succ]

/-- A loop of `strcat` writes the characters it reads. -/
theorem strcatLoop_eq {str : Nat -> Kernel UInt8} {fuel i : Nat}
    (reads : ∀ k < characters.length, str (i + k) machine = .ok (characters.getD k 0) machine)
    (enough : characters.length < fuel) :
    strcatLoop str offset (i + characters.length : Nat) fuel i buf machine =
      .ok (buf.fill (offset + i) characters) machine := by
  induction fuel generalizing i buf characters with
  | zero => omega
  | succ fuel inductionHypothesis =>
      rw [strcatLoop]
      cases characters with
      | nil =>
          rw [if_neg (by simp)]
          rfl
      | cons character characters =>
          simp only [List.length_cons] at reads enough ⊢
          have later := @inductionHypothesis (buf.write (offset + i) character) characters
            (i + 1) (fun k small => by
              rw [Nat.add_assoc, Nat.add_comm 1, reads (k + 1) (by omega),
                List.getD_cons_succ]) (by omega)
          have counts : i + (characters.length + 1) = i + 1 + characters.length := by omega
          have next : offset + (i + 1 : Nat) = offset + i + 1 := by omega
          have first : str i machine = .ok character machine := reads 0 (by omega)
          rw [if_pos (by omega), bind_of_ok first, counts]
          rw [next] at later
          exact later

theorem strcatLoop_start {str : Nat -> Kernel UInt8}
    (reads : ∀ k < characters.length, str k machine = .ok (characters.getD k 0) machine)
    (short : characters.length < 2 ^ 31) :
    strcatLoop str offset characters.length (2 ^ 31) 0 buf machine =
      .ok (buf.fill offset characters) machine := by
  have run := @strcatLoop_eq machine buf offset characters str (2 ^ 31) 0
    (fun k small => by rw [Nat.zero_add, reads k small]) short
  simpa using run

/-! ## The array -/

/-- What `strcat` is called with: a string, a string with at least `len` characters, and
an array whose size is an `int`, whatever it holds. -/
structure StrcatInput (machine : Machine) where
  dest : CString machine
  src : Nat -> Kernel UInt8
  srcBytes : List UInt8
  srcReads : ReadsString src machine srcBytes
  srcNoNul : 0 ∉ srcBytes
  len : Nat
  enough : len ≤ srcBytes.length
  short : dest.bytes.length + len + 1 < 2 ^ 31
  contents : Int -> UInt8

namespace StrcatInput

variable (input : StrcatInput machine)

/-- The call. -/
def call : Kernel LocalBuffer :=
  strcat input.dest.read input.src input.len input.contents

/-- The characters of the concatenation. -/
def concatenation : List UInt8 := input.dest.bytes ++ input.srcBytes.take input.len

/-- The array holds the concatenation and its terminator. -/
def Holds (buf : LocalBuffer) : Prop :=
  ∀ i ≤ input.concatenation.length, buf.contents i = input.concatenation.getD i 0

/-- Every write is inside the array, which afterwards holds the concatenation, a string of
that length. -/
def Builds : Prop :=
  ∃ buf, input.call machine = .ok buf machine ∧
    buf.size = input.concatenation.length + 1 ∧
    (∀ index ∈ buf.writes, 0 ≤ index ∧ index < buf.size) ∧ input.Holds buf ∧
    strlen (fun i => return buf.contents i) machine =
      .ok input.concatenation.length machine

/-- The array before the terminator is written. -/
def filled : LocalBuffer :=
  LocalBuffer.fill
    { size := input.concatenation.length + 1, contents := input.contents, writes := [] } 0
    input.concatenation

/-- The array after the call. -/
def result : LocalBuffer := input.filled.write (input.concatenation.length + 1) 0

end StrcatInput

theorem LocalBuffer.fill_append (more : List UInt8) :
    buf.fill offset (characters ++ more) =
      (buf.fill offset characters).fill (offset + characters.length) more := by
  induction characters generalizing buf offset with
  | nil => simp [fill]
  | cons character characters inductionHypothesis =>
      rw [List.cons_append, fill, fill, inductionHypothesis, List.length_cons]
      congr 1
      omega

namespace StrcatInput

variable (input : StrcatInput machine)

theorem length_concatenation :
    input.concatenation.length = input.dest.bytes.length + input.len := by
  rw [concatenation, List.length_append, List.length_take_of_le input.enough]

/-- The terminator is written one place behind the end of the array. -/
theorem call_eq : input.call machine = .ok input.result machine := by
  have short := input.short
  have enough := input.enough
  have lengths := input.length_concatenation
  have taken : (input.srcBytes.take input.len).length = input.len :=
    List.length_take_of_le enough
  have length := strlen_eq input.dest.reads input.dest.noNul (by unfold wordSize; omega)
  have readsTaken : ∀ k < (input.srcBytes.take input.len).length,
      input.src k machine = .ok ((input.srcBytes.take input.len).getD k 0) machine := by
    intro k small
    rw [input.srcReads k (by omega), List.getD_eq_getElem _ _ (by omega),
      List.getD_eq_getElem _ _ small, List.getElem_take]
  have size : arraySize (input.dest.bytes.length + input.len + 1) machine =
      .ok (input.dest.bytes.length + input.len + 1) machine := by
    rw [arraySize, if_neg (by omega), if_neg (by omega), pure_apply]
  rw [call, strcat, bind_of_ok length, toInt32_of_lt input.dest.short, bind_of_ok size,
    bind_of_ok (strcatLoop_start (fun k small => input.dest.reads k small.le)
    input.dest.short), ← taken, bind_of_ok (strcatLoop_start readsTaken (by omega)),
    pure_apply, result, filled, concatenation, LocalBuffer.fill_append, List.length_append]
  simp only [Int.zero_add, Nat.cast_add]

theorem size_result : input.result.size = input.concatenation.length + 1 :=
  LocalBuffer.size_fill

/-- One write is outside the array. -/
theorem size_mem_writes : input.result.size ∈ input.result.writes := by
  rw [size_result, result, LocalBuffer.write]
  exact List.mem_append_right _ (List.mem_singleton_self _)

theorem not_builds : ¬input.Builds := by
  rintro ⟨buf, run, _, inside, _⟩
  obtain rfl : input.result = buf := by
    rw [call_eq] at run
    injection run
  exact absurd (inside _ input.size_mem_writes).2 (lt_irrefl _)

/-- The terminator is the one that was in the array before. -/
theorem contents_result (i : Nat) (inside : i ≤ input.concatenation.length) :
    input.result.contents i =
      if i = input.concatenation.length then input.contents i
      else input.concatenation.getD i 0 := by
  rw [result, LocalBuffer.contents_write, if_neg (by omega), filled]
  by_cases last : i = input.concatenation.length
  · rw [if_pos last, LocalBuffer.contents_fill_outside (by omega)]
  · have character := @LocalBuffer.contents_fill_inside
      { size := input.concatenation.length + 1, contents := input.contents, writes := [] } 0
      input.concatenation i (by omega)
    rw [Int.zero_add] at character
    rw [if_neg last, character]

theorem holds_result_iff :
    input.Holds input.result ↔ input.contents input.concatenation.length = 0 := by
  have terminator := input.contents_result _ (Nat.le_refl _)
  rw [if_pos rfl] at terminator
  constructor
  · intro holds
    rw [← terminator, holds _ (Nat.le_refl _), List.getD_eq_default _ _ (Nat.le_refl _)]
  · intro zero i inside
    rw [input.contents_result i inside]
    by_cases last : i = input.concatenation.length
    · rw [if_pos last, last, zero, List.getD_eq_default _ _ (Nat.le_refl _)]
    · rw [if_neg last]

end StrcatInput

/-- No call of `strcat` stays inside its array: it always writes the place behind the end.
The array holds the concatenation exactly if a NUL was in its last place before. -/
theorem strcat_never_builds (input : StrcatInput machine) :
    ¬input.Builds ∧
      ∃ buf, input.call machine = .ok buf machine ∧ buf.size ∈ buf.writes ∧
        (input.Holds buf ↔ input.contents input.concatenation.length = 0) :=
  ⟨input.not_builds, input.result, input.call_eq, input.size_mem_writes,
    input.holds_result_iff⟩

/-- The strings `a` and `b`, and an array of other characters. -/
def strcatSample : StrcatInput (bootMachine fun _ => 0) where
  dest :=
    { read := upToNul [97]
      bytes := [97]
      reads := readsString_upToNul [97]
      noNul := by decide
      short := by decide }
  src := upToNul [98]
  srcBytes := [98]
  srcReads := readsString_upToNul [98]
  srcNoNul := by decide
  len := 1
  enough := by decide
  short := by decide
  contents _ := 120

/-- In an array of three characters the terminator is written at the index 3, and the last
place keeps what it held. -/
theorem strcat_misses_terminator :
    ¬strcatSample.Builds ∧ 3 ∈ strcatSample.result.writes ∧
      strcatSample.result.size = 3 ∧ strcatSample.result.contents 2 = 120 := by
  refine ⟨strcatSample.not_builds, ?_, ?_, ?_⟩
  · exact strcatSample.size_mem_writes
  · exact strcatSample.size_result
  · exact strcatSample.contents_result 2 (by decide)

end StarterKernel
