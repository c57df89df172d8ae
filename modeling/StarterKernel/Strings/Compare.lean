import StarterKernel.Kernel.Executables
import StarterKernel.Library.StateError
import StarterKernel.Library.ThreeWay

/-!
# Comparing strings (`string.c`)

`strcmp` compares strings by their lengths, then by the first characters that differ.
So it is the comparison of a linear order on the strings.
-/

namespace StarterKernel

open StateError

variable {machine : Machine} {bytes left right : List UInt8}

/-! ## Reading strings -/

/-- Reading the characters and the terminator of a string. -/
def ReadsString (str : Nat -> Kernel UInt8) (machine : Machine) (bytes : List UInt8) :
    Prop :=
  ∀ i ≤ bytes.length, str i machine = .ok (bytes.getD i 0) machine

theorem readsString_localString (bytes : List UInt8) :
    ReadsString (localString bytes) machine bytes :=
  fun _ _ => rfl

theorem strlenLoop_eq {str : Nat -> Kernel UInt8} {fuel len : Nat}
    (reads : ReadsString str machine bytes) (noNul : 0 ∉ bytes)
    (inside : len ≤ bytes.length) (enough : bytes.length < fuel + len) :
    strlenLoop str fuel len machine = .ok bytes.length machine := by
  induction fuel generalizing len with
  | zero => omega
  | succ fuel inductionHypothesis =>
      rw [strlenLoop, bind_of_ok (reads len inside)]
      by_cases more : len < bytes.length
      · have character : bytes.getD len 0 ≠ 0 := by
          rw [List.getD_eq_getElem _ _ more]
          exact fun isNul => noNul (isNul ▸ List.getElem_mem more)
        rw [if_pos character]
        exact inductionHypothesis more (by omega)
      · rw [List.getD_eq_default _ _ (by omega), if_neg (by simp),
          show len = bytes.length by omega]
        rfl

theorem strlen_eq {str : Nat -> Kernel UInt8}
    (reads : ReadsString str machine bytes) (noNul : 0 ∉ bytes)
    (short : bytes.length < wordSize) :
    strlen str machine = .ok bytes.length machine :=
  strlenLoop_eq reads noNul (Nat.zero_le _) short

theorem toInt32_of_lt {word : Nat} (small : word < 2 ^ 31) : toInt32 word = word := by
  unfold toInt32
  rw [if_pos (by omega)]
  omega

theorem toInt32_eq_iff {word small : Nat} (bound : small < 2 ^ 31) :
    toInt32 word = small ↔ word % 2 ^ 32 = small := by
  unfold toInt32
  split <;> omega

/-! ## The order -/

/-- The characters of a string as signed numbers. -/
def signedChars (bytes : List UInt8) : List Int := bytes.map fun byte => byte.toInt8.toInt

/-- The rank of a string: first its length, then its characters. -/
def stringRank (bytes : List UInt8) : Nat ×ₗ List Int :=
  toLex (bytes.length, signedChars bytes)

theorem signedChar_injective : Function.Injective fun byte : UInt8 => byte.toInt8.toInt := by
  intro left right same
  rw [← UInt8.toUInt8_toInt8 left, Int8.toInt_inj.mp same, UInt8.toUInt8_toInt8]

theorem signedChars_injective : Function.Injective signedChars :=
  List.map_injective_iff.mpr signedChar_injective

/-- Strings of the same rank are equal. -/
theorem stringRank_injective : Function.Injective stringRank := by
  intro left right same
  exact signedChars_injective (congrArg (fun rank => (ofLex rank).2) same)

/-- The loop of `strcmp` compares the remaining characters. -/
theorem strcmpLoop_compare {s1 s2 : Nat -> Kernel UInt8} {fuel i : Nat}
    (readsLeft : ∀ i < left.length, s1 i machine = .ok (left.getD i 0) machine)
    (readsRight : ∀ i < right.length, s2 i machine = .ok (right.getD i 0) machine)
    (sameLength : left.length = right.length)
    (inside : i ≤ left.length) (enough : left.length < fuel + i) :
    strcmpLoop s1 s2 left.length fuel i machine =
      .ok (ThreeWay.compare (signedChars (left.drop i)) (signedChars (right.drop i))) machine := by
  induction fuel generalizing i with
  | zero => omega
  | succ fuel inductionHypothesis =>
      by_cases more : i < left.length
      · have moreRight : i < right.length := by omega
        rw [strcmpLoop, if_pos (by omega), bind_of_ok (readsLeft i more),
          bind_of_ok (readsRight i moreRight), List.getD_eq_getElem _ _ more,
          List.getD_eq_getElem _ _ moreRight, List.drop_eq_getElem_cons more,
          List.drop_eq_getElem_cons moreRight, signedChars, signedChars, List.map_cons,
          List.map_cons, ThreeWay.compare_cons]
        by_cases same : left[i] = right[i]
        · rw [if_pos same, if_pos (by rw [same]), inductionHypothesis more (by omega)]
          rfl
        · have different : left[i].toInt8.toInt ≠ right[i].toInt8.toInt :=
            signedChar_injective.ne same
          rw [if_neg same, if_neg different, ThreeWay.compare, if_neg different]
          by_cases greater : left[i].toInt8 > right[i].toInt8
          · rw [if_pos greater, if_pos (Int8.lt_iff_toInt_lt.mp greater)]
            rfl
          · rw [if_neg greater, if_neg (mt Int8.lt_iff_toInt_lt.mpr greater)]
            rfl
      · rw [strcmpLoop, if_neg (by omega), List.drop_eq_nil_of_le (by omega),
          List.drop_eq_nil_of_le (by omega), ThreeWay.compare_self]
        rfl

/-- A NUL-terminated string of fewer than `2 ^ 31` characters that can be read. -/
structure CString (machine : Machine) where
  read : Nat -> Kernel UInt8
  bytes : List UInt8
  reads : ReadsString read machine bytes
  noNul : 0 ∉ bytes
  short : bytes.length < 2 ^ 31

/-- A string at the end of what can be read: an access past its NUL is a trap. -/
def upToNul (bytes : List UInt8) (i : Nat) : Kernel UInt8 :=
  if i ≤ bytes.length then return bytes.getD i 0 else throw .outOfBounds

theorem readsString_upToNul (bytes : List UInt8) :
    ReadsString (upToNul bytes) machine bytes := by
  intro i inside
  rw [upToNul, if_pos inside, pure_apply]

/-- The same characters, with nothing that can be read after them. -/
def CString.trapping (string : CString machine) : CString machine :=
  { string with read := upToNul string.bytes, reads := readsString_upToNul string.bytes }

/-- `strcmp` compares the ranks of two strings. -/
theorem CString.strcmp_eq (left right : CString machine) :
    strcmp left.read right.read machine =
      .ok (ThreeWay.compare (stringRank left.bytes) (stringRank right.bytes)) machine := by
  have shortLeft := left.short
  have shortRight := right.short
  rw [strcmp, bind_of_ok (strlen_eq left.reads left.noNul (by unfold wordSize; omega)),
    bind_of_ok (strlen_eq right.reads right.noNul (by unfold wordSize; omega)),
    toInt32_of_lt shortLeft, toInt32_of_lt shortRight, stringRank, stringRank,
    ThreeWay.compare_toLex]
  by_cases sameLength : left.bytes.length = right.bytes.length
  · rw [if_pos (by omega), if_pos sameLength]
    exact strcmpLoop_compare (fun i inside => left.reads i inside.le)
      (fun i inside => right.reads i inside.le) sameLength (Nat.zero_le _) (by omega)
  · rw [if_neg (by omega), if_neg sameLength, ThreeWay.compare, if_neg sameLength]
    by_cases greater : right.bytes.length < left.bytes.length
    · rw [if_pos (by omega), if_pos greater]
      rfl
    · rw [if_neg (by omega), if_neg greater]
      rfl

/-- `strcmp` is the comparison of a total order on the strings: it yields zero for equal
strings only, the opposite for exchanged arguments, and it is transitive.  It does not
read past the terminators. -/
theorem strcmp_totalOrder (s t u : CString machine) :
    ∃ st ts tu su,
      strcmp s.read t.read machine = .ok st machine ∧
      strcmp t.read s.read machine = .ok ts machine ∧
      strcmp t.read u.read machine = .ok tu machine ∧
      strcmp s.read u.read machine = .ok su machine ∧
      (st = 0 ↔ s.bytes = t.bytes) ∧ ts = -st ∧ (st ≤ 0 -> tu ≤ 0 -> su ≤ 0) ∧
      strcmp s.trapping.read t.trapping.read machine = .ok st machine := by
  refine ⟨_, _, _, _, s.strcmp_eq t, t.strcmp_eq s, t.strcmp_eq u, s.strcmp_eq u, ?_,
    ThreeWay.compare_swap, ThreeWay.compare_trans, s.trapping.strcmp_eq t.trapping⟩
  exact ThreeWay.compare_eq_zero_iff.trans stringRank_injective.eq_iff

end StarterKernel
