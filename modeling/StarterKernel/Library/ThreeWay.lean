import Mathlib.Data.List.Lex
import Mathlib.Data.Prod.Lex

/-!
# Three-way comparisons

The comparison of two elements of a linear order as a number that is zero, positive or
negative.  On lists and on lexicographic pairs it is decided by the first difference.
-/

namespace ThreeWay

variable {α β : Type} [LinearOrder α] [LinearOrder β] {left right third : α}

/-- Zero for equal elements, otherwise 1 or -1 as the left one is greater or not. -/
def compare (left right : α) : Int :=
  if left = right then 0 else if right < left then 1 else -1

theorem compare_self : compare left left = 0 := if_pos rfl

theorem compare_of_lt (less : left < right) : compare left right = -1 := by
  rw [compare, if_neg less.ne, if_neg less.not_gt]

theorem compare_of_gt (greater : right < left) : compare left right = 1 := by
  rw [compare, if_neg greater.ne', if_pos greater]

/-- Only equal elements are compared as equal. -/
theorem compare_eq_zero_iff : compare left right = 0 ↔ left = right := by
  obtain less | rfl | greater := lt_trichotomy left right
  · simp [compare_of_lt less, less.ne]
  · simp [compare_self]
  · simp [compare_of_gt greater, greater.ne']

/-- The other way round the result is the opposite. -/
theorem compare_swap : compare right left = -compare left right := by
  obtain less | rfl | greater := lt_trichotomy left right
  · rw [compare_of_lt less, compare_of_gt less, Int.neg_neg]
  · rw [compare_self, Int.neg_zero]
  · rw [compare_of_lt greater, compare_of_gt greater]

theorem compare_le_zero_iff : compare left right ≤ 0 ↔ left ≤ right := by
  obtain less | rfl | greater := lt_trichotomy left right
  · simp [compare_of_lt less, less.le]
  · simp [compare_self]
  · simp [compare_of_gt greater, greater.not_ge]

/-- Comparisons that are not positive compose. -/
theorem compare_trans (first : compare left right ≤ 0) (second : compare right third ≤ 0) :
    compare left third ≤ 0 :=
  compare_le_zero_iff.mpr
    ((compare_le_zero_iff.mp first).trans (compare_le_zero_iff.mp second))

/-- A strictly monotone image is compared in the same way. -/
theorem compare_of_strictMono {image : α -> β} (mono : StrictMono image) :
    compare (image left) (image right) = compare left right := by
  obtain less | rfl | greater := lt_trichotomy left right
  · rw [compare_of_lt less, compare_of_lt (mono less)]
  · rw [compare_self, compare_self]
  · rw [compare_of_gt greater, compare_of_gt (mono greater)]

/-- Lists are compared by their first elements that differ. -/
theorem compare_cons {lefts rights : List α} :
    compare (left :: lefts) (right :: rights) =
      if left = right then compare lefts rights else compare left right := by
  by_cases same : left = right
  · subst same
    rw [if_pos rfl]
    exact compare_of_strictMono fun _ _ less => List.cons_lt_cons_iff.mpr (Or.inr ⟨rfl, less⟩)
  · rw [if_neg same]
    obtain less | greater := lt_or_gt_of_ne same
    · rw [compare_of_lt less, compare_of_lt (List.cons_lt_cons_iff.mpr (Or.inl less))]
    · rw [compare_of_gt greater, compare_of_gt (List.cons_lt_cons_iff.mpr (Or.inl greater))]

/-- Pairs are compared by their first components, unless these are equal. -/
theorem compare_toLex {a b : β} :
    compare (toLex (left, a)) (toLex (right, b)) =
      if left = right then compare a b else compare left right := by
  by_cases same : left = right
  · subst same
    rw [if_pos rfl]
    exact @compare_of_strictMono _ _ _ _ a b (fun element => toLex (left, element))
      fun _ _ less => Prod.Lex.toLex_lt_toLex.mpr (Or.inr ⟨rfl, less⟩)
  · rw [if_neg same]
    obtain less | greater := lt_or_gt_of_ne same
    · rw [compare_of_lt less, compare_of_lt (Prod.Lex.toLex_lt_toLex.mpr (Or.inl less))]
    · rw [compare_of_gt greater, compare_of_gt (Prod.Lex.toLex_lt_toLex.mpr (Or.inl greater))]

end ThreeWay
