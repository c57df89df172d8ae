import Mathlib.Data.Fin.Basic
import Mathlib.Data.Nat.ModEq
import Mathlib.Logic.Function.Basic
import Mathlib.Tactic.Common

/-!
# Queues in a circular array

An array of `n` slots holds a queue from the slot `head` on, wrapping around at
its end.  A queue is the list of its members, the oldest first.
-/

namespace RingQueue

variable {n : Nat} [NeZero n] {α : Type}

/-- The slot `offset` places after `head`. -/
def slot (n : Nat) [NeZero n] (head offset : Nat) : Fin n :=
  Fin.ofNat n (head + offset)

@[simp] theorem slot_val (head offset : Nat) :
    (slot n head offset).val = (head + offset) % n := rfl

/-- Fewer than `n` places apart, slots are different. -/
theorem slot_injective
    {head offset other : Nat} (bound : offset < n) (otherBound : other < n)
    (same : slot n head offset = slot n head other) :
    offset = other := by
  have congruent : (head + offset) % n = (head + other) % n := by
    simpa using congrArg Fin.val same
  have reduced : offset % n = other % n := Nat.ModEq.add_left_cancel' head congruent
  rwa [Nat.mod_eq_of_lt bound, Nat.mod_eq_of_lt otherBound] at reduced

/-- Only the position of the head in the array matters. -/
theorem slot_congr {head other : Nat} (same : head % n = other % n) (offset : Nat) :
    slot n head offset = slot n other offset := by
  ext
  simp only [slot_val]
  rw [Nat.add_mod, same, ← Nat.add_mod]

theorem slot_succ (head offset : Nat) :
    slot n (head + 1) offset = slot n head (offset + 1) := by
  ext
  simp only [slot_val, Nat.add_right_comm, Nat.add_assoc]

theorem slot_full (head : Nat) : slot n head n = slot n head 0 := by
  ext
  simp

/-! ## The members of a queue -/

/-- The slots from `head` on hold the members of the queue. -/
def Holds (cells : Fin n -> α) (head : Nat) (queue : List α) : Prop :=
  queue.length ≤ n ∧
    ∀ offset, (bound : offset < queue.length) ->
      cells (slot n head offset) = queue[offset]

namespace Holds

variable {cells : Fin n -> α} {head : Nat} {queue : List α} {value : α}

theorem empty (cells : Fin n -> α) (head : Nat) : Holds cells head [] :=
  ⟨Nat.zero_le n, fun offset bound => absurd bound (Nat.not_lt_zero offset)⟩

/-- Only the position of the head in the array matters. -/
theorem congr_head
    (holds : Holds cells head queue) {other : Nat}
    (same : head % n = other % n) :
    Holds cells other queue := by
  refine ⟨holds.1, fun offset bound => ?_⟩
  rw [← slot_congr same offset]
  exact holds.2 offset bound

/-- While there is room, a value put after the queue becomes its last member. -/
theorem push
    (holds : Holds cells head queue) (room : queue.length < n) (value : α) :
    Holds (Function.update cells (slot n head queue.length) value) head
      (queue ++ [value]) := by
  refine ⟨by simpa using Nat.succ_le_of_lt room, fun offset bound => ?_⟩
  rw [List.length_append, List.length_singleton] at bound
  rcases Nat.lt_succ_iff_lt_or_eq.mp bound with inside | last
  · have different : slot n head offset ≠ slot n head queue.length := by
      intro same
      have equal := slot_injective (Nat.lt_trans inside room) room same
      omega
    rw [Function.update_of_ne different, holds.2 offset inside]
    exact (List.getElem_append_left inside).symm
  · subst last
    simp

/-- The first member is in the slot of the head. -/
theorem front (holds : Holds cells head (value :: queue)) :
    cells (slot n head 0) = value :=
  holds.2 0 (Nat.zero_lt_succ _)

/-- Without its first member the queue starts one slot later. -/
theorem pop (holds : Holds cells head (value :: queue)) :
    Holds cells (head + 1) queue := by
  refine ⟨Nat.le_of_succ_le holds.1, fun offset bound => ?_⟩
  rw [slot_succ]
  exact holds.2 (offset + 1) (Nat.succ_lt_succ bound)

end Holds

/-! ## The occupied slots -/

/-- One of `count` slots from `head` on. -/
def Occupied (head count : Nat) (place : Fin n) : Prop :=
  ∃ offset, offset < count ∧ slot n head offset = place

variable {head count : Nat} {place : Fin n}

theorem not_occupied_zero : ¬ Occupied head 0 place := by
  rintro ⟨offset, bound, -⟩
  exact absurd bound (Nat.not_lt_zero offset)

/-- Only the position of the head in the array matters. -/
theorem occupied_congr {other : Nat} (same : head % n = other % n) :
    Occupied head count place ↔ Occupied other count place := by
  simp only [Occupied, slot_congr same]

/-- The slot after the occupied ones is occupied just when all of them are. -/
theorem occupied_tail_iff (bound : count ≤ n) :
    Occupied head count (slot n head count) ↔ count = n := by
  constructor
  · rintro ⟨offset, inside, same⟩
    by_contra notFull
    have room : count < n := by omega
    have equal := slot_injective (Nat.lt_trans inside room) room same
    omega
  · intro full
    subst full
    exact ⟨0, Nat.pos_of_neZero count, (slot_full head).symm⟩

/-- Filling the slot after the occupied ones. -/
theorem occupied_push :
    Occupied head (count + 1) place ↔
      Occupied head count place ∨ place = slot n head count := by
  constructor
  · rintro ⟨offset, bound, same⟩
    rcases Nat.lt_succ_iff_lt_or_eq.mp bound with inside | last
    · exact .inl ⟨offset, inside, same⟩
    · exact .inr (by rw [← same, last])
  · rintro (⟨offset, bound, same⟩ | same)
    · exact ⟨offset, Nat.lt_succ_of_lt bound, same⟩
    · exact ⟨count, Nat.lt_succ_self count, same.symm⟩

/-- Emptying the first of the occupied slots. -/
theorem occupied_pop (bound : count + 1 ≤ n) :
    Occupied (head + 1) count place ↔
      Occupied head (count + 1) place ∧ place ≠ slot n head 0 := by
  constructor
  · rintro ⟨offset, inside, same⟩
    rw [slot_succ] at same
    refine ⟨⟨offset + 1, Nat.succ_lt_succ inside, same⟩, fun isFirst => ?_⟩
    have equal : offset + 1 = 0 :=
      slot_injective (by omega) (Nat.pos_of_neZero n) (same.trans isFirst)
    omega
  · rintro ⟨⟨offset, inside, same⟩, notFirst⟩
    cases offset with
    | zero => exact absurd same.symm notFirst
    | succ offset =>
        refine ⟨offset, Nat.lt_of_succ_lt_succ inside, ?_⟩
        rwa [slot_succ]

end RingQueue
