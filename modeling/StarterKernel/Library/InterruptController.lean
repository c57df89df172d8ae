import Mathlib.Data.Fin.Tuple.Basic
import Mathlib.Data.List.Find
import Mathlib.Order.Fin.Basic

/-!
# A pair of 8259A interrupt controllers

A controller has eight lines in order of priority.  It latches the requests on its
lines, and grants the first one that is not masked and that no line of the same or a
higher priority in service blocks.  A granted line is in service until the processor
reports the end of the interrupt.  Four initialization words set the controller up; the
fourth may be left out.  The second controller of a pair drives one line of the first.

Rotating priorities, specific ends of interrupt and the special modes are left out.
-/

namespace InterruptController

/-- One of the lines of a controller; smaller ones have priority. -/
abbrev Level := Fin 8

/-- The bit of a line in a register. -/
def test (lines : BitVec 8) (level : Level) : Bool := lines.getLsbD level

def raise (lines : BitVec 8) (level : Level) : BitVec 8 := lines ||| 1#8 <<< level.val

def lower (lines : BitVec 8) (level : Level) : BitVec 8 := lines &&& ~~~(1#8 <<< level.val)

theorem test_bit (level other : Level) :
    test (1#8 <<< level.val) other = decide (other = level) := by
  revert level other
  decide

@[simp] theorem test_zero (level : Level) : test 0 level = false := by
  simp [test]

@[simp] theorem test_raise (lines : BitVec 8) (level other : Level) :
    test (raise lines level) other = (test lines other || decide (other = level)) := by
  have bit := test_bit level other
  unfold test raise at *
  rw [BitVec.getLsbD_or, bit]

@[simp] theorem test_lower (lines : BitVec 8) (level other : Level) :
    test (lower lines level) other = (test lines other && !decide (other = level)) := by
  have bit := test_bit level other
  have bound := other.isLt
  unfold test lower at *
  rw [BitVec.getLsbD_and, BitVec.getLsbD_not, bit, decide_eq_true bound, Bool.true_and]

/-- What the controller takes a write to its data port for. -/
inductive Phase
  | ready
  | offset
  | cascade
  | mode
  deriving DecidableEq

/-- The state of one controller. -/
structure Chip where
  phase : Phase
  /-- The first word announced a fourth one. -/
  hasMode : Bool
  /-- The controller is not part of a pair. -/
  single : Bool
  /-- The vector of line 0. -/
  offset : BitVec 8
  /-- The lines another controller drives, or the identity of a driven one. -/
  cascade : BitVec 8
  /-- A granted line does not stay in service. -/
  automatic : Bool
  mask : BitVec 8
  request : BitVec 8
  service : BitVec 8

namespace Chip

/-- The highest line in service is served. -/
def endOfInterrupt (chip : Chip) : Chip :=
  match Fin.find? (test chip.service) with
  | some level => { chip with service := lower chip.service level }
  | none => chip

/-- A write to the command port: the first initialization word, which forgets requests,
masks and lines in service, or an end of interrupt. -/
def writeCommand (chip : Chip) (value : BitVec 8) : Chip :=
  if value.getLsbD 4 then
    { chip with
      phase := .offset
      hasMode := value.getLsbD 0
      single := value.getLsbD 1
      automatic := false
      mask := 0
      request := 0
      service := 0 }
  else if value = 0x20 then chip.endOfInterrupt
  else chip

/-- What follows the third word, or the second one of a single controller. -/
def afterCascade (chip : Chip) : Chip :=
  { chip with phase := if chip.hasMode then .mode else .ready }

/-- A write to the data port. -/
def writeData (chip : Chip) (value : BitVec 8) : Chip :=
  match chip.phase with
  | .offset =>
      let chip := { chip with offset := value &&& 0xF8 }
      if chip.single then chip.afterCascade else { chip with phase := .cascade }
  | .cascade => { chip with cascade := value }.afterCascade
  | .mode => { chip with automatic := value.getLsbD 1, phase := .ready }
  | .ready => { chip with mask := value }

/-- A device raises a line. -/
def interrupt (chip : Chip) (level : Level) : Chip :=
  { chip with request := raise chip.request level }

/-- The line that interrupts the processor, given the requests. -/
def grant (chip : Chip) (request : BitVec 8) : Option Level :=
  match Fin.find? fun level =>
      test chip.service level || (test request level && !test chip.mask level) with
  | some level => if test chip.service level then none else some level
  | none => none

/-- The processor takes the interrupt of a line. -/
def accept (chip : Chip) (level : Level) : Chip :=
  { chip with
    request := lower chip.request level
    service := if chip.automatic then chip.service else raise chip.service level }

variable {chip : Chip} {request : BitVec 8} {level : Level}

theorem grant_eq_some_iff :
    chip.grant request = some level ↔
      (test request level = true ∧ test chip.mask level = false) ∧
        (forall other, other ≤ level -> test chip.service other = false) ∧
        forall other, other < level ->
          (test request other && !test chip.mask other) = false := by
  unfold grant
  constructor
  · intro granted
    split at granted
    next found found_eq =>
      obtain ⟨candidate, before⟩ := Fin.find?_eq_some_iff.mp found_eq
      split at granted
      next => cases granted
      next idle =>
        cases granted
        simp only [Bool.or_eq_false_iff] at before
        refine ⟨by simpa [idle] using candidate, ?_, fun other smaller =>
          (before other smaller).2⟩
        intro other atMost
        rcases lt_or_eq_of_le atMost with smaller | rfl
        · exact (before other smaller).1
        · simpa using idle
    next => cases granted
  · rintro ⟨⟨requested, unmasked⟩, idle, before⟩
    have found : Fin.find? (fun level =>
        test chip.service level || (test request level && !test chip.mask level)) =
          some level := by
      rw [Fin.find?_eq_some_iff]
      refine ⟨by simp [requested, unmasked], fun other smaller => ?_⟩
      rw [idle other (le_of_lt smaller), before other smaller, Bool.false_or]
    rw [found]
    simp [idle level (le_refl level)]

/-- With no line in service the first request that is not masked is granted. -/
theorem grant_of_idle (idle : chip.service = 0) :
    chip.grant request =
      Fin.find? fun level => test request level && !test chip.mask level := by
  unfold grant
  simp only [idle, test_zero, Bool.false_or, Bool.false_eq_true, if_false]
  split
  next found => exact found.symm
  next missing => exact missing.symm

end Chip

/-- Two controllers, the second of which drives a line of the first. -/
structure Pair where
  primary : Chip
  secondary : Chip

namespace Pair

/-- The line of the first controller that the second one drives. -/
def cascadeLine : Level := 2

/-- The requests at the first controller. -/
def requests (pair : Pair) : BitVec 8 :=
  match pair.secondary.grant pair.secondary.request with
  | some _ => raise pair.primary.request cascadeLine
  | none => lower pair.primary.request cascadeLine

/-- The vector of the interrupt that the processor takes next, and the pair when it has
taken it. -/
def acknowledge (pair : Pair) : Option (BitVec 8 × Pair) :=
  match pair.primary.grant pair.requests with
  | none => none
  | some level =>
      let primary := pair.primary.accept level
      if level = cascadeLine then
        match pair.secondary.grant pair.secondary.request with
        | none => none
        | some inner =>
            some (pair.secondary.offset + BitVec.ofNat 8 inner,
              { primary := primary, secondary := pair.secondary.accept inner })
      else some (pair.primary.offset + BitVec.ofNat 8 level, { pair with primary := primary })

/-- A line of the first controller as a line of the pair. -/
def ofPrimary (level : Level) : Fin 16 := ⟨level, by omega⟩

/-- A line of the second controller as a line of the pair. -/
def ofSecondary (level : Level) : Fin 16 := ⟨level + 8, by omega⟩

/-- The levels of one controller. -/
def levels : List Level := [0, 1, 2, 3, 4, 5, 6, 7]

/-- The lines of the pair in order of priority; the driven line has no device. -/
def priority : List (Fin 16) :=
  [0, 1].map ofPrimary ++ (levels.map ofSecondary ++ [3, 4, 5, 6, 7].map ofPrimary)

theorem secondary_lt {num : Fin 16} (large : ¬num.val < 8) : num.val - 8 < 8 := by omega

/-- A device requests an interrupt on a line that is not masked. -/
def wants (pair : Pair) (num : Fin 16) : Bool :=
  if small : num.val < 8 then
    test pair.primary.request ⟨num, small⟩ && !test pair.primary.mask ⟨num, small⟩
  else
    test pair.secondary.request ⟨num - 8, secondary_lt small⟩ &&
      !test pair.secondary.mask ⟨num - 8, secondary_lt small⟩ && !test pair.primary.mask cascadeLine

/-- The vector of a line. -/
def vector (pair : Pair) (num : Fin 16) : BitVec 8 :=
  if num.val < 8 then pair.primary.offset + BitVec.ofNat 8 num
  else pair.secondary.offset + BitVec.ofNat 8 (num - 8)

theorem wants_ofPrimary (pair : Pair) (level : Level) : pair.wants (ofPrimary level) =
    (test pair.primary.request level && !test pair.primary.mask level) := by
  simp [wants, ofPrimary]

theorem wants_ofSecondary (pair : Pair) (level : Level) : pair.wants (ofSecondary level) =
    (test pair.secondary.request level && !test pair.secondary.mask level &&
      !test pair.primary.mask cascadeLine) := by
  simp [wants, ofSecondary]

theorem vector_ofPrimary (pair : Pair) (level : Level) :
    pair.vector (ofPrimary level) = pair.primary.offset + BitVec.ofNat 8 level := by
  simp [vector, ofPrimary]

theorem vector_ofSecondary (pair : Pair) (level : Level) :
    pair.vector (ofSecondary level) = pair.secondary.offset + BitVec.ofNat 8 level := by
  simp [vector, ofSecondary]

theorem test_requests (pair : Pair) (level : Level) :
    test pair.requests level =
      if level = cascadeLine then (pair.secondary.grant pair.secondary.request).isSome
      else test pair.primary.request level := by
  unfold requests
  cases pair.secondary.grant pair.secondary.request <;>
    by_cases driven : level = cascadeLine <;> simp [driven]

theorem find?_levels (wanted : Level -> Bool) : Fin.find? wanted = levels.find? wanted :=
  Fin.find?_eq_find?_finRange

/-- Lines other than the driven one are granted on their own requests. -/
theorem find?_requests (pair : Pair) {lines : List Level} (others : cascadeLine ∉ lines) :
    (lines.find? fun level => test pair.requests level && !test pair.primary.mask level) =
      lines.find? (pair.wants ∘ ofPrimary) := by
  apply List.find?_congr
  intro level member
  have other : level ≠ cascadeLine := fun driven => others (driven ▸ member)
  rw [Function.comp, wants_ofPrimary, test_requests, if_neg other]

/-- The second controller interrupts unless the line it drives is masked. -/
theorem find?_driven {pair : Pair} (idle : pair.secondary.service = 0) :
    levels.find? (pair.wants ∘ ofSecondary) =
      if test pair.primary.mask cascadeLine then none
      else pair.secondary.grant pair.secondary.request := by
  rw [Chip.grant_of_idle idle, find?_levels]
  cases masked : test pair.primary.mask cascadeLine with
  | true =>
      rw [if_pos rfl, List.find?_eq_none]
      intro level _
      simp [wants_ofSecondary, masked]
  | false =>
      rw [if_neg Bool.false_ne_true]
      apply List.find?_congr
      intro level _
      rw [Function.comp, wants_ofSecondary, masked, Bool.not_false, Bool.and_true]

/-- With no line in service, the processor is interrupted by the first line of the pair
that wants it. -/
theorem acknowledge_of_idle {pair : Pair} (idle : pair.primary.service = 0)
    (idleSecondary : pair.secondary.service = 0) :
    pair.acknowledge.map Prod.fst = (priority.find? pair.wants).map pair.vector := by
  have outer : pair.primary.grant pair.requests =
      levels.find? fun level =>
        test pair.requests level && !test pair.primary.mask level := by
    rw [Chip.grant_of_idle idle, find?_levels]
  have split : levels = [0, 1] ++ ([cascadeLine] ++ [3, 4, 5, 6, 7]) := rfl
  rw [split, List.find?_append, List.find?_append, List.find?_singleton, test_requests,
    if_pos rfl, find?_requests pair (by decide), find?_requests pair (by decide)] at outer
  rw [priority, List.find?_append, List.find?_append, List.find?_map, List.find?_map,
    List.find?_map, find?_driven idleSecondary]
  unfold acknowledge
  rw [outer]
  have notDriven {lines : List Level} {level : Level} (others : cascadeLine ∉ lines)
      (found : lines.find? (pair.wants ∘ ofPrimary) = some level) : level ≠ cascadeLine :=
    fun driven => others (driven ▸ List.mem_of_find?_eq_some found)
  -- The lines before the driven one, the driven one, and the lines behind it.
  cases high : [0, 1].find? (pair.wants ∘ ofPrimary) with
  | some level => simp [notDriven (by decide) high, vector_ofPrimary]
  | none =>
      cases masked : test pair.primary.mask cascadeLine <;>
        cases granted : pair.secondary.grant pair.secondary.request <;>
          cases low : [3, 4, 5, 6, 7].find? (pair.wants ∘ ofPrimary)
      all_goals simp [vector_ofPrimary, vector_ofSecondary]
      all_goals simp [notDriven (by decide) low]

end Pair
end InterruptController
