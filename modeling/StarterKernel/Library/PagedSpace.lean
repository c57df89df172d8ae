import Mathlib.Logic.Function.Basic

/-!
# Address spaces made of pages

An address space assigns to an address nothing, or the permissions of its page
and a byte.  Pages are mapped zeroed, their permissions are changed as a whole
and their bytes are written one range at a time.
-/

namespace PagedSpace

/-- What is found at a mapped address. -/
structure Cell (α : Type) where
  access : α
  byte : UInt8
  deriving DecidableEq

/-- An address space with permissions from `α`. -/
abbrev Space (α : Type) := Nat -> Option (Cell α)

variable {α : Type} {pageSize address position count : Nat} {access : α}
variable {space : Space α} {source : Nat -> UInt8}

/-- Map the page of an address to zeroes, unless the address is mapped. -/
def map (pageSize : Nat) (space : Space α) (address : Nat) (access : α) : Space α :=
  fun position =>
    if position / pageSize = address / pageSize ∧ space address = none then
      some { access := access, byte := 0 }
    else space position

/-- Change the permissions of the page of an address. -/
def protect (pageSize : Nat) (space : Space α) (address : Nat) (access : α) :
    Space α :=
  fun position =>
    if position / pageSize = address / pageSize then
      (space position).map fun cell => { cell with access := access }
    else space position

/-- Write `count` bytes at the mapped addresses from `address` on. -/
def write (space : Space α) (address count : Nat) (source : Nat -> UInt8) :
    Space α :=
  fun position =>
    if address ≤ position ∧ position < address + count then
      (space position).map fun cell =>
        { cell with byte := source (position - address) }
    else space position

theorem map_vacant (vacant : space address = none)
    (samePage : position / pageSize = address / pageSize) :
    map pageSize space address access position =
      some { access := access, byte := 0 } := by
  rw [map, if_pos ⟨samePage, vacant⟩]

theorem map_other (otherPage : position / pageSize ≠ address / pageSize) :
    map pageSize space address access position = space position := by
  rw [map, if_neg fun both => otherPage both.1]

/-- A mapped page is left alone. -/
theorem map_mapped (mapped : space address ≠ none) :
    map pageSize space address access = space := by
  funext position
  rw [map, if_neg fun both => mapped both.2]

theorem protect_same (samePage : position / pageSize = address / pageSize) :
    protect pageSize space address access position =
      (space position).map fun cell => { cell with access := access } := by
  rw [protect, if_pos samePage]

theorem protect_other (otherPage : position / pageSize ≠ address / pageSize) :
    protect pageSize space address access position = space position := by
  rw [protect, if_neg otherPage]

theorem write_inside
    (lower : address ≤ position) (upper : position < address + count) :
    write space address count source position =
      (space position).map fun cell =>
        { cell with byte := source (position - address) } := by
  rw [write, if_pos ⟨lower, upper⟩]

theorem write_outside
    (outside : position < address ∨ address + count ≤ position) :
    write space address count source position = space position := by
  rw [write, if_neg (by omega)]

@[simp] theorem write_zero : write space address 0 source = space := by
  funext position
  exact write_outside (by omega)

/-- Writing a range is writing its first byte and then the others. -/
theorem write_succ (count : Nat) :
    write space address (count + 1) source =
      write (write space address 1 fun _ => source 0) (address + 1) count
        fun offset => source (offset + 1) := by
  funext position
  by_cases inside : address ≤ position ∧ position < address + (count + 1)
  · rw [write_inside inside.1 inside.2]
    by_cases first : position = address
    · subst first
      have later : position < position + 1 ∨ position + 1 + count ≤ position := by
        omega
      rw [write_outside later, write_inside (Nat.le_refl position) (Nat.lt_succ_self _),
        Nat.sub_self]
    · have notFirst : position < address ∨ address + 1 ≤ position := by omega
      rw [write_inside (by omega) (by omega), write_outside notFirst,
        show position - (address + 1) + 1 = position - address by omega]
  · have outside : position < address + 1 ∨ address + 1 + count ≤ position := by omega
    have notFirst : position < address ∨ address + 1 ≤ position := by omega
    rw [write_outside (by omega), write_outside outside, write_outside notFirst]

/-! ## What is mapped -/

theorem protect_eq_none_iff :
    protect pageSize space address access position = none ↔ space position = none := by
  unfold protect
  split <;> simp

theorem write_eq_none_iff :
    write space address count source position = none ↔ space position = none := by
  unfold write
  split <;> simp

theorem map_eq_none_iff :
    map pageSize space address access position = none ↔
      space position = none ∧
        (position / pageSize = address / pageSize -> space address ≠ none) := by
  unfold map
  split
  next both => simp [both.1, both.2]
  next notBoth =>
    simp only [iff_self_and]
    intro _ samePage vacant
    exact notBoth ⟨samePage, vacant⟩

/-- The address that is mapped is mapped then. -/
theorem map_self_ne_none : map pageSize space address access address ≠ none :=
  fun isNone => (map_eq_none_iff.mp isNone).2 rfl (map_eq_none_iff.mp isNone).1

theorem map_ne_none (mapped : space position ≠ none) :
    map pageSize space address access position ≠ none :=
  fun isNone => mapped (map_eq_none_iff.mp isNone).1

/-- Writing does not change permissions. -/
theorem write_access :
    (write space address count source position).map Cell.access =
      (space position).map Cell.access := by
  unfold write
  split
  next =>
    rw [Option.map_map]
    rfl
  next => rfl

end PagedSpace
