import StarterKernel.Kernel.Terminal
import StarterKernel.Library.ForwardCopy
import StarterKernel.Library.StateError

/-!
# The entries of the text mode buffer

What the operations of the terminal do to its 2000 entries.
-/

namespace StarterKernel

open StateError

/-- A character in white on black. -/
def VgaEntry.white (c : UInt8) : VgaEntry where
  c := c
  fg := vgaColorWhite
  bg := vgaColorBlack

/-- A blank in white on black. -/
def VgaEntry.blank : VgaEntry := .white 32

namespace Terminal

/-- The terminal with a white character at an entry. -/
def put (terminal : Terminal) (index : Nat) (c : UInt8) : Terminal :=
  { terminal with
    buffer := Function.update (Function.update terminal.buffer (2 * index) c)
      (2 * index + 1) 15 }

/-- The terminal with another character in the colours of an entry. -/
def replaceC (terminal : Terminal) (index : Nat) (c : UInt8) : Terminal :=
  { terminal with buffer := Function.update terminal.buffer (2 * index) c }

/-- The terminal with `count` blank entries from `first` on. -/
def blank (terminal : Terminal) (first : Nat) : (count : Nat) -> Terminal
  | 0 => terminal
  | count + 1 => (terminal.blank first count).put (first + count) 32

/-- The terminal with its position elsewhere. -/
def moveTo (terminal : Terminal) (row col : Nat) : Terminal :=
  { terminal with termRow := row, termCol := col }

/-- The terminal with its rows one place further up. -/
def shiftUp (terminal : Terminal) : Terminal :=
  { terminal with buffer := ForwardCopy.copy terminal.buffer 0 160 3840 }

variable {terminal : Terminal} {index other first count row col : Nat} {c : UInt8}

@[simp] theorem entry_moveTo :
    (terminal.moveTo row col).entry index = terminal.entry index := rfl

@[simp] theorem moveTo_termRow : (terminal.moveTo row col).termRow = row := rfl

@[simp] theorem moveTo_termCol : (terminal.moveTo row col).termCol = col := rfl

@[simp] theorem shiftUp_termRow : terminal.shiftUp.termRow = terminal.termRow := by
  rw [shiftUp]

@[simp] theorem shiftUp_termCol : terminal.shiftUp.termCol = terminal.termCol := by
  rw [shiftUp]

theorem entry_shiftUp (inside : index < 1920) :
    terminal.shiftUp.entry index = terminal.entry (80 + index) := by
  have shifted (position : Nat) (small : position < 3840) :
      terminal.shiftUp.buffer position = terminal.buffer (160 + position) :=
    ForwardCopy.copy_inside (Or.inl (Nat.zero_le _)) (Nat.zero_le _) (by omega)
  rw [entry, entry, shifted _ (by omega), shifted _ (by omega), Nat.mul_add,
    Nat.add_assoc]

theorem put_buffer :
    (terminal.put index c).buffer =
      Function.update (Function.update terminal.buffer (2 * index) c)
        (2 * index + 1) 15 := rfl

theorem entry_put :
    (terminal.put index c).entry other =
      if other = index then .white c else terminal.entry other := by
  by_cases same : other = index
  · subst same
    rw [if_pos rfl, entry, put_buffer, Function.update_self,
      Function.update_of_ne (show 2 * other ≠ 2 * other + 1 by omega),
      Function.update_self]
    rfl
  · rw [if_neg same, entry, put_buffer, Function.update_of_ne (by omega),
      Function.update_of_ne (by omega), Function.update_of_ne (by omega),
      Function.update_of_ne (by omega)]
    rfl

theorem replaceC_buffer :
    (terminal.replaceC index c).buffer =
      Function.update terminal.buffer (2 * index) c := rfl

theorem entry_replaceC :
    (terminal.replaceC index c).entry other =
      if other = index then { terminal.entry index with c := c }
      else terminal.entry other := by
  by_cases same : other = index
  · subst same
    rw [if_pos rfl, entry, replaceC_buffer, Function.update_self,
      Function.update_of_ne (by omega)]
    rfl
  · rw [if_neg same, entry, replaceC_buffer, Function.update_of_ne (by omega),
      Function.update_of_ne (by omega)]
    rfl

theorem entry_blank :
    (terminal.blank first count).entry other =
      if first ≤ other ∧ other < first + count then .blank
      else terminal.entry other := by
  induction count with
  | zero => rw [blank, if_neg (by omega)]
  | succ count inductionHypothesis =>
      rw [blank, entry_put, inductionHypothesis]
      by_cases last : other = first + count
      · rw [if_pos last, if_pos (by omega)]
        rfl
      · rw [if_neg last]
        by_cases inside : first ≤ other ∧ other < first + count
        · rw [if_pos inside, if_pos (by omega)]
        · rw [if_neg inside, if_neg (by omega)]

@[simp] theorem blank_termRow :
    (terminal.blank first count).termRow = terminal.termRow := by
  induction count with
  | zero => rfl
  | succ count inductionHypothesis => exact inductionHypothesis

@[simp] theorem blank_termCol :
    (terminal.blank first count).termCol = terminal.termCol := by
  induction count with
  | zero => rfl
  | succ count inductionHypothesis => exact inductionHypothesis

theorem blank_zero : terminal.blank first 0 = terminal := rfl

theorem blank_succ :
    terminal.blank first (count + 1) =
      (terminal.blank first count).put (first + count) 32 := rfl

attribute [irreducible] blank

end Terminal

namespace TerminalM

variable {terminal : Terminal} {position index : Nat} {value c : UInt8}

/-! ## Single entries -/

theorem loadByte_eq (inside : position < 4000) :
    loadByte position terminal = .ok (terminal.buffer position) terminal :=
  if_pos inside

theorem storeByte_eq (inside : position < 4000) :
    storeByte position value terminal = .ok ⟨⟩
      { terminal with buffer := Function.update terminal.buffer position value } :=
  if_pos inside

theorem setFg_eq (fg : Nat) (inside : index < 2000) :
    setFg index fg terminal = .ok ⟨⟩
      { terminal with
        buffer := Function.update terminal.buffer (2 * index + 1)
          (UInt8.ofNat ((terminal.buffer (2 * index + 1)).toNat / 16 * 16 + fg)) } := by
  rw [setFg, bind_of_ok (loadByte_eq (by omega)), storeByte_eq (by omega)]

theorem setBg_eq (bg : Nat) (inside : index < 2000) :
    setBg index bg terminal = .ok ⟨⟩
      { terminal with
        buffer := Function.update terminal.buffer (2 * index + 1)
          (UInt8.ofNat (16 * bg + (terminal.buffer (2 * index + 1)).toNat % 16)) } := by
  rw [setBg, bind_of_ok (loadByte_eq (by omega)), storeByte_eq (by omega)]

/-- White in front, then black behind. -/
theorem white_on_black (colours : UInt8) :
    UInt8.ofNat (16 * vgaColorBlack +
      (UInt8.ofNat (colours.toNat / 16 * 16 + vgaColorWhite)).toNat % 16) = 15 := by
  have bound := colours.toNat_lt
  apply UInt8.toNat_inj.mp
  simp only [UInt8.toNat_ofNat', vgaColorBlack, vgaColorWhite]
  change _ = 15
  omega

/-- Black behind, then white in front. -/
theorem black_under_white (colours : UInt8) :
    UInt8.ofNat ((UInt8.ofNat (16 * vgaColorBlack + colours.toNat % 16)).toNat / 16 * 16 +
      vgaColorWhite) = 15 := by
  have bound := colours.toNat_lt
  apply UInt8.toNat_inj.mp
  simp only [UInt8.toNat_ofNat', vgaColorBlack, vgaColorWhite]
  change _ = 15
  omega

/-- Setting the three fields of an entry. -/
theorem paint_eq (inside : index < 2000) :
    paint index c terminal = .ok ⟨⟩ (terminal.put index c) := by
  rw [paint, setC, bind_of_ok (storeByte_eq (by omega)), bind_of_ok (setFg_eq _ inside),
    setBg_eq _ inside]
  simp only [Function.update_idem, Function.update_self, white_on_black, Terminal.put]

theorem clearEntry_eq (inside : index < 2000) :
    clearEntry index terminal = .ok ⟨⟩ (terminal.put index 32) := by
  rw [clearEntry, setC, bind_of_ok (storeByte_eq (by omega)),
    bind_of_ok (setBg_eq _ inside), setFg_eq _ inside]
  simp only [Function.update_idem, Function.update_self, black_under_white, Terminal.put]

/-! ## Ranges of entries -/

/-- A copy that stays inside the buffer. -/
theorem memcpyLoop_eq {size fuel i cdest csrc : Nat}
    (enough : size - i < fuel) (destInside : cdest + (size - i) ≤ 4000)
    (srcInside : csrc + (size - i) ≤ 4000) :
    memcpyLoop size fuel i cdest csrc terminal = .ok ⟨⟩
      { terminal with
        buffer := ForwardCopy.copy terminal.buffer cdest csrc (size - i) } := by
  induction fuel generalizing i cdest csrc terminal with
  | zero => omega
  | succ fuel inductionHypothesis =>
      rw [memcpyLoop]
      by_cases more : i < size
      · have count : size - i = size - (i + 1) + 1 := by omega
        rw [if_pos more, bind_of_ok (loadByte_eq (by omega)),
          bind_of_ok (storeByte_eq (by omega)),
          inductionHypothesis (by omega) (by omega) (by omega), count,
          ForwardCopy.copy_succ]
      · have none : size - i = 0 := by omega
        rw [if_neg more, none, ForwardCopy.copy_zero, pure_apply]

/-- Painting blanks over a range of entries. -/
theorem blankLoop_eq {count first : Nat} {body : Nat -> TerminalM Unit}
    (inside : first + count ≤ 2000)
    (paints : ∀ i terminal, first + i < 2000 ->
      body i terminal = .ok ⟨⟩ (terminal.put (first + i) 32)) :
    (List.range count).forM body terminal = .ok ⟨⟩ (terminal.blank first count) := by
  have loop := forM_range_apply (fun i => terminal.blank first i) fun i below => by
    rw [Terminal.blank_succ]
    exact paints i _ (Nat.lt_of_lt_of_le (Nat.add_lt_add_left below first) inside)
  rwa [Terminal.blank_zero] at loop

end TerminalM
end StarterKernel
