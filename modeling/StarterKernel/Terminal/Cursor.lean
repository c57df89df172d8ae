import StarterKernel.Terminal.Screen
import Mathlib.Data.List.Induction

/-!
# The VGA cursor

The cursor is set to the position of the terminal after every byte.  The column of this
position is 80 while the next character waits for a new row.  In the bottom row there is
no next row yet, and the cursor is behind the screen.
-/

namespace StarterKernel

open StateError TerminalM

variable {terminal after : Terminal} {sheet : Sheet} {c : UInt8} {bytes : List UInt8}

/-- The position that the VGA cursor was set to. -/
def Terminal.cursorPosition (terminal : Terminal) : Nat :=
  terminal.cursorLow.toNat + 2 ^ 8 * terminal.cursorHigh.toNat

/-- The cursor is at the position of the terminal. -/
def Terminal.CursorFollows (terminal : Terminal) : Prop :=
  terminal.cursorPosition = terminal.termRow * 80 + terminal.termCol

/-- A character that takes a place on the screen. -/
def Printable (c : UInt8) : Prop := c ≠ 8 ∧ c ≠ 10 ∧ c ≠ 13

/-! ## Updating the cursor -/

theorem termUpdateCursor_position (run : termUpdateCursor terminal = .ok ⟨⟩ after) :
    after.termRow = terminal.termRow ∧ after.termCol = terminal.termCol := by
  rw [termUpdateCursor, modify_apply] at run
  injection run with _ isAfter
  subst isAfter
  exact ⟨rfl, rfl⟩

theorem termUpdateCursor_follows (run : termUpdateCursor terminal = .ok ⟨⟩ after)
    (onScreen : after.termRow < 25) (inRow : after.termCol ≤ 80) : after.CursorFollows := by
  obtain ⟨sameRow, sameCol⟩ := termUpdateCursor_position run
  rw [sameRow] at onScreen
  rw [sameCol] at inRow
  rw [termUpdateCursor, modify_apply] at run
  injection run with _ isAfter
  subst isAfter
  unfold Terminal.CursorFollows Terminal.cursorPosition vgaWidth
  simp only [UInt8.toNat_ofNat']
  omega

/-- After a computation that ends with an update the cursor is at the position. -/
theorem follows_of_update {first : TerminalM Unit}
    (run : (first >>= fun _ => termUpdateCursor) terminal = .ok ⟨⟩ after)
    (onScreen : after.termRow < 25) (inRow : after.termCol ≤ 80) : after.CursorFollows := by
  obtain ⟨_, _, _, updates⟩ := ok_of_bind run
  exact termUpdateCursor_follows updates onScreen inRow

/-- Clearing and every byte end with an update. -/
theorem termClear_follows (run : termClear terminal = .ok ⟨⟩ after)
    (onScreen : after.termRow < 25) (inRow : after.termCol ≤ 80) : after.CursorFollows := by
  rw [termClear] at run
  obtain ⟨_, _, _, rest⟩ := ok_of_bind run
  exact follows_of_update rest onScreen inRow

theorem termPutchar_follows (run : termPutchar c terminal = .ok ⟨⟩ after)
    (onScreen : after.termRow < 25) (inRow : after.termCol ≤ 80) : after.CursorFollows := by
  unfold termPutchar at run
  split at run
  next => exact follows_of_update run onScreen inRow
  next =>
    split at run
    next => exact follows_of_update run onScreen inRow
    next =>
      obtain ⟨_, _, _, rest⟩ := ok_of_bind run
      obtain ⟨_, _, _, rest⟩ := ok_of_bind rest
      obtain ⟨_, _, _, rest⟩ := ok_of_bind rest
      exact follows_of_update rest onScreen inRow

/-! ## The next character -/

/-- The terminal with its position in the next row if the row is full. -/
def Terminal.wrapped (terminal : Terminal) : Terminal :=
  if terminal.termCol = 80 then terminal.moveTo (terminal.termRow + 1) 0 else terminal

theorem wrap_eq : TerminalM.wrap terminal = .ok ⟨⟩ terminal.wrapped := by
  rw [Terminal.wrapped]
  by_cases full : terminal.termCol = 80
  · have isFull : terminal.termCol = vgaWidth := full
    rw [TerminalM.wrap, bind_of_ok (get_apply terminal), if_pos isFull, if_pos full]
    rfl
  · rw [wrap_of_room full, if_neg full]

/-- Wrapping moves on to where the position already points. -/
theorem Terminal.wrapped_position :
    terminal.wrapped.termRow * 80 + terminal.wrapped.termCol =
      terminal.termRow * 80 + terminal.termCol := by
  rw [wrapped]
  split
  next full =>
    rw [moveTo_termRow, moveTo_termCol]
    omega
  next => rfl

theorem Terminal.entry_wrapped (index : Nat) :
    terminal.wrapped.entry index = terminal.entry index := by
  rw [wrapped]
  split
  · exact entry_moveTo
  · rfl

/-- The byte makes the rows move up: it leads to a position below the screen. -/
def Scrolls (terminal : Terminal) (c : UInt8) : Prop :=
  ∃ middle, (do
      newline c
      TerminalM.wrap : TerminalM Unit) terminal = .ok ⟨⟩ middle ∧ middle.termRow = vgaHeight

/-- The byte is written to the entry with this index, and to no other. -/
def AppearsAt (terminal : Terminal) (c : UInt8) (index : Nat) : Prop :=
  ∃ after, termPutchar c terminal = .ok ⟨⟩ after ∧ after.entry index = .white c ∧
    ∀ other < 2000, other ≠ index -> after.entry other = terminal.entry other

theorem scrolls_iff (isText : c ≠ 10) :
    Scrolls terminal c ↔ terminal.wrapped.termRow = 25 := by
  have wraps : (do
      newline c
      TerminalM.wrap : TerminalM Unit) terminal = .ok ⟨⟩ terminal.wrapped :=
    (bind_of_ok (newline_of_text isText)).trans wrap_eq
  constructor
  · rintro ⟨middle, run, atEnd⟩
    obtain ⟨_, rfl⟩ := ok_unique wraps run
    exact atEnd
  · exact fun atEnd => ⟨_, wraps, atEnd⟩

/-- A printable byte that does not scroll has its place in the wrapped row. -/
theorem Terminal.wrapped_inside (onScreen : terminal.termRow < 25)
    (inRow : terminal.termCol ≤ 80) (stays : terminal.wrapped.termRow ≠ 25) :
    terminal.wrapped.termRow < 25 ∧ terminal.wrapped.termCol < 80 := by
  unfold wrapped at stays ⊢
  split
  next full =>
    rw [if_pos full, moveTo_termRow] at stays
    exact ⟨by rw [moveTo_termRow]; omega, by rw [moveTo_termCol]; decide⟩
  next => exact ⟨onScreen, by omega⟩

/-- A printable byte that does not scroll changes the entry at the position only. -/
theorem termPutchar_entry (onScreen : terminal.termRow < 25)
    (inRow : terminal.termCol ≤ 80) (printable : Printable c)
    (stays : terminal.wrapped.termRow ≠ 25) :
    ∃ after, termPutchar c terminal = .ok ⟨⟩ after ∧ ∀ index, after.entry index =
      if index = terminal.termRow * 80 + terminal.termCol then .white c
      else terminal.entry index := by
  obtain ⟨notBackspace, isText, notReturn⟩ := printable
  obtain ⟨wrappedRow, wrappedCol⟩ := Terminal.wrapped_inside onScreen inRow stays
  have inside : terminal.wrapped.termCol + terminal.wrapped.termRow * 80 < 2000 := by omega
  unfold termPutchar
  rw [if_neg notReturn, if_neg notBackspace, bind_of_ok (newline_of_text isText),
    bind_of_ok wrap_eq, bind_of_ok (scroll_of_onScreen wrappedRow),
    bind_of_ok (writeCharacter_eq inside isText)]
  refine ⟨_, modify_apply _ _, fun index => ?_⟩
  -- The column and the cursor are no entries.
  change (terminal.wrapped.put (terminal.wrapped.termCol + terminal.wrapped.termRow * 80)
    c).entry index = _
  rw [Terminal.entry_put, Terminal.entry_wrapped,
    Nat.add_comm terminal.wrapped.termCol, Terminal.wrapped_position]

/-- A printable byte that does not scroll appears at the position of the terminal. -/
theorem appearsAt_position (onScreen : terminal.termRow < 25)
    (inRow : terminal.termCol ≤ 80) (printable : Printable c)
    (stays : ¬Scrolls terminal c) :
    AppearsAt terminal c (terminal.termRow * 80 + terminal.termCol) := by
  rw [scrolls_iff printable.2.1] at stays
  obtain ⟨after, run, entries⟩ := termPutchar_entry onScreen inRow printable stays
  refine ⟨after, run, ?_, fun other _ different => ?_⟩
  · rw [entries, if_pos rfl]
  · rw [entries, if_neg different]

/-! ## Whole runs -/

/-- Some bytes printed on a cleared terminal. -/
def printCleared (bytes : List UInt8) : TerminalM Unit := do
  termClear
  bytes.forM termPutchar

/-- The bytes leave the cursor on the screen, where the next printable byte will appear
unless it scrolls. -/
def CursorAhead (terminal : Terminal) (bytes : List UInt8) : Prop :=
  ∃ after, printCleared bytes terminal = .ok ⟨⟩ after ∧ after.cursorPosition < 2000 ∧
    ∀ c, Printable c -> ¬Scrolls after c -> AppearsAt after c after.cursorPosition

/-- The last byte is a printable one that is written to the last place of the bottom
row. -/
def FillsScreen (terminal : Terminal) (bytes : List UInt8) : Prop :=
  ∃ before c earlier, bytes = before ++ [c] ∧ Printable c ∧
    printCleared before terminal = .ok ⟨⟩ earlier ∧ earlier.termRow = 24 ∧
    earlier.termCol = 79

theorem printCleared_append (bytes : List UInt8) (c : UInt8) :
    printCleared (bytes ++ [c]) = (printCleared bytes >>= fun _ => termPutchar c) := by
  rw [printCleared, printCleared, bind_assoc]
  congr 1
  funext _
  simp

/-- After any bytes the terminal shows a sheet, and the cursor is at its position. -/
theorem printCleared_follows (terminal : Terminal) (bytes : List UInt8) :
    ∃ after, printCleared bytes terminal = .ok ⟨⟩ after ∧
      after.Shows (bytes.foldl Sheet.putchar .empty) ∧ after.CursorFollows := by
  induction bytes using List.reverseRecOn with
  | nil =>
      obtain ⟨after, clears, shows⟩ := termClear_shows terminal
      exact ⟨after, bind_of_ok clears, shows,
        termClear_follows clears shows.onScreen (shows.col ▸ shows.inRow)⟩
  | append_singleton bytes c inductionHypothesis =>
      obtain ⟨middle, run, shows, _⟩ := inductionHypothesis
      obtain ⟨after, puts, shown⟩ := termPutchar_shows shows c
      refine ⟨after, ?_, ?_, ?_⟩
      · rw [printCleared_append, bind_of_ok run, puts]
      · rw [List.foldl_append]
        exact shown
      · exact termPutchar_follows puts shown.onScreen (shown.col ▸ shown.inRow)

/-- So it does after a run that is given. -/
theorem shows_of_run (run : printCleared bytes terminal = .ok ⟨⟩ after) :
    after.Shows (bytes.foldl Sheet.putchar .empty) ∧ after.CursorFollows := by
  obtain ⟨other, runs, shown⟩ := printCleared_follows terminal bytes
  obtain ⟨_, rfl⟩ := ok_unique run runs
  exact shown

theorem Sheet.putchar_printable (printable : Printable c) :
    sheet.putchar c = sheet.wrap.advance c := by
  obtain ⟨notBackspace, isText, notReturn⟩ := printable
  rw [putchar, if_neg notReturn, if_neg notBackspace, if_neg isText]

theorem Sheet.wrap_of_room (room : sheet.col ≠ 80) : sheet.wrap = sheet := if_neg room

/-- A row becomes full when a printable byte is written to its last place. -/
theorem Sheet.putchar_full_iff (inRow : sheet.col ≤ 80) :
    (sheet.putchar c).col = 80 ↔ Printable c ∧ sheet.col = 79 := by
  constructor
  · intro full
    by_cases printable : Printable c
    · refine ⟨printable, ?_⟩
      rw [putchar_printable printable] at full
      change sheet.wrap.col + 1 = 80 at full
      by_cases wraps : sheet.col = 80
      · rw [wrap, if_pos wraps, nextRow] at full
        cases full
      · rw [wrap_of_room wraps] at full
        omega
    · have control : c = 13 ∨ c = 8 ∨ c = 10 := by
        unfold Printable at printable
        by_contra other
        simp_all
      obtain rfl | rfl | rfl := control
      · cases full
      · change sheet.erase.col = 80 at full
        rw [erase] at full
        split at full
        next =>
          change sheet.col - 1 = 80 at full
          omega
        next => omega
      · cases full
  · rintro ⟨printable, last⟩
    rw [putchar_printable printable, wrap_of_room (by omega)]
    exact congrArg (· + 1) last

/-- The row that becomes full is the one the byte is written to. -/
theorem Sheet.putchar_full_row (printable : Printable c) (last : sheet.col = 79) :
    (sheet.putchar c).row = sheet.row := by
  rw [putchar_printable printable, wrap_of_room (by omega)]
  rfl

/-- The last byte leads behind the screen exactly if it fills the bottom row. -/
theorem fillsRow_iff {earlier : Terminal}
    (isRun : printCleared bytes terminal = .ok ⟨⟩ earlier)
    (last : printCleared (bytes ++ [c]) terminal = .ok ⟨⟩ after) :
    (Printable c ∧ earlier.termRow = 24 ∧ earlier.termCol = 79) ↔
      after.termRow = 24 ∧ after.termCol = 80 := by
  have shows := (shows_of_run isRun).1
  have shown := (shows_of_run last).1
  rw [List.foldl_append] at shown
  have full := @Sheet.putchar_full_iff _ c shows.inRow
  have col : after.termCol = _ := shown.col
  rw [← shows.col] at full
  have sameRow (printable : Printable c) (last : earlier.termCol = 79) :
      after.termRow = earlier.termRow := by
    have same := Sheet.putchar_full_row printable (shows.col.symm.trans last)
    have row := shows.row
    have finalRow := shown.row
    change (Sheet.putchar _ c).top + _ = (Sheet.putchar _ c).row at finalRow
    have window : ∀ sheet : Sheet, sheet.top = sheet.row - 24 := fun _ => rfl
    rw [window] at row finalRow
    omega
  constructor
  · rintro ⟨printable, row, inLast⟩
    exact ⟨(sameRow printable inLast).trans row, col.trans (full.mpr ⟨printable, inLast⟩)⟩
  · rintro ⟨row, isFull⟩
    obtain ⟨printable, inLast⟩ := full.mp (col.symm.trans isFull)
    exact ⟨printable, (sameRow printable inLast).symm.trans row, inLast⟩

/-- The position is behind the screen exactly after the screen was filled. -/
theorem fillsScreen_iff (run : printCleared bytes terminal = .ok ⟨⟩ after) :
    FillsScreen terminal bytes ↔ after.termRow = 24 ∧ after.termCol = 80 := by
  constructor
  · rintro ⟨before, c, earlier, rfl, printable, isRun, row, col⟩
    exact (fillsRow_iff isRun run).mp ⟨printable, row, col⟩
  · intro isBehind
    cases bytes using List.reverseRec with
    | nil =>
        have atStart : after.termCol = 0 := (shows_of_run run).1.col
        omega
    | append_singleton before c _ =>
        obtain ⟨earlier, isRun, _⟩ := printCleared_follows terminal before
        obtain ⟨printable, row, col⟩ := (fillsRow_iff isRun run).mpr isBehind
        exact ⟨before, c, earlier, rfl, printable, isRun, row, col⟩

/-- The cursor is on the screen where the next printable byte will appear, after any bytes
on a cleared terminal but those whose last one fills the last place of the bottom row. -/
theorem cursorAhead_iff (terminal : Terminal) (bytes : List UInt8) :
    CursorAhead terminal bytes ↔ ¬FillsScreen terminal bytes := by
  obtain ⟨after, run, shows, follows⟩ := printCleared_follows terminal bytes
  have onScreen := shows.onScreen
  have inRow : after.termCol ≤ 80 := shows.col ▸ shows.inRow
  rw [fillsScreen_iff run]
  constructor
  · rintro ⟨other, runs, below, _⟩ behind
    obtain ⟨_, rfl⟩ := ok_unique run runs
    rw [follows] at below
    omega
  · intro inside
    refine ⟨after, run, ?_, fun c printable stays => ?_⟩
    · rw [follows]
      omega
    · rw [follows]
      exact appearsAt_position onScreen inRow printable stays

/-- The screen before the kernel has written to it. -/
def blackScreen : Terminal where
  buffer _ := 0
  termRow := 0
  termCol := 0
  cursorLow := 0
  cursorHigh := 0

/-- Newlines down to the bottom row, and a row of text. -/
def fullBottomRow : List UInt8 := List.replicate 24 10 ++ List.replicate 80 120

/-- After the text the cursor is set to 2000, behind the last entry. -/
theorem cursor_behind_screen :
    (∃ after, printCleared fullBottomRow blackScreen = .ok ⟨⟩ after ∧
      after.cursorPosition = 2000) ∧ ¬CursorAhead blackScreen fullBottomRow := by
  obtain ⟨after, run, shows, follows⟩ := printCleared_follows blackScreen fullBottomRow
  have sheetRow : (fullBottomRow.foldl Sheet.putchar .empty).row = 24 := by decide +kernel
  have sheetCol : (fullBottomRow.foldl Sheet.putchar .empty).col = 80 := by decide +kernel
  have row := shows.row
  have col := shows.col
  rw [Sheet.top, sheetRow] at row
  rw [sheetCol] at col
  have position : after.cursorPosition = 2000 := by
    rw [follows]
    omega
  refine ⟨⟨after, run, position⟩, ?_⟩
  rintro ⟨other, runs, below, _⟩
  obtain ⟨_, rfl⟩ := ok_unique run runs
  omega

end StarterKernel
