import StarterKernel.Terminal.Cells

/-!
# The terminal as a window on a sheet

The sheet is what a terminal of unbounded height would show.  The buffer holds its
last 25 rows, or its first 25 while fewer have been started.
-/

namespace StarterKernel

open StateError TerminalM

/-- A terminal with a row of entries for every natural number, and its cursor. -/
structure Sheet where
  cell : Nat -> Nat -> VgaEntry
  row : Nat
  col : Nat

namespace Sheet

/-- The sheet without any text. -/
def empty : Sheet where
  cell := fun _ _ => .blank
  row := 0
  col := 0

/-- The sheet with an entry changed. -/
def write (sheet : Sheet) (row col : Nat) (entry : VgaEntry) : Sheet :=
  { sheet with
    cell := fun r c => if r = row ∧ c = col then entry else sheet.cell r c }

/-- The sheet with its cursor at the start of the next row. -/
def nextRow (sheet : Sheet) : Sheet :=
  { sheet with row := sheet.row + 1, col := 0 }

/-- The cursor leaves a row that is full. -/
def wrap (sheet : Sheet) : Sheet :=
  if sheet.col = 80 then sheet.nextRow else sheet

/-- Write a character at the cursor, which advances. -/
def advance (sheet : Sheet) (c : UInt8) : Sheet :=
  { sheet.write sheet.row sheet.col (.white c) with col := sheet.col + 1 }

/-- Blank the entry left of the cursor, which moves there. -/
def erase (sheet : Sheet) : Sheet :=
  if 0 < sheet.col then
    { sheet.write sheet.row (sheet.col - 1) .blank with col := sheet.col - 1 }
  else sheet

/-- What one byte does to the sheet. -/
def putchar (sheet : Sheet) (c : UInt8) : Sheet :=
  if c = 13 then { sheet with col := 0 }
  else if c = 8 then sheet.erase
  else if c = 10 then sheet.nextRow
  else sheet.wrap.advance c

/-- The first row of the window: all but the last 25 of the started rows are
above it. -/
def top (sheet : Sheet) : Nat := sheet.row - 24

end Sheet

/-- The terminal shows the sheet. -/
structure Terminal.Shows (terminal : Terminal) (sheet : Sheet) : Prop where
  row : sheet.top + terminal.termRow = sheet.row
  onScreen : terminal.termRow < 25
  col : terminal.termCol = sheet.col
  inRow : sheet.col ≤ 80
  grid : ∀ row < 25, ∀ col < 80,
    terminal.entry (row * 80 + col) = sheet.cell (sheet.top + row) col
  fresh : ∀ row, sheet.row < row -> ∀ col, sheet.cell row col = .blank
  colours : ∀ row col, ∃ c, sheet.cell row col = .white c

variable {terminal : Terminal} {sheet : Sheet} {c : UInt8}

/-- The position of the VGA cursor is not part of what is shown. -/
theorem termUpdateCursor_shows (shows : terminal.Shows sheet) :
    ∃ after, termUpdateCursor terminal = .ok ⟨⟩ after ∧ after.Shows sheet :=
  ⟨_, rfl, { shows with }⟩

/-! ## Clearing -/

/-- A cleared terminal shows the empty sheet. -/
theorem termClear_shows (terminal : Terminal) :
    ∃ after, termClear terminal = .ok ⟨⟩ after ∧ after.Shows .empty := by
  have blanks : (List.range 2000).forM clearEntry terminal =
      .ok ⟨⟩ (terminal.blank 0 2000) :=
    blankLoop_eq (Nat.le_refl _) fun i terminal below => by
      rw [Nat.zero_add] at below ⊢
      exact clearEntry_eq below
  have shows : ((terminal.blank 0 2000).moveTo 0 0).Shows .empty :=
    { row := rfl
      onScreen := Nat.zero_lt_succ _
      col := rfl
      inRow := Nat.zero_le _
      grid := fun row _ col _ => by
        rw [Terminal.entry_moveTo, Terminal.entry_blank, if_pos (by omega)]
        rfl
      fresh := fun _ _ _ => rfl
      colours := fun _ _ => ⟨32, rfl⟩ }
  obtain ⟨after, updates, shown⟩ := termUpdateCursor_shows shows
  refine ⟨after, ?_, shown⟩
  rw [termClear]
  refine (bind_of_ok blanks).trans ?_
  rw [bind_of_ok (modify_apply _ _)]
  exact updates

/-! ## Starting a row -/

/-- The copy within the buffer shifts the rows up. -/
theorem memcpyRows_eq :
    TerminalM.memcpy 0 160 3840 terminal = .ok ⟨⟩ terminal.shiftUp := by
  rw [TerminalM.memcpy, memcpyLoop_eq (by decide) (by decide) (by decide),
    Nat.sub_zero, Terminal.shiftUp]

theorem clearRow_last : clearRow 24 terminal = .ok ⟨⟩ (terminal.blank 1920 80) :=
  blankLoop_eq (by decide) fun i terminal below => by
    rw [vgaWidth, Nat.add_comm i]
    exact paint_eq below

/-- Shifting the rows up makes room for a new one. -/
theorem scroll_eq (atEnd : terminal.termRow = 25) :
    ∃ after, scroll terminal = .ok ⟨⟩ after ∧ after.termRow = 24 ∧
      after.termCol = terminal.termCol ∧
      ∀ row < 25, ∀ col < 80, after.entry (row * 80 + col) =
        if row = 24 then .blank else terminal.entry ((row + 1) * 80 + col) := by
  let shifted : Terminal :=
    terminal.shiftUp.moveTo (terminal.shiftUp.termRow - 1) terminal.shiftUp.termCol
  have copies : TerminalM.memcpy 0 160 3840 terminal = .ok ⟨⟩ terminal.shiftUp :=
    memcpyRows_eq
  have lastRow : shifted.termRow = 24 := by
    rw [Terminal.moveTo_termRow, Terminal.shiftUp_termRow, atEnd]
  refine ⟨shifted.blank 1920 80, ?_, ?_, ?_, fun row below col inRow => ?_⟩
  · have isEnd : terminal.termRow = vgaHeight := atEnd
    rw [scroll, bind_of_ok (get_apply terminal), if_pos isEnd]
    refine (bind_of_ok copies).trans ?_
    have moved : (modify fun terminal : Terminal =>
        { terminal with termRow := terminal.termRow - 1 } : TerminalM Unit)
          terminal.shiftUp = .ok ⟨⟩ shifted := rfl
    rw [bind_of_ok moved, bind_of_ok (get_apply shifted), lastRow, clearRow_last]
  · rw [Terminal.blank_termRow, lastRow]
  · rw [Terminal.blank_termCol, Terminal.moveTo_termCol, Terminal.shiftUp_termCol]
  · rw [Terminal.entry_blank]
    by_cases last : row = 24
    · rw [if_pos last, if_pos (by omega)]
    · rw [if_neg last, if_neg (by omega), Terminal.entry_moveTo,
        Terminal.entry_shiftUp (by omega),
        show 80 + (row * 80 + col) = (row + 1) * 80 + col by omega]

/-- Starting a row, and scrolling if it is below the screen. -/
theorem nextRow_scroll_shows (shows : terminal.Shows sheet) :
    ∃ started, TerminalM.nextRow terminal = .ok ⟨⟩ started ∧ started.termCol = 0 ∧
      ∃ after, scroll started = .ok ⟨⟩ after ∧ after.Shows sheet.nextRow := by
  let started : Terminal := terminal.moveTo (terminal.termRow + 1) 0
  refine ⟨started, rfl, rfl, ?_⟩
  have atRow := shows.row
  have onScreen := shows.onScreen
  have window : sheet.top = sheet.row - 24 := rfl
  have nextWindow : sheet.nextRow.top = sheet.row + 1 - 24 := rfl
  have fresh : ∀ row, sheet.row + 1 < row -> ∀ col, sheet.cell row col = .blank :=
    fun row below => shows.fresh row (by omega)
  by_cases atEnd : terminal.termRow = 24
  · have isEnd : started.termRow = 25 := by
      change terminal.termRow + 1 = 25
      omega
    have top : sheet.nextRow.top = sheet.top + 1 := by omega
    obtain ⟨after, scrolls, row, col, entries⟩ := scroll_eq isEnd
    refine ⟨after, scrolls, ?_, by omega, col, Nat.zero_le _, ?_, fresh, shows.colours⟩
    · rw [top, row]
      change _ = sheet.row + 1
      omega
    · intro row below col inRow
      rw [entries row below col inRow, top]
      split
      next last =>
        exact (shows.fresh _ (by omega) col).symm
      next =>
        have moved : started.entry ((row + 1) * 80 + col) =
            terminal.entry ((row + 1) * 80 + col) := rfl
        have sameCell : sheet.nextRow.cell = sheet.cell := rfl
        rw [moved, shows.grid (row + 1) (by omega) col inRow, sameCell]
        congr 1
        omega
  · have notEnd : started.termRow ≠ vgaHeight := by
      change terminal.termRow + 1 ≠ 25
      omega
    have top : sheet.nextRow.top = sheet.top := by omega
    refine ⟨started, ?_, ?_, ?_, rfl, Nat.zero_le _, ?_, fresh, shows.colours⟩
    · rw [scroll, bind_of_ok (get_apply started), if_neg notEnd, pure_apply]
    · rw [top]
      change sheet.top + (terminal.termRow + 1) = sheet.row + 1
      omega
    · change terminal.termRow + 1 < 25
      omega
    · intro row below col inRow
      rw [top]
      exact shows.grid row below col inRow

/-- Nothing scrolls while the cursor is on the screen. -/
theorem scroll_of_onScreen (onScreen : terminal.termRow < 25) :
    scroll terminal = .ok ⟨⟩ terminal := by
  have notEnd : terminal.termRow ≠ vgaHeight := Nat.ne_of_lt onScreen
  rw [scroll, bind_of_ok (get_apply terminal), if_neg notEnd, pure_apply]

theorem wrap_of_room (room : terminal.termCol ≠ 80) :
    TerminalM.wrap terminal = .ok ⟨⟩ terminal := by
  have notFull : terminal.termCol ≠ vgaWidth := room
  rw [TerminalM.wrap, bind_of_ok (get_apply terminal), if_neg notFull, pure_apply]

/-! ## Writing a character -/

/-- An entry of the window is that of the cursor just when it is at its row and
column. -/
theorem cursor_index_iff (shows : terminal.Shows sheet) {row col place : Nat}
    (inRow : col < 80) (placeInRow : place < 80) :
    row * 80 + col = place + terminal.termRow * 80 ↔
      sheet.top + row = sheet.row ∧ col = place := by
  have atRow := shows.row
  omega

/-- Writing an entry of the row of the cursor. -/
theorem put_shows (shows : terminal.Shows sheet) {place : Nat} (inRow : place < 80) :
    ∀ row < 25, ∀ col < 80,
      (terminal.put (place + terminal.termRow * 80) c).entry (row * 80 + col) =
        (sheet.write sheet.row place (.white c)).cell (sheet.top + row) col := by
  intro row below col colInRow
  rw [Terminal.entry_put, Sheet.write]
  simp only [cursor_index_iff shows colInRow inRow, shows.grid row below col colInRow]

theorem write_colours (shows : terminal.Shows sheet) (c : UInt8) {place : Nat} :
    ∀ row col, ∃ other,
      (sheet.write sheet.row place (.white c)).cell row col = .white other := by
  intro row col
  rw [Sheet.write]
  dsimp only
  split
  · exact ⟨c, rfl⟩
  · exact shows.colours row col

theorem write_fresh (shows : terminal.Shows sheet) {place : Nat} :
    ∀ row, sheet.row < row -> ∀ col,
      (sheet.write sheet.row place (.white c)).cell row col = .blank := by
  intro row below col
  have otherRow : ¬ (row = sheet.row ∧ col = place) := by omega
  exact (if_neg otherRow).trans (shows.fresh row below col)

theorem newline_of_text (isText : c ≠ 10) : newline c terminal = .ok ⟨⟩ terminal := by
  rw [newline, if_neg isText, pure_apply]

/-- A byte that starts no row by itself takes the place of the cursor. -/
theorem writeCharacter_eq (inside : terminal.termCol + terminal.termRow * 80 < 2000)
    (isText : c ≠ 10) :
    writeCharacter c terminal =
      .ok ⟨⟩ ((terminal.put (terminal.termCol + terminal.termRow * 80) c).moveTo
        terminal.termRow (terminal.termCol + 1)) := by
  have paints : paint (terminal.termCol + terminal.termRow * vgaWidth) c terminal =
      .ok ⟨⟩ (terminal.put (terminal.termCol + terminal.termRow * 80) c) := paint_eq inside
  rw [writeCharacter, if_pos isText, bind_of_ok (get_apply terminal), bind_of_ok paints,
    modify_apply]
  rfl

theorem writeCharacter_shows (shows : terminal.Shows sheet) (room : sheet.col < 80)
    (isText : c ≠ 10) :
    ∃ after, writeCharacter c terminal = .ok ⟨⟩ after ∧
      after.Shows (sheet.advance c) := by
  have onScreen := shows.onScreen
  have inside : terminal.termCol + terminal.termRow * 80 < 2000 := by
    rw [shows.col]
    omega
  refine ⟨_, writeCharacter_eq inside isText, ?_⟩
  rw [shows.col]
  exact {
    row := shows.row
    onScreen := shows.onScreen
    col := Terminal.moveTo_termCol
    inRow := room
    grid := put_shows shows room
    fresh := write_fresh shows
    colours := write_colours shows c }

/-- A byte that starts no row by itself goes to the row of the cursor, or to the next
one if that row is full. -/
theorem writeText_shows (shows : terminal.Shows sheet) (isText : c ≠ 10) :
    ∃ after, (do
        newline c
        TerminalM.wrap
        scroll
        writeCharacter c
        termUpdateCursor : TerminalM Unit) terminal = .ok ⟨⟩ after ∧
      after.Shows (sheet.wrap.advance c) := by
  have stays := @newline_of_text terminal c isText
  by_cases full : sheet.col = 80
  · obtain ⟨started, starts, -, middle, scrolls, ready⟩ := nextRow_scroll_shows shows
    have isFull : terminal.termCol = vgaWidth := shows.col.trans full
    have wraps : TerminalM.wrap terminal = .ok ⟨⟩ started := by
      rw [TerminalM.wrap, bind_of_ok (get_apply terminal), if_pos isFull, starts]
    obtain ⟨written, writes, done⟩ :=
      writeCharacter_shows ready (Nat.zero_lt_succ _) isText
    obtain ⟨after, updates, shown⟩ := termUpdateCursor_shows done
    refine ⟨after, ?_, ?_⟩
    · rw [bind_of_ok stays, bind_of_ok wraps, bind_of_ok scrolls, bind_of_ok writes,
        updates]
    · rw [Sheet.wrap, if_pos full]
      exact shown
  · have room : sheet.col < 80 := Nat.lt_of_le_of_ne shows.inRow full
    have wraps := wrap_of_room (show terminal.termCol ≠ 80 by rwa [shows.col])
    obtain ⟨written, writes, done⟩ := writeCharacter_shows shows room isText
    obtain ⟨after, updates, shown⟩ := termUpdateCursor_shows done
    refine ⟨after, ?_, ?_⟩
    · rw [bind_of_ok stays, bind_of_ok wraps,
        bind_of_ok (scroll_of_onScreen shows.onScreen), bind_of_ok writes, updates]
    · rw [Sheet.wrap, if_neg full]
      exact shown

/-- A newline starts a row. -/
theorem writeNewline_shows (shows : terminal.Shows sheet) :
    ∃ after, (do
        newline 10
        TerminalM.wrap
        scroll
        writeCharacter 10
        termUpdateCursor : TerminalM Unit) terminal = .ok ⟨⟩ after ∧
      after.Shows sheet.nextRow := by
  obtain ⟨started, starts, atStart, middle, scrolls, ready⟩ := nextRow_scroll_shows shows
  have breaks : newline 10 terminal = .ok ⟨⟩ started := by
    rw [newline, if_pos rfl, starts]
  have wraps := wrap_of_room (show started.termCol ≠ 80 by rw [atStart]; decide)
  have writes : writeCharacter 10 middle = .ok ⟨⟩ middle := by
    rw [writeCharacter, if_neg (by decide), pure_apply]
  obtain ⟨after, updates, shown⟩ := termUpdateCursor_shows ready
  refine ⟨after, ?_, shown⟩
  rw [bind_of_ok breaks, bind_of_ok wraps, bind_of_ok scrolls, bind_of_ok writes,
    updates]

/-! ## Erasing a character -/

/-- Only the character of the entry is changed, whose colours are white on black. -/
theorem eraseCharacter_shows (shows : terminal.Shows sheet) :
    ∃ after, eraseCharacter terminal = .ok ⟨⟩ after ∧ after.Shows sheet.erase := by
  have onScreen := shows.onScreen
  have inRow := shows.inRow
  have sameCol := shows.col
  by_cases atStart : sheet.col = 0
  · have nothing : ¬ 0 < terminal.termCol := by omega
    refine ⟨terminal, ?_, ?_⟩
    · rw [eraseCharacter, bind_of_ok (get_apply terminal), if_neg nothing, pure_apply]
    · rw [Sheet.erase, if_neg (by omega)]
      exact shows
  · have something : 0 < terminal.termCol := by omega
    let moved := terminal.moveTo terminal.termRow (terminal.termCol - 1)
    have inside : terminal.termRow * vgaWidth + (terminal.termCol - 1) < 2000 := by
      rw [vgaWidth]
      omega
    refine ⟨moved.replaceC (terminal.termRow * 80 + (terminal.termCol - 1)) 32, ?_, ?_⟩
    · have moves : (modify fun terminal : Terminal =>
          { terminal with termCol := terminal.termCol - 1 } : TerminalM Unit)
            terminal = .ok ⟨⟩ moved := rfl
      rw [eraseCharacter, bind_of_ok (get_apply terminal), if_pos something,
        bind_of_ok moves, bind_of_ok (get_apply moved), setC]
      exact storeByte_eq (show 2 * _ < 4000 from Nat.mul_lt_mul_of_pos_left inside
        (by decide))
    · rw [Sheet.erase, if_pos (by omega)]
      exact {
        row := shows.row
        onScreen := shows.onScreen
        col := congrArg (· - 1) sameCol
        inRow := by
          change sheet.col - 1 ≤ 80
          omega
        grid := by
          intro row below col colInRow
          have here := @cursor_index_iff terminal sheet shows row col (sheet.col - 1)
            colInRow (by omega)
          change _ = if sheet.top + row = sheet.row ∧ col = sheet.col - 1 then
            VgaEntry.blank else sheet.cell (sheet.top + row) col
          rw [Terminal.entry_replaceC, sameCol, Nat.add_comm (terminal.termRow * 80)]
          by_cases isCursor : row * 80 + col = sheet.col - 1 + terminal.termRow * 80
          · rw [if_pos isCursor, if_pos (here.mp isCursor), ← isCursor,
              Terminal.entry_moveTo, shows.grid row below col colInRow]
            obtain ⟨other, white⟩ := shows.colours (sheet.top + row) col
            rw [white]
            rfl
          · rw [if_neg isCursor, if_neg fun both => isCursor (here.mpr both),
              Terminal.entry_moveTo, shows.grid row below col colInRow]
        fresh := write_fresh shows
        colours := write_colours shows 32 }

/-! ## Whole runs -/

/-- Each byte keeps the terminal a window on the sheet. -/
theorem termPutchar_shows (shows : terminal.Shows sheet) (c : UInt8) :
    ∃ after, termPutchar c terminal = .ok ⟨⟩ after ∧ after.Shows (sheet.putchar c) := by
  rw [termPutchar, Sheet.putchar]
  split
  next =>
    have returned : (terminal.moveTo terminal.termRow 0).Shows { sheet with col := 0 } :=
      { shows with
        col := rfl
        inRow := Nat.zero_le _ }
    obtain ⟨after, updates, shown⟩ := termUpdateCursor_shows returned
    exact ⟨after, (bind_of_ok (modify_apply _ _)).trans updates, shown⟩
  next =>
    split
    next =>
      obtain ⟨middle, erases, erased⟩ := eraseCharacter_shows shows
      obtain ⟨after, updates, shown⟩ := termUpdateCursor_shows erased
      exact ⟨after, (bind_of_ok erases).trans updates, shown⟩
    next =>
      split
      next isNewline =>
        subst isNewline
        exact writeNewline_shows shows
      next isText => exact writeText_shows shows isText

theorem termPutchars_shows (bytes : List UInt8) (shows : terminal.Shows sheet) :
    ∃ after, bytes.forM termPutchar terminal = .ok ⟨⟩ after ∧
      after.Shows (bytes.foldl Sheet.putchar sheet) := by
  induction bytes generalizing terminal sheet with
  | nil => exact ⟨terminal, rfl, shows⟩
  | cons c bytes inductionHypothesis =>
      obtain ⟨middle, puts, shown⟩ := termPutchar_shows shows c
      obtain ⟨after, rest, final⟩ := inductionHypothesis shown
      exact ⟨after, (bind_of_ok puts).trans rest, final⟩

/-- Whatever is printed after `term_clear`, no access leaves the buffer, the position
stays on the screen, and the buffer holds the last 25 rows that the text has started,
or the first 25 while there are fewer. -/
theorem terminal_shows_last_rows (terminal : Terminal) (bytes : List UInt8) :
    ∃ after, (do
        termClear
        bytes.forM termPutchar : TerminalM Unit) terminal = .ok ⟨⟩ after ∧
      after.termRow < 25 ∧ after.termCol ≤ 80 ∧
      after.termCol = (bytes.foldl Sheet.putchar .empty).col ∧
      ∀ row < 25, ∀ col < 80,
        after.entry (row * 80 + col) =
          (bytes.foldl Sheet.putchar .empty).cell
            ((bytes.foldl Sheet.putchar .empty).row + 1 - 25 + row) col := by
  obtain ⟨cleared, clears, shows⟩ := termClear_shows terminal
  obtain ⟨after, puts, shown⟩ := termPutchars_shows bytes shows
  refine ⟨after, (bind_of_ok clears).trans puts, shown.onScreen, ?_, shown.col,
    shown.grid⟩
  rw [shown.col]
  exact shown.inRow

end StarterKernel
