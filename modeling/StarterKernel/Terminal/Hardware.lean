import StarterKernel.Kernel.Console
import StarterKernel.Library.Simulation
import StarterKernel.Memory.Copies
import StarterKernel.Terminal.Cursor

/-!
# The terminal in video memory

Through the direct map and the ports the terminal does to the text mode buffer and the CRT
controller what it does to an array and two bytes, and it touches nothing else.
-/

namespace StarterKernel

open StateError

/-- The addresses of the text mode buffer. -/
def videoRange (term : Nat) : Set Nat := Set.Ico term (term + 4000)

/-- The pointer of the terminal leads to the text mode buffer. -/
structure VideoMapped (machine : Machine) (term : Nat) : Prop where
  bound : term + 4000 ≤ wordSize
  plain : Plain machine (videoRange term) (videoRange term) fun address =>
    vgaBuffer + (address - term)

/-- What the adapter shows: the bytes of the buffer and the location of the cursor. -/
def Console.picture (console : Console) : Terminal where
  buffer i := console.machine.memory (vgaBuffer + i)
  termRow := console.termRow
  termCol := console.termCol
  cursorLow := console.board.crt 0x0F
  cursorHigh := console.board.crt 0x0E

/-- Only the buffer, the cursor location and the position of the terminal changed. -/
structure Drawn (start console : Console) : Prop where
  term : console.term = start.term
  machine : console.machine = { start.machine with memory := console.machine.memory }
  memory : ∀ position, position < vgaBuffer ∨ vgaBuffer + 4000 ≤ position ->
    console.machine.memory position = start.machine.memory position
  walks : ∀ path, treeWalk console.machine.memory start.machine.root path =
    treeWalk start.machine.memory start.machine.root path
  board : console.board =
    { start.board with crtIndex := console.board.crtIndex, crt := console.board.crt }
  crt : ∀ index, index ≠ 0x0E -> index ≠ 0x0F ->
    console.board.crt index = start.board.crt index

/-- The console shows the terminal, and drew nothing else since `start`. -/
structure Draws (start console : Console) (terminal : Terminal) : Prop where
  video : VideoMapped console.machine console.term
  picture : console.picture = terminal
  drawn : Drawn start console

variable {start console : Console} {terminal : Terminal} {position index : Nat}
variable {value c : UInt8}

theorem Drawn.refl (console : Console) : Drawn console console :=
  ⟨rfl, rfl, fun _ _ => rfl, fun _ => rfl, rfl, fun _ _ _ => rfl⟩

theorem Drawn.trans {middle : Console} (first : Drawn start middle)
    (second : Drawn middle console) : Drawn start console where
  term := second.term.trans first.term
  machine := by rw [second.machine, first.machine]
  memory position outside := (second.memory position outside).trans (first.memory position outside)
  walks path := by
    have sameRoot : middle.machine.root = start.machine.root := by
      rw [first.machine, Machine.root, Machine.root]
    rw [← sameRoot, second.walks path, sameRoot, first.walks path]
  board := by rw [second.board, first.board]
  crt index notHigh notLow :=
    (second.crt index notHigh notLow).trans (first.crt index notHigh notLow)

/-! ## Single bytes -/

/-- The console with another byte in the buffer. -/
def Console.poke (console : Console) (position : Nat) (value : UInt8) : Console :=
  { console with machine := console.machine.poke (vgaBuffer + position) value }

namespace VideoMapped

variable {machine : Machine} {term : Nat}

theorem address_eq (video : VideoMapped machine term) (inside : position < 4000) :
    (term + position) % wordSize = term + position :=
  Nat.mod_eq_of_lt (Nat.lt_of_lt_of_le (Nat.add_lt_add_left inside term) video.bound)

theorem mem_videoRange (inside : position < 4000) : term + position ∈ videoRange term :=
  ⟨Nat.le_add_right _ _, Nat.add_lt_add_left inside term⟩

theorem loadByte (video : VideoMapped machine term) (inside : position < 4000) :
    Kernel.loadByte ((term + position) % wordSize) machine =
      .ok (machine.memory (vgaBuffer + position)) machine := by
  have loads := video.plain.loadByte (mem_videoRange inside)
  rw [Nat.add_sub_cancel_left] at loads
  rw [video.address_eq inside, loads]

theorem storeByte (video : VideoMapped machine term) (inside : position < 4000) :
    Kernel.storeByte ((term + position) % wordSize) value machine =
      .ok () (machine.poke (vgaBuffer + position) value) := by
  have stores := @Plain.storeByte _ _ _ _ _ value video.plain (mem_videoRange inside)
  rw [Nat.add_sub_cancel_left] at stores
  rw [video.address_eq inside, stores]

/-- Writing to the buffer keeps it mapped and the page tables as they are. -/
theorem poke (video : VideoMapped machine term) (inside : position < 4000) :
    VideoMapped (machine.poke (vgaBuffer + position) value) term ∧
      ∀ path, treeWalk (machine.poke (vgaBuffer + position) value).memory machine.root path =
        treeWalk machine.memory machine.root path := by
  have stays := @Plain.poke _ _ _ _ _ value video.plain (mem_videoRange inside)
  have walks := @Plain.treeWalk_poke _ _ _ _ _ value video.plain (mem_videoRange inside)
  rw [Nat.add_sub_cancel_left] at stays walks
  exact ⟨⟨video.bound, stays⟩, walks⟩

end VideoMapped

theorem Drawn.poke (video : VideoMapped console.machine console.term) (inside : position < 4000) :
    Drawn console (console.poke position value) where
  term := rfl
  machine := rfl
  memory other outside := Function.update_of_ne (by omega) _ _
  walks path := (video.poke inside).2 path
  board := rfl
  crt _ _ _ := rfl

theorem Console.picture_poke : (console.poke position value).picture =
    { console.picture with
      buffer := Function.update console.picture.buffer position value } := by
  have buffer : (fun i => (console.poke position value).machine.memory (vgaBuffer + i)) =
      Function.update console.picture.buffer position value := by
    funext i
    by_cases same : i = position
    · rw [same, Function.update_self]
      exact Function.update_self ..
    · rw [Function.update_of_ne same]
      exact Function.update_of_ne (by omega) _ _
  rw [picture, buffer]
  rfl

theorem Draws.poke (draws : Draws start console terminal) (inside : position < 4000) :
    Draws start (console.poke position value)
      { terminal with buffer := Function.update terminal.buffer position value } where
  video := (draws.video.poke inside).1
  picture := by rw [Console.picture_poke, draws.picture]
  drawn := draws.drawn.trans (Drawn.poke draws.video inside)

namespace ConsoleM

theorem entryAddress_eq (offset : Nat) : entryAddress index offset console =
    .ok ((console.term + (2 * index + offset)) % wordSize) console := rfl

theorem loadByte_eq (video : VideoMapped console.machine console.term)
    (inside : position < 4000) :
    onMachine (Kernel.loadByte ((console.term + position) % wordSize)) console =
      .ok (console.picture.buffer position) console := by
  rw [onMachine, video.loadByte inside]
  rfl

theorem storeByte_eq (video : VideoMapped console.machine console.term)
    (inside : position < 4000) :
    onMachine (Kernel.storeByte ((console.term + position) % wordSize) value) console =
      .ok ⟨⟩ (console.poke position value) := by
  rw [onMachine, video.storeByte inside]
  rfl

/-! ## The operations -/

theorem storeByte_inside {final : Terminal}
    (run : TerminalM.storeByte position value terminal = .ok ⟨⟩ final) :
    position < 4000 ∧
      final = { terminal with buffer := Function.update terminal.buffer position value } := by
  by_cases inside : position < 4000
  · rw [TerminalM.storeByte_eq inside] at run
    cases run
    exact ⟨inside, rfl⟩
  · have outside : ¬position < 2 * (vgaWidth * vgaHeight) := inside
    rw [TerminalM.storeByte, if_neg outside] at run
    cases run

theorem setC_simulates (index : Nat) (c : UInt8) :
    Simulates (Draws start) (setC index c) (TerminalM.setC index c) := by
  intro console terminal draws _ final run
  obtain ⟨inside, rfl⟩ := storeByte_inside run
  exact ⟨_, (bind_of_ok (entryAddress_eq 0)).trans (storeByte_eq draws.video inside),
    draws.poke inside⟩

/-- Change the colours of an entry. -/
theorem setColours_simulates (index : Nat) (change : UInt8 -> UInt8) :
    Simulates (Draws start)
      (do
        let address ← entryAddress index 1
        let colours ← onMachine (Kernel.loadByte address)
        onMachine (Kernel.storeByte address (change colours)))
      (do
        let colours ← TerminalM.loadByte (2 * index + 1)
        TerminalM.storeByte (2 * index + 1) (change colours)) := by
  intro console terminal draws _ final run
  obtain ⟨colours, middle, loads, stores⟩ := ok_of_bind run
  obtain ⟨inside, isFinal⟩ := storeByte_inside stores
  rw [TerminalM.loadByte_eq inside] at loads
  cases loads
  refine ⟨console.poke (2 * index + 1) (change (terminal.buffer (2 * index + 1))), ?_,
    isFinal ▸ draws.poke inside⟩
  rw [bind_of_ok (entryAddress_eq 1), bind_of_ok (loadByte_eq draws.video inside), draws.picture]
  exact storeByte_eq draws.video inside

theorem setFg_simulates (index fg : Nat) :
    Simulates (Draws start) (setFg index fg) (TerminalM.setFg index fg) :=
  setColours_simulates index _

theorem setBg_simulates (index bg : Nat) :
    Simulates (Draws start) (setBg index bg) (TerminalM.setBg index bg) :=
  setColours_simulates index _

theorem clearEntry_simulates (index : Nat) :
    Simulates (Draws start) (clearEntry index) (TerminalM.clearEntry index) :=
  (setC_simulates index 32).bind fun _ => (setBg_simulates index _).bind fun _ =>
    setFg_simulates index _

theorem paint_simulates (index : Nat) (c : UInt8) :
    Simulates (Draws start) (paint index c) (TerminalM.paint index c) :=
  (setC_simulates index c).bind fun _ => (setFg_simulates index _).bind fun _ =>
    setBg_simulates index _

/-- Moving the position of the terminal draws nothing. -/
theorem moveTo_simulates {row col : Console -> Nat} {abstractRow abstractCol : Terminal -> Nat}
    (sameRow : ∀ console, row console = abstractRow console.picture)
    (sameCol : ∀ console, col console = abstractCol console.picture) :
    Simulates (Draws start)
      (modify fun console => { console with termRow := row console, termCol := col console } :
        ConsoleM Unit)
      (modify fun terminal =>
        { terminal with termRow := abstractRow terminal, termCol := abstractCol terminal } :
        TerminalM Unit) := by
  refine Simulates.modify fun console terminal draws => ?_
  obtain ⟨video, rfl, drawn⟩ := draws
  refine ⟨video, ?_, drawn.trans ⟨rfl, rfl, fun _ _ => rfl, fun _ => rfl, rfl, fun _ _ _ => rfl⟩⟩
  rw [← sameRow, ← sameCol]
  rfl

theorem nextRow_simulates : Simulates (Draws start) nextRow TerminalM.nextRow :=
  moveTo_simulates (fun _ => rfl) fun _ => rfl

/-- The four writes to the CRT controller set the two bytes of the cursor location. -/
theorem termUpdateCursor_simulates :
    Simulates (Draws start) termUpdateCursor TerminalM.termUpdateCursor := by
  intro console terminal draws _ final run
  obtain ⟨video, rfl, drawn⟩ := draws
  rw [TerminalM.termUpdateCursor, modify_apply] at run
  cases run
  refine ⟨_, rfl, video, rfl, drawn.trans ⟨rfl, rfl, fun _ _ => rfl, fun _ => rfl, rfl, ?_⟩⟩
  intro index notHigh notLow
  exact (Function.update_of_ne notHigh _ _).trans (Function.update_of_ne notLow _ _)

theorem termClear_simulates : Simulates (Draws start) termClear TerminalM.termClear :=
  (Simulates.forM clearEntry_simulates _).bind fun _ =>
    (moveTo_simulates (fun _ => rfl) fun _ => rfl).bind fun _ => termUpdateCursor_simulates

theorem newline_simulates (c : UInt8) :
    Simulates (Draws start) (newline c) (TerminalM.newline c) :=
  nextRow_simulates.ite (Simulates.pure _)

theorem wrap_simulates : Simulates (Draws start) wrap TerminalM.wrap := by
  refine Simulates.get fun console terminal draws => ?_
  obtain ⟨_, rfl, _⟩ := draws
  exact nextRow_simulates.ite (Simulates.pure _)

theorem clearRow_simulates (row : Nat) :
    Simulates (Draws start) (clearRow row) (TerminalM.clearRow row) :=
  Simulates.forM (fun _ => paint_simulates _ _) _

theorem writeCharacter_simulates (c : UInt8) :
    Simulates (Draws start) (writeCharacter c) (TerminalM.writeCharacter c) := by
  refine Simulates.ite (Simulates.get fun console terminal draws => ?_) (Simulates.pure _)
  obtain ⟨_, rfl, _⟩ := draws
  exact (paint_simulates _ c).bind fun _ => moveTo_simulates (fun _ => rfl) fun _ => rfl

theorem eraseCharacter_simulates :
    Simulates (Draws start) eraseCharacter TerminalM.eraseCharacter := by
  refine Simulates.get fun console terminal draws => ?_
  obtain ⟨_, rfl, _⟩ := draws
  refine Simulates.ite ((moveTo_simulates (fun _ => rfl) fun _ => rfl).bind fun _ => ?_)
    (Simulates.pure _)
  refine Simulates.get fun moved terminal draws => ?_
  obtain ⟨_, rfl, _⟩ := draws
  exact setC_simulates _ 32

/-! ## Scrolling -/

/-- The bytes that the copy of the rows writes. -/
theorem memcpyRows {machine : Machine} {term : Nat} (video : VideoMapped machine term) :
    ∃ after, Kernel.memcpy term ((term + 160) % wordSize) 3840 machine = .ok () after ∧
      VideoMapped after term ∧ after = { machine with memory := after.memory } ∧
      (∀ position, position < vgaBuffer ∨ vgaBuffer + 3840 ≤ position ->
        after.memory position = machine.memory position) ∧
      (∀ i < 3840, after.memory (vgaBuffer + i) = machine.memory (vgaBuffer + (160 + i))) ∧
      ∀ path,
        treeWalk after.memory machine.root path = treeWalk machine.memory machine.root path := by
  have bound := video.bound
  have inside (offset : Nat) (small : offset < 3840) : term + offset ∈ videoRange term :=
    VideoMapped.mem_videoRange (by omega)
  have sources (offset : Nat) (small : offset < 3840) : term + 160 + offset ∈ videoRange term := by
    rw [Nat.add_assoc]
    exact VideoMapped.mem_videoRange (by omega)
  have ranges : CopyRanges wordSize term (term + 160) 3840 :=
    ⟨by decide, by omega, by omega, Or.inr (Or.inr (Nat.le_add_right _ _))⟩
  obtain ⟨after, run, stays, copied⟩ := video.plain.memcpy ranges inside sources
  have frame (position : Nat) (outside : position < vgaBuffer ∨ vgaBuffer + 3840 ≤ position) :
      after.memory position = machine.memory position :=
    copied.frame position fun offset small => by omega
  refine ⟨after, ?_, ⟨bound, stays⟩, copied.rest, frame, fun i small => ?_, fun path => ?_⟩
  · rw [video.address_eq (by decide), run]
  · have same := copied.inside ranges inside small
    rwa [Nat.add_sub_cancel_left, Nat.add_assoc, Nat.add_sub_cancel_left] at same
  · refine treeWalk_congr machine.isFrame_root (fun path table reached position inTable => ?_) path
    refine copied.frame position ?_
    rintro offset small rfl
    exact video.plain.noTable _ (inside offset small) path (inTable.symm ▸ reached)

/-- The copy within the text mode buffer shifts the rows up. -/
theorem shiftRows_simulates :
    Simulates (Draws start) shiftRows (TerminalM.memcpy 0 160 3840) := by
  intro console terminal draws _ final run
  obtain ⟨video, rfl, drawn⟩ := draws
  rw [memcpyRows_eq] at run
  cases run
  obtain ⟨after, copies, stays, rest, frame, rows, walks⟩ := memcpyRows video
  have shifts : shiftRows console = .ok ⟨⟩ { console with machine := after } := by
    rw [shiftRows, bind_of_ok (get_apply console)]
    change onMachine (Kernel.memcpy console.term ((console.term + 160) % wordSize) 3840)
      console = _
    rw [onMachine, copies]
  refine ⟨_, shifts, stays, ?_, drawn.trans
    ⟨rfl, rest, fun position outside => frame position (by omega), walks, rfl, fun _ _ _ => rfl⟩⟩
  have buffer : (fun i => after.memory (vgaBuffer + i)) = console.picture.shiftUp.buffer := by
    funext i
    by_cases inRows : i < 3840
    · have shifted : console.picture.shiftUp.buffer i = console.picture.buffer (160 + i) :=
        ForwardCopy.copy_inside (Or.inl (Nat.zero_le _)) (Nat.zero_le _) (by omega)
      rw [rows i inRows, shifted]
      rfl
    · have same : console.picture.shiftUp.buffer i = console.picture.buffer i :=
        ForwardCopy.copy_outside (by omega)
      rw [frame _ (by omega), same]
      rfl
  rw [Console.picture, buffer]
  rfl

theorem scroll_simulates : Simulates (Draws start) scroll TerminalM.scroll := by
  refine Simulates.get fun console terminal draws => ?_
  obtain ⟨_, rfl, _⟩ := draws
  refine Simulates.ite (shiftRows_simulates.bind fun _ => ?_) (Simulates.pure _)
  refine (moveTo_simulates (fun _ => rfl) fun _ => rfl).bind fun _ => ?_
  refine Simulates.get fun moved terminal draws => ?_
  obtain ⟨_, rfl, _⟩ := draws
  exact clearRow_simulates _

/-- Writing a character. -/
theorem termPutchar_simulates (c : UInt8) :
    Simulates (Draws start) (termPutchar c) (TerminalM.termPutchar c) := by
  refine Simulates.ite ?_ (Simulates.ite ?_ ?_)
  · exact (moveTo_simulates (fun _ => rfl) fun _ => rfl).bind fun _ => termUpdateCursor_simulates
  · exact eraseCharacter_simulates.bind fun _ => termUpdateCursor_simulates
  · exact (newline_simulates c).bind fun _ => wrap_simulates.bind fun _ =>
      scroll_simulates.bind fun _ => (writeCharacter_simulates c).bind fun _ =>
        termUpdateCursor_simulates

/-- The console with the shape of the cursor set. -/
def cursorEnabled (console : Console) : Console :=
  let shape := Function.update
    (Function.update console.board.crt 0x0A ((console.board.crt 0x0A &&& 0xC0) ||| 13))
    0x0B ((console.board.crt 0x0B &&& 0xE0) ||| 15)
  { console with board := { console.board with crtIndex := 0x0B, crt := shape } }

theorem termEnableCursor_eq : termEnableCursor console = .ok ⟨⟩ (cursorEnabled console) := by
  have other : (0x0B : UInt8) ≠ 0x0A := by decide
  have same : Function.update console.board.crt 0x0A ((console.board.crt 0x0A &&& 0xC0) ||| 13)
      0x0B = console.board.crt 0x0B := Function.update_of_ne other _ _
  rw [cursorEnabled, ← same]
  rfl

end ConsoleM

/-! ## Sheets on the screen -/

/-- The screen shows the sheet, with the cursor behind the text. -/
structure OnScreen (console : Console) (sheet : Sheet) : Prop where
  video : VideoMapped console.machine console.term
  shows : console.picture.Shows sheet
  cursor : console.picture.CursorFollows

variable {sheet : Sheet}

/-- The cursor location in terms of the sheet. -/
theorem OnScreen.location (onScreen : OnScreen console sheet) :
    (console.board.crt 0x0F).toNat + 2 ^ 8 * (console.board.crt 0x0E).toNat =
      (sheet.row - sheet.top) * 80 + sheet.col := by
  have row : sheet.top + console.termRow = sheet.row := onScreen.shows.row
  have col : console.termCol = sheet.col := onScreen.shows.col
  have sameRow : console.termRow = sheet.row - sheet.top := by omega
  rw [← sameRow, ← col]
  exact onScreen.cursor

theorem OnScreen.putchar (onScreen : OnScreen console sheet) (c : UInt8) :
    ∃ after, ConsoleM.termPutchar c console = .ok ⟨⟩ after ∧ OnScreen after (sheet.putchar c) ∧
      Drawn console after := by
  obtain ⟨final, run, shows⟩ := termPutchar_shows onScreen.shows c
  obtain ⟨after, runs, video, rfl, drawn⟩ :=
    @ConsoleM.termPutchar_simulates console c console console.picture
      ⟨onScreen.video, rfl, .refl console⟩ _ _ run
  exact ⟨after, runs,
    ⟨video, shows, termPutchar_follows run shows.onScreen (shows.col ▸ shows.inRow)⟩, drawn⟩

/-- Some characters one after the other. -/
theorem OnScreen.putchars (onScreen : OnScreen console sheet) (bytes : List UInt8) :
    ∃ after, bytes.forM ConsoleM.termPutchar console = .ok ⟨⟩ after ∧
      OnScreen after (bytes.foldl Sheet.putchar sheet) ∧ Drawn console after := by
  induction bytes generalizing console sheet with
  | nil => exact ⟨console, rfl, onScreen, .refl console⟩
  | cons c bytes inductionHypothesis =>
      obtain ⟨middle, first, shown, drawn⟩ := onScreen.putchar c
      obtain ⟨after, rest, ends, drawnRest⟩ := inductionHypothesis shown
      refine ⟨after, ?_, ends, drawn.trans drawnRest⟩
      rw [forM_cons_apply, bind_of_ok first, rest]

/-- The console before `term_init` clears the screen. -/
def Console.enabled (console : Console) : Console :=
  ConsoleM.cursorEnabled { console with term := console.machine.ptov vgaBuffer }

theorem Console.enabled_crt (index : UInt8) : console.enabled.board.crt index =
    if index = 0x0B then (console.board.crt 0x0B &&& 0xE0) ||| 15
    else if index = 0x0A then (console.board.crt 0x0A &&& 0xC0) ||| 13
    else console.board.crt index := by
  simp only [enabled, ConsoleM.cursorEnabled, Function.update_apply]

/-- `term_init` clears the screen. -/
theorem termInit_onScreen
    (video : VideoMapped console.machine (console.machine.ptov vgaBuffer)) :
    ∃ after, ConsoleM.termInit console = .ok ⟨⟩ after ∧ OnScreen after .empty ∧
      Drawn console.enabled after := by
  obtain ⟨final, run, shows⟩ := termClear_shows console.enabled.picture
  obtain ⟨after, runs, videoAfter, rfl, drawn⟩ :=
    @ConsoleM.termClear_simulates console.enabled console.enabled console.enabled.picture
      ⟨video, rfl, .refl _⟩ _ _ run
  refine ⟨after, ?_, ⟨videoAfter, shows,
    termClear_follows run shows.onScreen (shows.col ▸ shows.inRow)⟩, drawn⟩
  rw [ConsoleM.termInit, bind_of_ok (modify_apply _ _), bind_of_ok ConsoleM.termEnableCursor_eq]
  exact runs

/-- After `term_init` and any characters, whatever the adapter held: the text mode buffer
shows the last 25 rows of the text, white on black, the registers of the CRT controller
show a cursor behind it, and nothing else of the machine and its devices has changed. -/
theorem screen_shows_text (console : Console)
    (video : VideoMapped console.machine (console.machine.ptov vgaBuffer)) (bytes : List UInt8) :
    let sheet := bytes.foldl Sheet.putchar .empty
    ∃ after, (do
        ConsoleM.termInit
        bytes.forM ConsoleM.termPutchar : ConsoleM Unit) console = .ok ⟨⟩ after ∧
      (∀ row < 25, ∀ col < 80,
        VgaEntry.decode (after.machine.memory (vgaBuffer + 2 * (row * 80 + col)))
          (after.machine.memory (vgaBuffer + (2 * (row * 80 + col) + 1))) =
            sheet.cell (sheet.top + row) col) ∧
      (after.board.crt 0x0F).toNat + 2 ^ 8 * (after.board.crt 0x0E).toNat =
        (sheet.row - sheet.top) * 80 + sheet.col ∧
      after.board.crt 0x0A = (console.board.crt 0x0A &&& 0xC0) ||| 13 ∧
      after.board.crt 0x0B = (console.board.crt 0x0B &&& 0xE0) ||| 15 ∧
      (∀ index, index ∉ [0x0A, 0x0B, 0x0E, 0x0F] ->
        after.board.crt index = console.board.crt index) ∧
      after.board = { console.board with
        crtIndex := after.board.crtIndex
        crt := after.board.crt } ∧
      (∀ position, position < vgaBuffer ∨ vgaBuffer + 4000 ≤ position ->
        after.machine.memory position = console.machine.memory position) ∧
      after.machine = { console.machine with memory := after.machine.memory } := by
  intro sheet
  obtain ⟨cleared, clears, empty, first⟩ := termInit_onScreen video
  obtain ⟨after, prints, onScreen, rest⟩ := empty.putchars bytes
  have drawn := first.trans rest
  refine ⟨after, (bind_of_ok clears).trans prints, onScreen.shows.grid, onScreen.location,
    ?_, ?_, ?_, drawn.board, drawn.memory, drawn.machine⟩
  · rw [drawn.crt _ (by decide) (by decide), Console.enabled_crt, if_neg (by decide), if_pos rfl]
  · rw [drawn.crt _ (by decide) (by decide), Console.enabled_crt, if_pos rfl]
  · intro index others
    simp only [List.mem_cons, List.not_mem_nil, or_false, not_or] at others
    rw [drawn.crt _ others.2.2.1 others.2.2.2, Console.enabled_crt, if_neg others.2.1,
      if_neg others.1]

/-! ## The boot machine -/

theorem videoMapped_bootMachine (content : Nat -> UInt8) :
    VideoMapped (bootMachine content) (bootHhdmBase + vgaBuffer) where
  bound := by decide
  plain := by
    have inside : videoRange (bootHhdmBase + vgaBuffer) ⊆ bootDirectMap := fun address member =>
      ⟨(by decide : _ ≤ bootHhdmBase + vgaBuffer).trans member.1,
        member.2.trans_le (by decide)⟩
    refine (plain_bootMachine content).mono inside inside fun address member => ?_
    obtain ⟨above, _⟩ := member
    unfold bootPhysical
    omega

/-- The console that a bootloader hands over, with the address of the direct map set. -/
def bootConsole (content : Nat -> UInt8) : Console where
  machine := { bootMachine content with hhdmBase := bootHhdmBase }
  board := poweredOn []
  term := 0
  termRow := 0
  termCol := 0

theorem videoMapped_bootConsole (content : Nat -> UInt8) :
    VideoMapped (bootConsole content).machine ((bootConsole content).machine.ptov vgaBuffer) := by
  have term : (bootConsole content).machine.ptov vgaBuffer = bootHhdmBase + vgaBuffer := rfl
  have video := videoMapped_bootMachine content
  rw [term]
  exact ⟨video.bound, video.plain.subset, video.plain.mapped, video.plain.apart,
    video.plain.noTable⟩

/-- The first character on the screen. -/
theorem screen_shows_text_bootConsole :
    ∃ after, (do
        ConsoleM.termInit
        [65].forM ConsoleM.termPutchar : ConsoleM Unit) (bootConsole fun _ => 0) = .ok ⟨⟩ after ∧
      VgaEntry.decode (after.machine.memory vgaBuffer) (after.machine.memory (vgaBuffer + 1)) =
        .white 65 := by
  obtain ⟨after, run, cells, _⟩ := screen_shows_text (bootConsole fun _ => 0)
    (videoMapped_bootConsole _) [65]
  exact ⟨after, run, cells 0 (by decide) 0 (by decide)⟩

end StarterKernel
