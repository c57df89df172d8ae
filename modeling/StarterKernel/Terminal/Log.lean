import StarterKernel.Exec.OutsidePool
import StarterKernel.Terminal.Hardware

/-!
# The log on the screen

What the kernel prints goes to a log in the rest of this development.  In every state of a
run the screen shows this log: the page table editors and the programs never get at the
video memory.
-/

namespace StarterKernel

open StateError

variable {root address level table frame tag : Nat} {pool : Set Nat} {free : List Nat}
variable {machine after : Machine} {user writable executable : Bool}
variable {hdr : Stivale2Struct} {console : Console}

/-! ## The log grows -/

theorem Machine.modifyEntry_terminal (pointer : Nat) (change : PtEntry -> PtEntry) :
    (machine.modifyEntry pointer change).terminal = machine.terminal := rfl

theorem Machine.memset_terminal (arr c len : Nat) :
    (machine.memset arr c len).terminal = machine.terminal := by
  have step (machine : Machine) (i : Nat) :
      (machine.storeDirect (arr + i) 1 c).terminal = machine.terminal := rfl
  rw [memset, foldl_keeps terminal step]

theorem Machine.kprintf_log (text : String) :
    machine.terminal <+: (machine.kprintf text).terminal :=
  List.prefix_append _ _

theorem Machine.clearL4Entry_terminal {index : Nat} :
    (clearL4Entry root machine index).terminal = machine.terminal := by
  unfold clearL4Entry
  split <;> rfl

theorem Machine.pmemAlloc_log : machine.terminal <+: machine.pmemAlloc.2.terminal := by
  unfold pmemAlloc
  split
  · exact kprintf_log _
  · exact List.prefix_rfl

theorem Machine.vmMapLoop_log :
    machine.terminal <+:
      (machine.vmMapLoop address user writable executable level table).2.terminal := by
  induction level generalizing table machine with
  | zero => exact kprintf_log _
  | succ level inductionHypothesis =>
      have allocated := @pmemAlloc_log machine
      rw [vmMapLoop]
      dsimp only
      by_cases present :
        (machine.loadEntry (table + 8 * indices address (level + 1))).present = true
      · rw [if_pos present]
        by_cases last : level = 0
        · rw [if_pos last]
        · rw [if_neg last]
          exact inductionHypothesis
      · rw [if_neg present]
        generalize machine.pmemAlloc = allocation at allocated ⊢
        obtain ⟨newTable, popped⟩ := allocation
        dsimp only at allocated ⊢
        by_cases exhausted : newTable = 0
        · rw [if_pos exhausted]
          exact allocated
        · rw [if_neg exhausted]
          by_cases last : level = 0
          · rw [if_pos last, invalidateTlb_eq, modifyEntry_terminal, modifyEntry_terminal,
              memset_terminal]
            exact allocated
          · rw [if_neg last]
            refine List.IsPrefix.trans ?_ inductionHypothesis
            rw [modifyEntry_terminal, modifyEntry_terminal, memset_terminal]
            exact allocated

theorem Machine.vmProtectLoop_log :
    machine.terminal <+:
      (machine.vmProtectLoop address user writable executable level table).2.terminal := by
  induction level generalizing table machine with
  | zero => exact kprintf_log _
  | succ level inductionHypothesis =>
      rw [vmProtectLoop]
      dsimp only
      by_cases present :
        (machine.loadEntry (table + 8 * indices address (level + 1))).present = true
      · rw [if_pos present]
        by_cases last : level = 0
        · rw [if_pos last, invalidateTlb_eq, modifyEntry_terminal]
        · rw [if_neg last]
          exact inductionHypothesis
      · rw [if_neg present]

/-- Every step keeps what was printed. -/
theorem Step.log (owned : Owned root pool machine free) (step : Step root machine after) :
    machine.terminal <+: after.terminal := by
  cases step with
  | vmMap => exact Machine.vmMapLoop_log
  | vmProtect => exact Machine.vmProtectLoop_log
  | unmapLowerHalf =>
      rw [Machine.unmapLowerHalf_keeps Machine.terminal (fun _ _ => Machine.clearL4Entry_terminal)
        (fun _ _ => rfl) owned.rootFrame owned.tree]
  | userStore => exact List.prefix_rfl

/-! ## The video memory -/

/-- The video memory belongs to nobody, and its pointer is in the upper half. -/
structure VideoReserved (root : Nat) (pool : Set Nat) (term : Nat) : Prop where
  notPool : vgaBuffer ∉ pool
  notRoot : vgaBuffer ≠ root
  upper : ∀ address ∈ videoRange term, ¬LowerHalf address

/-- The text mode buffer is in one frame. -/
theorem frameOf_vgaBuffer {offset : Nat} (inside : offset < 4000) :
    frameOf (vgaBuffer + offset) = vgaBuffer := by
  unfold frameOf vgaBuffer
  omega

theorem frameOf_outside {position : Nat} (other : frameOf position ≠ vgaBuffer) :
    position < vgaBuffer ∨ vgaBuffer + 4000 ≤ position := by
  by_contra inside
  obtain ⟨offset, rfl⟩ := Nat.exists_eq_add_of_le (show vgaBuffer ≤ position by omega)
  exact other (frameOf_vgaBuffer (by omega))

variable {term : Nat}

theorem VideoMapped.noTable (video : VideoMapped machine term) (path : List Nat) :
    tableAt machine.memory machine.root path ≠ some vgaBuffer := by
  have first := video.plain.noTable _ (VideoMapped.mem_videoRange (show 0 < 4000 by decide)) path
  rwa [Nat.add_sub_cancel_left, frameOf_vgaBuffer (by decide)] at first

/-- Changes within the pool do not move the video memory. -/
theorem VideoMapped.congr (video : VideoMapped machine term)
    (reserved : VideoReserved root pool term) (isRoot : machine.root = root)
    (outside : OutsidePool root pool machine after) : VideoMapped after term where
  bound := video.bound
  plain :=
    { subset := video.plain.subset
      mapped := fun address member => by
        have sameRoot : after.root = root := by
          rw [← isRoot, Machine.root, Machine.root, outside.sameCr3]
        obtain ⟨canonical, mapped, translates, rest⟩ := video.plain.mapped address member
        rw [isRoot] at translates
        rw [sameRoot, outside.sameWriteProtect, outside.upper _ (reserved.upper _ member)]
        exact ⟨canonical, mapped, translates, rest⟩
      apart := video.plain.apart
      noTable := fun address member path reached => by
        have sameRoot : after.root = root := by
          rw [← isRoot, Machine.root, Machine.root, outside.sameCr3]
        have isVideo : frameOf (vgaBuffer + (address - term)) = vgaBuffer := by
          obtain ⟨above, below⟩ := member
          exact frameOf_vgaBuffer (by omega)
        rw [isVideo, sameRoot] at reached
        rcases outside.tables path vgaBuffer reached with before | inPool
        · exact video.noTable path (isRoot ▸ before)
        · exact reserved.notPool inPool }

/-- Nor do they change what it shows. -/
theorem OutsidePool.video (outside : OutsidePool root pool machine after)
    (reserved : VideoReserved root pool term) {offset : Nat} (inside : offset < 4000) :
    after.memory (vgaBuffer + offset) = machine.memory (vgaBuffer + offset) :=
  outside.reserved vgaBuffer reserved.notPool reserved.notRoot _ (frameOf_vgaBuffer inside)

/-! ## Printing -/

/-- What is shown depends on the bytes of the text mode buffer only. -/
theorem OnScreen.congr {sheet : Sheet} (onScreen : OnScreen console sheet)
    (video : VideoMapped machine console.term)
    (same : ∀ offset < 4000, machine.memory (vgaBuffer + offset) =
      console.machine.memory (vgaBuffer + offset)) :
    OnScreen { console with machine := machine } sheet where
  video := video
  shows :=
    { onScreen.shows with
      grid := fun row below col inRow => by
        have cell := onScreen.shows.grid row below col inRow
        rw [Terminal.entry] at cell ⊢
        rw [← cell]
        exact congrArg₂ VgaEntry.decode (same _ (by omega)) (same _ (by omega)) }
  cursor := onScreen.cursor

/-- What the terminal draws is outside the frames that have a role. -/
theorem Owned.drawn {after : Console} (owned : Owned root pool console.machine free)
    (isCr3 : console.machine.cr3 = root) (notPool : vgaBuffer ∉ pool)
    (video : VideoMapped console.machine console.term) (drawn : Drawn console after) :
    Owned root pool after.machine free := by
  have isRoot := owned.root_eq isCr3
  have elsewhere (frame : Nat) (other : frame ≠ vgaBuffer) :
      AgreeOn console.machine.memory after.machine.memory frame := fun position inFrame =>
    drawn.memory position (frameOf_outside (inFrame ▸ other))
  have machine := drawn.machine
  refine owned.congr (by rw [machine]) (by rw [machine]) (fun path frame reached => ?_)
    fun frame member => ?_
  · refine elsewhere frame ?_
    rintro rfl
    exact video.noTable path (isRoot.symm ▸ reached)
  · refine elsewhere frame ?_
    rintro rfl
    exact notPool (owned.freeInPool _ member)

/-- The sheet with what was printed. -/
def Machine.logSheet (machine : Machine) : Sheet := machine.terminal.foldl Sheet.putchar .empty

/-- A state of the running system: the screen shows the log. -/
structure Running (root : Nat) (pool : Set Nat) (console : Console) : Prop where
  owned : ∃ free, Owned root pool console.machine free
  isCr3 : console.machine.cr3 = root
  reserved : VideoReserved root pool console.term
  screen : OnScreen console console.machine.logSheet

/-- A part of the kernel that stays in the pool prints to the screen. -/
theorem Owned.printing {machine : Machine} (owned : Owned root pool machine free)
    (isCr3 : console.machine.cr3 = root) (reserved : VideoReserved root pool console.term)
    (screen : OnScreen console console.machine.logSheet)
    (outside : OutsidePool root pool console.machine machine)
    (log : console.machine.terminal <+: machine.terminal) :
    ∃ after, ConsoleM.printing (fun _ => machine) console = .ok ⟨⟩ after ∧
      Running root pool after ∧ Drawn { console with machine := machine } after := by
  obtain ⟨message, isLog⟩ := log
  have isRoot : console.machine.root = root := by
    subst isCr3
    exact owned.rootFrame.root_eq
  have video := screen.video.congr reserved isRoot outside
  have isCr3 := outside.sameCr3.trans isCr3
  have shown := screen.congr video fun offset inside => outside.video reserved inside
  obtain ⟨after, prints, onScreen, drawn⟩ := shown.putchars message
  have isMessage : machine.terminal.drop console.machine.terminal.length = message := by
    rw [← isLog, List.drop_left]
  have machineAfter := drawn.machine
  have sameLog : after.machine.terminal = console.machine.terminal ++ message := by
    rw [machineAfter, isLog]
  refine ⟨after, ?_,
    { owned := ⟨free, Owned.drawn owned isCr3 reserved.notPool video drawn⟩
      isCr3 := by rw [machineAfter, isCr3]
      reserved := drawn.term ▸ reserved
      screen := ?_ }, drawn⟩
  · rw [ConsoleM.printing, bind_of_ok (get_apply _), bind_of_ok (modify_apply _ _),
      bind_of_ok (get_apply _)]
    dsimp only
    rw [isMessage]
    exact prints
  · rw [Machine.logSheet, sameLog, List.foldl_append]
    exact onScreen

/-! ## Runs -/

/-- One step: the page table editors or a program, with what they print, or the kernel
prints a character. -/
inductive ConsoleStep (root : Nat) : Console -> Console -> Prop
  | step {console after : Console} {machine : Machine} (step : Step root console.machine machine)
      (run : ConsoleM.printing (fun _ => machine) console = .ok ⟨⟩ after) :
      ConsoleStep root console after
  | kprintC {console after : Console} (c : UInt8)
      (run : ConsoleM.kprintC c console = .ok ⟨⟩ after) : ConsoleStep root console after

/-- Any number of steps. -/
abbrev ConsoleRun (root : Nat) : Console -> Console -> Prop :=
  Relation.ReflTransGen (ConsoleStep root)

theorem Running.ofStep {machine : Machine} (running : Running root pool console)
    (step : Step root console.machine machine) :
    ∃ after, ConsoleM.printing (fun _ => machine) console = .ok ⟨⟩ after ∧
      Running root pool after ∧ Drawn { console with machine := machine } after := by
  obtain ⟨_, owned⟩ := running.owned
  obtain ⟨_, kept⟩ := owned.step step
  exact kept.printing running.isCr3 running.reserved running.screen
    (owned.step_outsidePool step) (step.log owned)

theorem Running.kprintC (running : Running root pool console) (c : UInt8) :
    ∃ after, ConsoleM.kprintC c console = .ok ⟨⟩ after ∧ Running root pool after := by
  obtain ⟨free, owned⟩ := running.owned
  have kept : Owned root pool (console.machine.kprintC c) free :=
    owned.congr rfl rfl (fun _ _ _ => AgreeOn.refl _ _) fun _ _ => AgreeOn.refl _ _
  obtain ⟨after, prints, stays, _⟩ := kept.printing running.isCr3 running.reserved running.screen
    (.of_treeWalk rfl rfl (fun _ => rfl) fun _ _ _ => AgreeOn.refl _ _) (List.prefix_append _ _)
  exact ⟨after, prints, stays⟩

/-- Every run keeps the log on the screen. -/
theorem Running.run {later : Console} (running : Running root pool console)
    (run : ConsoleRun root console later) : Running root pool later := by
  induction run with
  | refl => exact running
  | tail _ step inductionHypothesis =>
      cases step with
      | step step run =>
          obtain ⟨_, prints, stays, _⟩ := inductionHypothesis.ofStep step
          exact (ok_unique prints run).2 ▸ stays
      | kprintC c run =>
          obtain ⟨_, prints, stays⟩ := inductionHypothesis.kprintC c
          exact (ok_unique prints run).2 ▸ stays

/-! ## Boot -/

/-- The pointer of the terminal at boot. -/
theorem videoReserved_boot (higherHalf : 0xffff800000000000 ≤ hdr.hhdm)
    (bound : hdr.hhdm + vgaBuffer + 4000 ≤ wordSize) (notPool : vgaBuffer ∉ pool)
    (notRoot : vgaBuffer ≠ root) : VideoReserved root pool (hdr.hhdm + vgaBuffer) where
  notPool := notPool
  notRoot := notRoot
  upper address member lower := by
    obtain ⟨above, below⟩ := member
    have top : indices address 4 = address / 2 ^ 39 % 512 := rfl
    unfold LowerHalf at lower
    unfold wordSize vgaBuffer at *
    omega

/-- Other fields of the machine do not matter to the video memory. -/
theorem VideoMapped.withMachine (video : VideoMapped machine term)
    (sameMemory : after.memory = machine.memory) (sameCr3 : after.cr3 = machine.cr3)
    (sameWriteProtect : after.writeProtect = machine.writeProtect) : VideoMapped after term where
  bound := video.bound
  plain := by
    have sameRoot : after.root = machine.root := by rw [Machine.root, Machine.root, sameCr3]
    refine ⟨video.plain.subset, ?_, video.plain.apart, ?_⟩
    · rw [sameMemory, sameRoot, sameWriteProtect]
      exact video.plain.mapped
    · rw [sameMemory, sameRoot]
      exact video.plain.noTable

/-- The steps of `_start` lead to a running system. -/
theorem start_running (handover : Handover hdr tag console.machine)
    (empty : console.machine.terminal = [])
    (video : VideoMapped console.machine (hdr.hhdm + vgaBuffer))
    (notUsable : vgaBuffer ∉ usableFrames console.machine.memory tag
      (mmapEntries console.machine.memory tag))
    (notMap : vgaBuffer + 4000 ≤ tag ∨
      tag + 24 + 24 * mmapEntries console.machine.memory tag ≤ vgaBuffer) :
    ∃ pool booted, ConsoleM.start hdr console = .ok ⟨⟩ booted ∧
      Running console.machine.cr3 pool booted := by
  let based : Console := { console with
    machine := { console.machine with hhdmBase := hdr.hhdm } }
  have bound := video.bound
  have term : based.machine.ptov vgaBuffer = hdr.hhdm + vgaBuffer := by
    have sum : based.machine.ptov vgaBuffer = (vgaBuffer + hdr.hhdm) % wordSize := rfl
    rw [sum, Nat.mod_eq_of_lt (by omega), Nat.add_comm]
  have videoBased : VideoMapped based.machine (based.machine.ptov vgaBuffer) := by
    rw [term]
    exact video.withMachine rfl rfl rfl
  obtain ⟨cleared, clears, onScreen, drawn⟩ := termInit_onScreen videoBased
  have isTerm : cleared.term = hdr.hhdm + vgaBuffer := drawn.term.trans term
  have sameCr3 : cleared.machine.cr3 = console.machine.cr3 := by
    rw [drawn.machine]
    rfl
  have emptyLog : cleared.machine.terminal = [] := by
    rw [drawn.machine]
    exact empty
  have sameMap (position : Nat) (above : tag ≤ position)
      (below : position < tag + 24 + 24 * mmapEntries console.machine.memory tag) :
      cleared.machine.memory position = console.machine.memory position :=
    drawn.memory position (by omega)
  -- Drawing keeps the page tables and the memory map, so `mem_init` finds them.
  have handed : Handover hdr tag cleared.machine := by
    refine handover.congr sameMap ?_ sameCr3 fun path => ?_
    · rw [drawn.machine]
      rfl
    · have isRoot : based.enabled.machine.root = console.machine.cr3 :=
        handover.rootFrame.root_eq
      rw [← isRoot]
      exact drawn.walks path
  have isRoot : cleared.machine.root = cleared.machine.cr3 := handed.rootFrame.root_eq
  have noTable (path : List Nat) :
      tableAt cleared.machine.memory cleared.machine.cr3 path ≠ some vgaBuffer :=
    isRoot ▸ onScreen.video.noTable path
  obtain ⟨start, free, init, initialized⟩ := handed.memInit_initialized
  have reserved :
      VideoReserved cleared.machine.cr3 (bootPool tag cleared.machine) cleared.term := by
    rw [isTerm]
    refine videoReserved_boot handover.higherHalf bound ?_ fun isTable => ?_
    · rintro (usable | lower)
      · rw [usableFrames_congr sameMap] at usable
        exact notUsable usable
      · obtain ⟨path, _, reached⟩ := mem_lowerTables.mp lower
        exact noTable path reached
    · exact noTable [] (congrArg some isTable.symm)
  obtain ⟨booted, prints, running, _⟩ := initialized.owned.printing rfl reserved
    (by rw [Machine.logSheet, emptyLog]; exact onScreen)
    initialized.outsidePool
    (by rw [emptyLog]; exact List.nil_prefix)
  refine ⟨_, booted, ?_, sameCr3 ▸ running⟩
  have memory : ConsoleM.memInit hdr cleared = .ok ⟨⟩ booted := by
    rw [ConsoleM.memInit, bind_of_ok (get_apply _), init]
    exact prints
  rw [ConsoleM.start, ConsoleM.initInit, bind_of_ok (modify_apply _ _), bind_of_ok clears, memory]

/-- The screen after boot, in every state of every run of the page table editors, of
programs that write to their pages, and of printing: the text mode buffer shows the last 25
rows of everything the kernel has printed, in its order, and the cursor is behind it.  No
such step fails, and none gets at the video memory but by printing. -/
theorem screen_shows_log {hdr : Stivale2Struct} {tag : Nat} {console : Console}
    (handover : Handover hdr tag console.machine) (empty : console.machine.terminal = [])
    (video : VideoMapped console.machine (hdr.hhdm + vgaBuffer))
    (notUsable : vgaBuffer ∉ usableFrames console.machine.memory tag
      (mmapEntries console.machine.memory tag))
    (notMap : vgaBuffer + 4000 ≤ tag ∨
      tag + 24 + 24 * mmapEntries console.machine.memory tag ≤ vgaBuffer) :
    ∃ booted, ConsoleM.start hdr console = .ok ⟨⟩ booted ∧
      ∀ later, ConsoleRun console.machine.cr3 booted later ->
        (let sheet := later.machine.terminal.foldl Sheet.putchar .empty
        (∀ row < 25, ∀ col < 80,
          VgaEntry.decode (later.machine.memory (vgaBuffer + 2 * (row * 80 + col)))
            (later.machine.memory (vgaBuffer + (2 * (row * 80 + col) + 1))) =
              sheet.cell (sheet.top + row) col) ∧
        (later.board.crt 0x0F).toNat + 2 ^ 8 * (later.board.crt 0x0E).toNat =
          (sheet.row - sheet.top) * 80 + sheet.col) ∧
        (∀ machine, Step console.machine.cr3 later.machine machine ->
          ∃ after, ConsoleM.printing (fun _ => machine) later = .ok ⟨⟩ after ∧
            after.machine = { machine with memory := after.machine.memory } ∧
            ∀ position, position < vgaBuffer ∨ vgaBuffer + 4000 ≤ position ->
              after.machine.memory position = machine.memory position) ∧
        ∀ c, ∃ after, ConsoleM.kprintC c later = .ok ⟨⟩ after := by
  obtain ⟨pool, booted, starts, running⟩ := start_running handover empty video notUsable notMap
  refine ⟨booted, starts, fun later run => ?_⟩
  have isRunning := running.run run
  have screen := isRunning.screen
  refine ⟨⟨screen.shows.grid, screen.location⟩, fun machine step => ?_, fun c => ?_⟩
  · obtain ⟨after, prints, _, drawn⟩ := isRunning.ofStep step
    exact ⟨after, prints, drawn.machine, drawn.memory⟩
  · obtain ⟨after, prints, _⟩ := isRunning.kprintC c
    exact ⟨after, prints⟩

theorem handover_bootConsole (image : List UInt8) :
    Handover (bootHdr []) bootTag (bootConsole (bootContent image)).machine :=
  @Handover.congr (bootHdr []) bootTag (bootMachine (bootContent image)) _ (fun _ _ _ => rfl)
    (handover_bootMachine image []) rfl rfl fun _ => rfl

/-- The boot machine maps a page of a program. -/
theorem screen_shows_log_bootConsole :
    ∃ booted, ConsoleM.start (bootHdr []) (bootConsole (bootContent [])) = .ok ⟨⟩ booted ∧
      ∃ after, ConsoleM.printing (fun _ => (booted.machine.vmMap bootRoot 0x400000 true true
        false).2) booted = .ok ⟨⟩ after := by
  have entries : mmapEntries (bootConsole (bootContent [])).machine.memory bootTag = 1 :=
    mmapEntries_boot []
  have notUsable : vgaBuffer ∉ usableFrames (bootConsole (bootContent [])).machine.memory bootTag
      (mmapEntries (bootConsole (bootContent [])).machine.memory bootTag) := by
    have frames : usableFrames (bootConsole (bootContent [])).machine.memory bootTag 1 =
        rangeFrames 0x100000 256 := usableFrames_boot []
    rw [entries, frames]
    intro member
    obtain ⟨page, _, isPage⟩ := mem_rangeFrames.mp member
    unfold vgaBuffer at isPage
    omega
  obtain ⟨booted, starts, runs⟩ := @screen_shows_log (bootHdr []) bootTag
    (bootConsole (bootContent [])) (handover_bootConsole []) rfl
    ((videoMapped_bootMachine _).withMachine rfl rfl rfl) notUsable
    (Or.inr (by rw [entries]; decide))
  obtain ⟨_, steps, _⟩ := runs booted .refl
  obtain ⟨after, prints, _⟩ := steps _ (.vmMap booted.machine 0x400000 true true false (by decide))
  exact ⟨booted, starts, after, prints⟩

end StarterKernel
