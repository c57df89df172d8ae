import StarterKernel.SystemCalls.Buffers
import StarterKernel.Exec.Untouched
import StarterKernel.Exec.BootImage

/-!
# System calls and the memory of the kernel

A system call reaches the bytes its caller names, also those of the kernel.  If the
caller names bytes of user pages only, `kwrite` prints the same whatever the memory of
the kernel holds, and `kread` changes nothing else.
-/

namespace StarterKernel

open Kernel StateError
open RadixTree (Slot Walk)
open PagedSpace (Cell Space)

/-- The pages that a program may use, their permissions and their bytes. -/
def Machine.userSpace (machine : Machine) : Space Access := fun address =>
  if Canonical address then
    ((translation machine.memory machine.root address).filter Translation.user).map
      fun mapped =>
        { access := mapped.access, byte := machine.memory mapped.physical }
  else none

/-- Every byte of the buffer lies in a page that a program may use. -/
def UserBuffer (space : Space Access) (buf length : Nat) : Prop :=
  ∀ i < length, space ((buf + i) % wordSize) ≠ none

/-- The bytes of a buffer. -/
def bufferBytes (space : Space Access) (buf length : Nat) : List UInt8 :=
  (List.range length).filterMap fun i => (space ((buf + i) % wordSize)).map Cell.byte

variable {root address buf len i : Nat} {pool : Set Nat} {free : List Nat}
variable {machine middle after : Machine} {cell : Cell Access}
variable {accesses : List (AccessKind × Nat)}

/-! ## What `kwrite` prints -/

/-- A byte of a user page. -/
theorem userSpace_some (found : machine.userSpace address = some cell) :
    ∃ mapped, machine.Reaches .load address mapped ∧ mapped.user = true ∧
      cell.byte = machine.memory mapped.physical := by
  unfold Machine.userSpace at found
  split at found
  next canonical =>
    obtain ⟨mapped, kept, rfl⟩ := Option.map_eq_some_iff.mp found
    obtain ⟨translates, user⟩ := Option.filter_eq_some_iff.mp kept
    exact ⟨mapped, ⟨canonical, translates, nofun⟩, user, rfl⟩
  next => cases found

/-- The machine after bytes of a buffer were printed. -/
def Machine.written (machine : Machine) (buf count : Nat) : Machine :=
  { machine with
    terminal := machine.terminal ++ bufferBytes machine.userSpace buf count
    callerAccesses := machine.callerAccesses ++ bufferAccesses .load buf count }

/-- `kwrite` prints the bytes of a buffer in user pages. -/
theorem kwrite_user (user : UserBuffer machine.userSpace buf len)
    (word : buf < wordSize) (length : len < wordSize) :
    kwrite buf len machine = .ok (toInt32 len) (machine.written buf len) := by
  let byte (i : Nat) : UInt8 :=
    ((machine.userSpace ((buf + i) % wordSize)).map Cell.byte).getD 0
  have holds : machine.HoldsBytes buf len byte := by
    intro i inside
    obtain ⟨cell, found⟩ := Option.ne_none_iff_exists'.mp (user i inside)
    obtain ⟨mapped, reaches, -, isByte⟩ := userSpace_some found
    refine ⟨mapped, reaches, ?_⟩
    simp only [byte, found, ← isByte, Option.map_some, Option.getD_some]
  have sameBytes : (List.range len).map byte = bufferBytes machine.userSpace buf len := by
    rw [bufferBytes, ← List.filterMap_eq_map]
    apply List.filterMap_congr
    intro i inside
    obtain ⟨cell, found⟩ := Option.ne_none_iff_exists'.mp (user i (List.mem_range.mp inside))
    simp [byte, found]
  rw [kwrite_ok holds word length, Machine.printedBuffer, Machine.written, sameBytes]

/-! ## What `kread` changes -/

/-- The bytes that accesses of the lower half changed, with nothing else. -/
structure CallerFrame (machine after : Machine) (accesses : List (AccessKind × Nat)) :
    Prop where
  sameBase : after.hhdmBase = machine.hhdmBase
  sameHead : after.freelist = machine.freelist
  sameCr3 : after.cr3 = machine.cr3
  sameWriteProtect : after.writeProtect = machine.writeProtect
  changed : ∀ position, after.memory position ≠ machine.memory position ->
    ∃ address mapped, (.store, address) ∈ accesses ∧
      machine.Reaches .store address mapped ∧ position = mapped.physical

namespace CallerFrame

/-- The changed bytes lie in pages of the lower half. -/
theorem inPages (frame : CallerFrame machine after accesses)
    (owned : Owned root pool machine free) (isRoot : machine.root = root)
    (lower : ∀ kind address, (kind, address) ∈ accesses -> LowerHalf address)
    (position : Nat) (changed : after.memory position ≠ machine.memory position) :
    ∃ path, LowerPath path ∧ PageAt machine.memory root path (frameOf position) := by
  obtain ⟨address, mapped, member, ⟨_, translates, _⟩, rfl⟩ :=
    frame.changed position changed
  have lowerAddress := lower _ address member
  rw [isRoot] at translates
  obtain ⟨entry, links, _, rfl, isPage⟩ :=
    owned.leaf_of_translation lowerAddress translates
  refine ⟨pagePath address, (lowerPath_walkPath address 3).mpr lowerAddress, ?_⟩
  rw [Owned.frameOf_physical]
  exact isPage

/-- The same addresses are reached after the change. -/
theorem reaches {kind : AccessKind} {mapped : Translation}
    (frame : CallerFrame machine after accesses)
    (owned : Owned root pool machine free) (isRoot : machine.root = root)
    (lower : ∀ kind address, (kind, address) ∈ accesses -> LowerHalf address)
    (reaches : after.Reaches kind address mapped) :
    machine.Reaches kind address mapped := by
  obtain ⟨canonical, translates, writable⟩ := reaches
  refine ⟨canonical, ?_, ?_⟩
  · have sameWalk := owned.treeWalk_store (frame.inPages owned isRoot lower)
      (pagePath address)
    have sameRoot : after.root = root := by
      rw [← isRoot, Machine.root, Machine.root, frame.sameCr3]
    rwa [sameRoot, translation_eq, sameWalk, ← translation_eq, ← isRoot] at translates
  · rwa [frame.sameWriteProtect] at writable

end CallerFrame

/-- A run whose accesses lie in the lower half changes the bytes it stores. -/
theorem CallerRun.frame (owned : Owned root pool machine free)
    (isRoot : machine.root = root) (run : CallerRun machine accesses after)
    (lower : ∀ kind address, (kind, address) ∈ accesses -> LowerHalf address) :
    CallerFrame machine after accesses := by
  induction run with
  | start => exact ⟨rfl, rfl, rfl, rfl, fun _ changed => absurd rfl changed⟩
  | keyboard _ ring terminal inductionHypothesis =>
      have frame := inductionHypothesis lower
      exact ⟨frame.sameBase, frame.sameHead, frame.sameCr3, frame.sameWriteProtect,
        frame.changed⟩
  | load _ _ inductionHypothesis =>
      have frame := inductionHypothesis fun kind address member =>
        lower kind address (List.mem_append_left _ member)
      refine ⟨frame.sameBase, frame.sameHead, frame.sameCr3, frame.sameWriteProtect, ?_⟩
      intro position changed
      obtain ⟨address, mapped, member, reaches⟩ := frame.changed position changed
      exact ⟨address, mapped, List.mem_append_left _ member, reaches⟩
  | @store accesses middle address mapped _ reaches value inductionHypothesis =>
      have earlier : ∀ kind address, (kind, address) ∈ accesses -> LowerHalf address :=
        fun kind address member => lower kind address (List.mem_append_left _ member)
      have frame := inductionHypothesis earlier
      refine ⟨frame.sameBase, frame.sameHead, frame.sameCr3, frame.sameWriteProtect, ?_⟩
      intro position changed
      by_cases stored : position = mapped.physical
      · refine ⟨address, mapped, List.mem_append_right _ (List.mem_singleton_self _), ?_,
          stored⟩
        exact frame.reaches owned isRoot earlier reaches
      · have before : middle.memory position ≠ machine.memory position := by
          intro same
          exact changed ((Function.update_of_ne stored _ _).trans same)
        obtain ⟨address, mapped, member, reaches⟩ := frame.changed position before
        exact ⟨address, mapped, List.mem_append_left _ member, reaches⟩

/-- However a call ends, it changed what its accesses stored. -/
theorem BufferCall.frame {α : Type} {kind : AccessKind} {length : Nat}
    {result : EStateM.Result Trap Machine α}
    (call : BufferCall kind buf length machine result)
    (owned : Owned root pool machine free) (isRoot : machine.root = root)
    (lower : ∀ i < length, LowerHalf ((buf + i) % wordSize)) :
    CallerFrame machine (finalState result) (bufferAccesses kind buf length) := by
  have within {count : Nat} (bound : count ≤ length) {kind other : AccessKind}
      {address : Nat} (member : (other, address) ∈ bufferAccesses kind buf count) :
      (other, address) ∈ bufferAccesses kind buf length ∧ LowerHalf address := by
    obtain ⟨i, small, same⟩ := List.mem_map.mp member
    obtain ⟨rfl, rfl⟩ := Prod.mk.inj same
    have inside : i < length := by
      have := List.mem_range.mp small
      omega
    exact ⟨List.mem_map.mpr ⟨i, List.mem_range.mpr inside, rfl⟩, lower i inside⟩
  have widen {count : Nat} {after : Machine} (bound : count ≤ length)
      (run : CallerRun machine (bufferAccesses kind buf count) after) :
      CallerFrame machine after (bufferAccesses kind buf length) := by
    have frame := run.frame owned isRoot fun _ _ member => (within bound member).2
    refine ⟨frame.sameBase, frame.sameHead, frame.sameCr3, frame.sameWriteProtect, ?_⟩
    intro position changed
    obtain ⟨address, mapped, member, reaches⟩ := frame.changed position changed
    exact ⟨address, mapped, (within bound member).1, reaches⟩
  cases call with
  | returned _ run => exact widen (le_refl length) run
  | stopped _ inside run => exact widen inside run
  | refused _ inside run _ =>
      have frame := widen inside.le run
      exact ⟨frame.sameBase, frame.sameHead, frame.sameCr3, frame.sameWriteProtect,
        frame.changed⟩

/-! ## What system calls touch -/

/-- System calls check no pointer.  From every state, `SYS_READ` writes and `SYS_WRITE`
reads the bytes of the buffer one after the other, through the page tables of the
moment and without regard to who may use a page; other calls use no buffer.  What
`SYS_WRITE` prints from a buffer in user pages depends on the user pages alone.  In
every state of every run, `SYS_READ` into a buffer in user pages of the lower half
changes writable bytes of these pages and neither the page tables nor the freelist.  The
buffer is apart from the variables of the kernel, which are not in the memory of the
machine. -/
theorem syscalls_touch_named_bytes
    (hdr : Stivale2Struct) (arrivals : Nat -> List UInt8) (arg0 : Nat) {arg1 arg2 : Nat}
    (buffer : arg1 < wordSize) (length : arg2 < wordSize) :
    let call (nr : Nat) :=
      syscallHandler hdr (fun i => keyInterrupts (arrivals i)) nr arg0 arg1 arg2
    (∀ machine,
      BufferCall .store arg1 arg2 machine (call sysRead machine) ∧
      BufferCall .load arg1 arg2 machine (call sysWrite machine) ∧
      ∀ nr, nr ≠ sysRead -> nr ≠ sysWrite ->
        (finalState (call nr machine)).callerAccesses = machine.callerAccesses) ∧
    (∀ left right : Machine, left.userSpace = right.userSpace ->
      UserBuffer left.userSpace arg1 arg2 ->
      ∃ printed leftAfter rightAfter,
        call sysWrite left = .ok (.returned (toInt32 arg2)) leftAfter ∧
        call sysWrite right = .ok (.returned (toInt32 arg2)) rightAfter ∧
        leftAfter.terminal = left.terminal ++ printed ∧
        rightAfter.terminal = right.terminal ++ printed) ∧
    ∀ tag machine start later, Handover hdr tag machine ->
      machine.memInit hdr = some start -> Run machine.cr3 start later ->
      (∀ i < arg2, LowerHalf ((arg1 + i) % wordSize) ∧
        ∀ mapped, translation later.memory machine.cr3 ((arg1 + i) % wordSize) =
          some mapped -> mapped.user = true) ->
      let after := finalState (call sysRead later)
      after.freelist = later.freelist ∧
      (∀ path, treeWalk after.memory machine.cr3 path =
        treeWalk later.memory machine.cr3 path) ∧
      (∃ free, Owned machine.cr3 (bootPool tag machine) later free ∧
        Owned machine.cr3 (bootPool tag machine) after free) ∧
      ∀ position, after.memory position ≠ later.memory position ->
        ∃ i < arg2, ∃ mapped,
          translation later.memory machine.cr3 ((arg1 + i) % wordSize) = some mapped ∧
          mapped.user = true ∧ (mapped.writable || !later.writeProtect) = true ∧
          position = mapped.physical := by
  intro call
  have reads (machine : Machine) :
      BufferCall .store arg1 arg2 machine (call sysRead machine) :=
    BufferCall.bind_pure SyscallOutcome.returned
      (kread_bufferCall arrivals arg1 arg2 machine)
  refine ⟨fun machine => ⟨reads machine, ?_, ?_⟩, ?_, ?_⟩
  · exact BufferCall.bind_pure SyscallOutcome.returned
      (kwrite_bufferCall buffer length machine)
  · intro nr notRead notWrite
    have untouched : KeepsPart Machine.callerAccesses (call nr) := by
      have rejected (rc : Int) : KeepsPart Machine.callerAccesses
          (pure (.returned rc) : Kernel SyscallOutcome) :=
        KeepsPart.of_keeps (Keeps.pure _)
      dsimp only [call]
      unfold syscallHandler
      rw [if_neg notRead, if_neg notWrite]
      apply KeepsPart.ite _ (rejected _)
      apply (keepsPart_execSetup (fun _ _ _ _ _ => rfl) hdr arg0).bind
      intro outcome
      cases outcome with
      | notFound => exact rejected _
      | entered entry => exact KeepsPart.of_keeps (Keeps.pure _)
    exact untouched machine
  · intro left right same user
    have otherUser : UserBuffer right.userSpace arg1 arg2 := same ▸ user
    refine ⟨bufferBytes left.userSpace arg1 arg2, left.written arg1 arg2,
      right.written arg1 arg2, ?_, ?_, rfl, ?_⟩
    · exact bind_of_ok (kwrite_user user buffer length)
    · exact bind_of_ok (kwrite_user otherUser buffer length)
    · rw [same]
      rfl
  · intro tag machine start later handover init run user after
    obtain ⟨start', free, init', initialized⟩ := handover.memInit_initialized
    obtain rfl : start' = start := Option.some.inj (init'.symm.trans init)
    obtain ⟨free, owned⟩ := initialized.owned.run run
    have sameCr3 : later.cr3 = machine.cr3 :=
      (Machine.OutsideEditors.run (fun _ _ _ _ _ => rfl) run).trans
        initialized.sameCr3
    have isRoot : later.root = machine.cr3 := by
      rw [IsFrame.root_eq (sameCr3 ▸ handover.rootFrame), sameCr3]
    have lower : ∀ i < arg2, LowerHalf ((arg1 + i) % wordSize) :=
      fun i inside => (user i inside).1
    have frame := (reads later).frame owned isRoot lower
    have inPages := frame.inPages owned isRoot fun kind address member => by
      obtain ⟨i, small, same⟩ := List.mem_map.mp member
      obtain ⟨rfl, rfl⟩ := Prod.mk.inj same
      exact lower i (List.mem_range.mp small)
    refine ⟨frame.sameHead, owned.treeWalk_store inPages,
      ⟨free, owned, owned.store frame.sameBase frame.sameHead inPages⟩, ?_⟩
    intro position changed
    obtain ⟨address, mapped, member, ⟨_, translates, writable⟩, isPosition⟩ :=
      frame.changed position changed
    obtain ⟨i, small, same⟩ := List.mem_map.mp member
    obtain ⟨_, rfl⟩ := Prod.mk.inj same
    rw [isRoot] at translates
    have inside := List.mem_range.mp small
    exact ⟨i, inside, mapped, translates, (user i inside).2 mapped translates,
      writable rfl, isPosition⟩

/-- After boot, a read into and a write from a page of a program. -/
theorem syscalls_touch_named_bytes_bootMachine :
    ∃ start, (bootMachine (bootContent [])).memInit (bootHdr []) = some start ∧
      let later := (start.vmMap bootRoot 0x400000 true true false).2
      let call (nr : Nat) :=
        syscallHandler (bootHdr []) (fun _ => keyInterrupts [0x1e]) nr 0 0x400000 2
      (∃ free, Owned bootRoot (bootPool bootTag (bootMachine (bootContent [])))
        (finalState (call sysRead later)) free) ∧
      ∃ after, call sysWrite later = .ok (.returned 2) after := by
  obtain ⟨start, after, free, taken, init, maps, owned, isCr3, mapped⟩ :=
    boot_vmMap [] [] (show LowerHalf 0x400000 by decide)
  obtain ⟨-, isolated, framed⟩ := syscalls_touch_named_bytes (bootHdr [])
    (fun _ => [0x1e]) 0 (show 0x400000 < wordSize by decide)
    (show 2 < wordSize by decide)
  have isAfter : (start.vmMap bootRoot 0x400000 true true false).2 = after := by
    rw [maps]
  have step : Step bootRoot start (start.vmMap bootRoot 0x400000 true true false).2 :=
    .vmMap start 0x400000 true true false (by decide)
  have isRoot : after.root = bootRoot := by
    rw [IsFrame.root_eq (isCr3 ▸ owned.rootFrame), isCr3]
  have inPage : ∀ i < 2, LowerHalf ((0x400000 + i) % wordSize) ∧
      Canonical ((0x400000 + i) % wordSize) ∧
      pagePath ((0x400000 + i) % wordSize) = pagePath 0x400000 := by
    intro i small
    obtain rfl | rfl : i = 0 ∨ i = 1 := by omega
    · decide
    · decide
  have translates : ∀ i < 2, ∃ found,
      translation after.memory bootRoot ((0x400000 + i) % wordSize) = some found ∧
        found.user = true := by
    intro i small
    obtain ⟨lower, -, samePage⟩ := inPage i small
    obtain ⟨entry, links, leaf, -, -, -, user, -⟩ := mapped.page
    rw [← samePage] at leaf
    obtain ⟨_, _, same, _, _, translates, _⟩ := owned.leaf_of_page lower leaf
    obtain ⟨rfl, rfl⟩ := List.cons.inj same
    exact ⟨_, translates, user⟩
  refine ⟨start, init, ?_, ?_⟩
  · obtain ⟨-, -, ⟨free, -, kept⟩, -⟩ := framed bootTag _ start _
      (handover_bootMachine [] []) init (Relation.ReflTransGen.single step) (by
        intro i small
        refine ⟨(inPage i small).1, fun found same => ?_⟩
        obtain ⟨other, translates, user⟩ := translates i small
        rw [isAfter] at same
        obtain rfl : other = found := Option.some.inj (translates.symm.trans same)
        exact user)
    exact ⟨free, kept⟩
  · have user : UserBuffer after.userSpace 0x400000 2 := by
      intro i small
      obtain ⟨found, translates, user⟩ := translates i small
      rw [Machine.userSpace, if_pos (inPage i small).2.1, isRoot, translates,
        Option.filter_some, if_pos user]
      exact Option.some_ne_none _
    obtain ⟨_, later, _, returns, -⟩ := isolated after after rfl user
    rw [isAfter]
    exact ⟨later, returns⟩

/-! ## The bytes of the kernel -/

/-- The tables of the bootloader grant a program nothing. -/
theorem bootMemory_kernel {content : Nat -> UInt8} {mapped : Translation}
    (translates : translation (bootMemory content) bootRoot address = some mapped) :
    mapped.user = false := by
  have topEntry : ∀ index < 512,
      (entryAt (bootMemory content) bootRoot index).user = false := by
    intro index inTable
    rw [bootMemory, entryAt_writeEntry isFrame_bootLowerTable (by decide)
      isFrame_bootRoot, if_neg fun both => absurd both.1 (by decide),
      entryAt_installFrame isFrame_bootRoot (by decide) isFrame_bootLowerTable
        isFrame_bootRoot (by decide)]
    split
    · decide
    · rw [entryAt_bootDirect_root]
      split
      · decide
      · decide
  have top := topEntry (indices address 4) (indices_lt address 3)
  rw [entryAt_indices] at top
  rw [translation, hardwareWalk] at translates
  dsimp only at translates
  split at translates
  · cases translates
  · rw [if_neg (by simp)] at translates
    obtain ⟨below, _, rfl⟩ := Option.map_eq_some_iff.mp translates
    change (_ && below.user) = false
    rw [top, Bool.false_and]

theorem bootMachine_root (content : Nat -> UInt8) :
    (bootMachine content).root = bootRoot := by
  have isFrame : IsFrame (bootMachine content).cr3 := isFrame_bootRoot
  rw [IsFrame.root_eq isFrame]
  rfl

theorem userSpace_bootMachine (content : Nat -> UInt8) :
    (bootMachine content).userSpace = fun _ => none := by
  funext address
  unfold Machine.userSpace
  split
  · rw [Option.map_eq_none_iff, Option.filter_eq_none_iff]
    intro mapped translates
    rw [bootMachine_root] at translates
    simp [bootMemory_kernel translates]
  · rfl

/-- At boot `SYS_READ` overwrites an entry of the level 4 table, and `SYS_WRITE` prints
a byte that no program may read. -/
theorem syscalls_reach_kernel_memory :
    let call (nr buf : Nat) :=
      syscallHandler (bootHdr []) (fun _ => keyInterrupts [0x1e]) nr 0 buf 1
    let machine := bootMachine fun _ => 0
    let secret := bootMachine fun _ => 65
    (∃ mapped,
      translation machine.memory machine.root (bootHhdmBase + bootRoot) = some mapped ∧
      mapped.physical = bootRoot ∧ mapped.user = false) ∧
    (∃ after, call sysRead (bootHhdmBase + bootRoot) machine =
        .ok (.returned 1) after ∧
      after.callerAccesses = [(.store, bootHhdmBase + bootRoot)] ∧
      after.memory bootRoot ≠ machine.memory bootRoot) ∧
    machine.userSpace = secret.userSpace ∧ machine.terminal = secret.terminal ∧
    ∃ after secretAfter,
      call sysWrite (bootHhdmBase + 0x10000) machine = .ok (.returned 1) after ∧
      call sysWrite (bootHhdmBase + 0x10000) secret = .ok (.returned 1) secretAfter ∧
      after.terminal ≠ secretAfter.terminal := by
  intro call machine secret
  have overwrites : (match call sysRead (bootHhdmBase + bootRoot) machine with
      | .ok outcome after =>
          decide (outcome = .returned 1 ∧
            after.callerAccesses = [(.store, bootHhdmBase + bootRoot)] ∧
            after.memory bootRoot ≠ machine.memory bootRoot)
      | .error _ _ => false) = true := by
    decide +kernel
  have prints : (match call sysWrite (bootHhdmBase + 0x10000) machine,
      call sysWrite (bootHhdmBase + 0x10000) secret with
      | .ok outcome after, .ok secretOutcome secretAfter =>
          decide (outcome = .returned 1 ∧ secretOutcome = .returned 1 ∧
            after.terminal ≠ secretAfter.terminal)
      | _, _ => false) = true := by
    decide +kernel
  have translates : translation machine.memory machine.root (bootHhdmBase + bootRoot) =
      some { physical := bootRoot, user := false, writable := true, noExecute := false } := by
    rw [bootMachine_root]
    exact translation_bootMemory _ (by decide)
  refine ⟨⟨_, translates, rfl, rfl⟩, ?_, ?_, rfl, ?_⟩
  · split at overwrites
    next outcome after run =>
      obtain ⟨rfl, recorded, changed⟩ := of_decide_eq_true overwrites
      exact ⟨after, run, recorded, changed⟩
    next => cases overwrites
  · exact (userSpace_bootMachine _).trans (userSpace_bootMachine _).symm
  · split at prints
    next outcome after secretOutcome secretAfter run secretRun =>
      obtain ⟨rfl, rfl, different⟩ := of_decide_eq_true prints
      exact ⟨after, secretAfter, run, secretRun, different⟩
    next => cases prints

end StarterKernel
