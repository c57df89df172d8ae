import StarterKernel.Programs.Init
import StarterKernel.SystemCalls.Counts

/-!
# The first command

The terminator of a command goes to `modname[5]`, behind the array.  The element
`modname[4]` keeps what the stack held: the shell runs a command exactly if that was the
terminator.
-/

namespace StarterKernel

open Kernel StateError Init

variable {root modname i round : Nat} {pool : Set Nat} {free : List Nat}
variable {machine middle after taken : Machine} {process : Process}
variable {bytes : Nat -> UInt8} {block command input : List UInt8}
variable {hdr : Stivale2Struct} {interrupts : Nat -> Kernel Unit}

/-! ## The stack of the program -/

/-- The array `modname` and the byte behind it, in a page that the program may write. -/
structure StackHolds (root : Nat) (pool : Set Nat) (free : List Nat) (modname : Nat)
    (machine : Machine) (bytes : Nat -> UInt8) : Prop where
  owned : Owned root pool machine free
  isRoot : machine.root = root
  stored : ∀ i < 6, ∃ cell, lowerSpace machine.memory root (modname + i) = some cell ∧
    cell.access.writable = true ∧ cell.byte = bytes i

namespace StackHolds

/-- Other bytes are the same in the six places only. -/
theorem congr {other : Nat -> UInt8} (holds : StackHolds root pool free modname machine bytes)
    (same : ∀ i < 6, bytes i = other i) :
    StackHolds root pool free modname machine other where
  owned := holds.owned
  isRoot := holds.isRoot
  stored := fun i inside => by
    obtain ⟨cell, visible, writable, isByte⟩ := holds.stored i inside
    exact ⟨cell, visible, writable, isByte.trans (same i inside)⟩

/-- The keyboard and the terminal make no difference. -/
theorem anyKeyboard (holds : StackHolds root pool free modname machine bytes)
    (ring : Ring) (terminal : List UInt8) (accesses : List (AccessKind × Nat)) :
    StackHolds root pool free modname
      { machine with ring := ring, terminal := terminal, callerAccesses := accesses }
      bytes where
  owned := holds.owned.congr rfl rfl (fun _ _ _ => AgreeOn.refl _ _) fun _ _ => AgreeOn.refl _ _
  isRoot := holds.isRoot
  stored := holds.stored

theorem translates (holds : StackHolds root pool free modname machine bytes)
    (inside : i < 6) :
    modname + i < 2 ^ 47 ∧ (modname + i) % wordSize = modname + i ∧
      ∃ mapped, translation machine.memory machine.root (modname + i) = some mapped ∧
        mapped.writable = true ∧ machine.memory mapped.physical = bytes i := by
  obtain ⟨cell, visible, writable, isByte⟩ := holds.stored i inside
  have lower : modname + i < 2 ^ 47 := by
    by_contra outside
    rw [lowerSpace_of_le (by omega)] at visible
    cases visible
  rw [lowerSpace_eq lower] at visible
  obtain ⟨mapped, translates, rfl⟩ := Option.map_eq_some_iff.mp visible
  exact ⟨lower, Nat.mod_eq_of_lt (by unfold wordSize; omega), mapped,
    holds.isRoot.symm ▸ translates, writable, isByte⟩

/-- The program reads the bytes. -/
theorem load (holds : StackHolds root pool free modname machine bytes) (inside : i < 6) :
    pointerString modname i machine = .ok (bytes i) machine := by
  obtain ⟨lower, address, mapped, translates, _, isByte⟩ := holds.translates inside
  rw [pointerString, address]
  exact loadByte_ok_iff.mpr ⟨Or.inl lower, ⟨mapped, translates, isByte.symm⟩, rfl⟩

/-- A store changes one of the bytes. -/
theorem store (holds : StackHolds root pool free modname machine bytes) (inside : i < 6)
    (value : UInt8) :
    ∃ after, storeByte ((modname + i) % wordSize) value machine = .ok () after ∧
      StackHolds root pool free modname after (Function.update bytes i value) ∧
      after.ring = machine.ring := by
  obtain ⟨lower, address, mapped, translates, writable, isByte⟩ := holds.translates inside
  rw [holds.isRoot] at translates
  obtain ⟨extend, -, space⟩ := holds.owned.store_extends value lower translates
  rw [address]
  refine ⟨_, storeByte_of_writable value (Or.inl lower)
    (holds.isRoot.symm ▸ translates) writable, ⟨extend.kept, holds.isRoot, ?_⟩, rfl⟩
  intro j small
  obtain ⟨cell, visible, cellWritable, cellByte⟩ := holds.stored j small
  by_cases same : j = i
  · refine ⟨{ cell with byte := value }, ?_, cellWritable, ?_⟩
    · rw [space, PagedSpace.write_inside (by omega) (by omega), visible]
      rfl
    · rw [same, Function.update_self]
  · refine ⟨cell, ?_, cellWritable, ?_⟩
    · rw [space, PagedSpace.write_outside (by omega), visible]
    · rw [Function.update_of_ne same, cellByte]

/-- A system call stores a character. -/
theorem callerStore (holds : StackHolds root pool free modname machine bytes) (inside : i < 6)
    (value : UInt8) :
    ∃ after, Kernel.callerStore ((modname + i) % wordSize) value machine = .ok () after ∧
      StackHolds root pool free modname after (Function.update bytes i value) ∧
      after.ring = machine.ring := by
  have recorded := holds.anyKeyboard machine.ring machine.terminal
    (machine.callerAccesses ++ [(.store, (modname + i) % wordSize)])
  obtain ⟨after, run, kept, sameRing⟩ := recorded.store inside value
  exact ⟨after, (bind_of_ok (modify_apply _ machine)).trans run, kept, sameRing⟩

/-- And several characters one after the other. -/
theorem callerStores (holds : StackHolds root pool free modname machine bytes)
    (inside : i + input.length ≤ 6) :
    ∃ after, StarterKernel.callerStores modname i input machine = .ok () after ∧
      StackHolds root pool free modname after
        (fun j => if i ≤ j ∧ j < i + input.length then input.getD (j - i) 0 else bytes j) := by
  induction input generalizing i machine bytes with
  | nil => exact ⟨machine, rfl, holds.congr fun j _ => by rw [if_neg (by simp)]⟩
  | cons byte input inductionHypothesis =>
      rw [List.length_cons] at inside
      have first : i < 6 := by omega
      have rest : i + 1 + input.length ≤ 6 := by omega
      obtain ⟨middle, store, kept, -⟩ := holds.callerStore first byte
      obtain ⟨after, stores, last⟩ := inductionHypothesis kept rest
      refine ⟨after, (bind_of_ok store).trans stores, last.congr fun j _ => ?_⟩
      rw [List.length_cons]
      by_cases first : j = i
      · rw [if_neg (by omega), if_pos (by omega), first, Function.update_self, Nat.sub_self,
          List.getD_cons_zero]
      · rw [Function.update_of_ne first]
        by_cases later : i + 1 ≤ j ∧ j < i + 1 + input.length
        · rw [if_pos later, if_pos (by omega), show j - i = j - (i + 1) + 1 by omega,
            List.getD_cons_succ]
        · rw [if_neg later, if_neg (by omega)]

end StackHolds

/-! ## The name on the stack -/

/-- The bytes after a command was read and `modname[5]` set. -/
def commandBytes (bytes : Nat -> UInt8) (block : List UInt8) : Nat -> UInt8 :=
  Function.update (fun i => if i < 4 then block.getD i 0 else bytes i) 5 0

/-- The characters before the first terminator. -/
def nameAt (bytes : Nat -> UInt8) : List UInt8 :=
  ((List.range 6).map bytes).takeWhile (· ≠ 0)

/-- A list with a terminator holds the characters before it and then the terminator. -/
theorem takeWhile_reads {cells : List UInt8} (terminated : 0 ∈ cells) :
    (cells.takeWhile (· ≠ 0)).length < cells.length ∧
      ∀ i ≤ (cells.takeWhile (· ≠ 0)).length,
        cells.getD i 0 = (cells.takeWhile (· ≠ 0)).getD i 0 := by
  induction cells with
  | nil => cases terminated
  | cons cell cells inductionHypothesis =>
      by_cases isNul : cell = 0
      · simp [isNul]
      · rw [List.takeWhile_cons_of_pos (by simpa using isNul)]
        obtain ⟨short, same⟩ := inductionHypothesis
          ((List.mem_cons.mp terminated).resolve_left (Ne.symm isNul))
        refine ⟨Nat.succ_lt_succ short, fun i inside => ?_⟩
        cases i with
        | zero => rfl
        | succ i => exact same i (Nat.le_of_succ_le_succ inside)

theorem noNul_nameAt : 0 ∉ nameAt bytes := fun isNul => by
  have passes := List.all_takeWhile (p := (· ≠ 0)) (l := (List.range 6).map bytes)
  simpa using List.all_eq_true.mp passes 0 isNul

/-- The six bytes hold the name and its terminator. -/
theorem nameAt_reads (terminated : bytes 5 = 0) :
    (nameAt bytes).length < 6 ∧ ∀ i ≤ (nameAt bytes).length,
      bytes i = (nameAt bytes).getD i 0 := by
  have member : 0 ∈ (List.range 6).map bytes :=
    List.mem_map.mpr ⟨5, by decide, terminated⟩
  obtain ⟨short, same⟩ := takeWhile_reads member
  rw [List.length_map, List.length_range] at short
  refine ⟨short, fun i inside => ?_⟩
  rw [nameAt, ← same i inside, List.getD_eq_getElem _ _ (by
    rw [List.length_map, List.length_range]
    exact lt_of_le_of_lt inside short), List.getElem_map, List.getElem_range]

theorem StackHolds.readsName (holds : StackHolds root pool free modname machine bytes)
    (terminated : bytes 5 = 0) :
    ReadsString (pointerString modname) machine (nameAt bytes) := by
  obtain ⟨short, same⟩ := nameAt_reads terminated
  intro i inside
  rw [holds.load (by omega), same i inside]

/-- A command is compared as a whole. -/
theorem StackHolds.strcmp (holds : StackHolds root pool free modname machine bytes)
    (terminated : bytes 5 = 0) (noNul : 0 ∉ command) (short : command.length < 2 ^ 31) :
    ∃ ret, StarterKernel.strcmp (pointerString modname) (localString command) machine =
      .ok ret machine ∧ (ret = 0 ↔ nameAt bytes = command) := by
  have nameShort := (nameAt_reads terminated).1
  obtain ⟨ret, run, iff⟩ := strcmp_eq (holds.readsName terminated) noNul_nameAt
    (by unfold wordSize; omega) (readsString_localString command) noNul short
  exact ⟨ret, run, iff.trans (strcmpEqual_iff_eq (by omega))⟩

/-- The commands that the shell knows. -/
def commands : List (List UInt8) := [initName, echoName, waitName]

theorem length_of_command (member : command ∈ commands) : command.length = 4 := by
  have all : ∀ command ∈ commands, command.length = 4 := by decide
  exact all command member

theorem noNul_of_command (member : command ∈ commands) : 0 ∉ command := by
  have all : ∀ command ∈ commands, 0 ∉ command := by decide
  exact all command member

theorem commandBytes_terminated : commandBytes bytes block 5 = 0 :=
  Function.update_self _ _ _

theorem commandBytes_fourth : commandBytes bytes block 4 = bytes 4 := rfl

theorem commandBytes_block (inside : i < 4) :
    commandBytes bytes block i = block.getD i 0 := by
  rw [commandBytes, Function.update_of_ne (by omega), if_pos inside]

/-- If the stack held a terminator, a command is found as it was typed. -/
theorem nameAt_command (fourth : bytes 4 = 0) (member : block ∈ commands) :
    nameAt (commandBytes bytes block) = block := by
  have noNul := noNul_of_command member
  have cells : (List.range 6).map (commandBytes bytes block) = block ++ [0, 0] := by
    obtain ⟨a, b, c, d, rfl⟩ := List.length_eq_four.mp (length_of_command member)
    simp [commandBytes, List.range_succ, fourth]
  rw [nameAt, cells, List.takeWhile_append_of_pos]
  · simp
  · intro byte inBlock
    have notNul : byte ≠ 0 := fun isNul => noNul (isNul ▸ inBlock)
    simpa using notNul

/-- And nothing else is taken for a command. -/
theorem block_of_nameAt (length : block.length = 4)
    (member : nameAt (commandBytes bytes block) ∈ commands) : block ∈ commands := by
  obtain ⟨short, same⟩ := nameAt_reads (@commandBytes_terminated bytes block)
  have nameLength := length_of_command member
  have isBlock : nameAt (commandBytes bytes block) = block := by
    apply List.ext_getElem (nameLength.trans length.symm)
    intro i inName inBlock
    have byte := same i inName.le
    rw [commandBytes_block (by omega), List.getD_eq_getElem _ _ inName,
      List.getD_eq_getElem _ _ inBlock] at byte
    exact byte.symm
  rwa [isBlock] at member

/-- If it did not, no command is found. -/
theorem nameAt_not_mem_commands (fourth : bytes 4 ≠ 0) :
    nameAt (commandBytes bytes block) ∉ commands := by
  intro member
  obtain ⟨short, same⟩ := nameAt_reads (@commandBytes_terminated bytes block)
  have length := length_of_command member
  have terminator := same 4 length.ge
  rw [commandBytes_fourth, List.getD_eq_default _ _ length.le] at terminator
  exact fourth terminator

/-! ## A round of the loop -/

theorem User.onMachine_ok {α : Type} {first : Kernel α} {value : α}
    (run : first process.machine = .ok value after) :
    User.onMachine first process = .ok value { process with machine := after } := by
  rw [User.onMachine, run]

theorem User.ok_onMachine {α : Type} {first : Kernel α} {value : α} {last : Process}
    (run : User.onMachine first process = .ok value last) :
    ∃ after, first process.machine = .ok value after ∧
      last = { process with machine := after } := by
  rw [User.onMachine] at run
  split at run
  next result machine ends =>
    cases run
    exact ⟨machine, ends, rfl⟩
  next => cases run

theorem kgetcs_length (takes : kgetcs interrupts i round machine = .ok input taken) :
    input.length = i := by
  induction i generalizing machine round input taken with
  | zero =>
      cases takes
      rfl
  | succ count inductionHypothesis =>
      obtain ⟨ret, first, getc, takes⟩ := ok_of_bind takes
      obtain ⟨rest, later, takes, ends⟩ := ok_of_bind takes
      cases ends
      rw [List.length_cons, inductionHypothesis takes]

/-- A read of a command puts it in `modname`. -/
theorem StackHolds.read (holds : StackHolds root pool free modname machine bytes)
    (keyboard : ∀ i, OnKeyboard (interrupts i))
    (takes : kgetcs interrupts 4 0 machine = .ok block taken) :
    ∃ after, syscallHandler hdr interrupts sysRead User.stdin modname 4 machine =
        .ok (.returned 4) after ∧
      StackHolds root pool free modname after
        (fun i => if i < 4 then block.getD i 0 else bytes i) ∧
      after.ring = taken.ring := by
  have length := kgetcs_length takes
  have inside : 0 + block.length ≤ 6 := by omega
  obtain ⟨stored, stores, kept⟩ := holds.callerStores inside
  have rounds : kreadRounds interrupts modname 4 0 machine =
      .ok ⟨⟩ (stored.takeKeyboard taken) :=
    (kreadRounds_ok_iff keyboard).mpr ⟨block, taken, stored, takes, stores, rfl⟩
  have reads : kread interrupts modname 4 machine = .ok 4 (stored.takeKeyboard taken) :=
    kread_ok_iff.mpr ⟨by decide, rfl, rounds⟩
  refine ⟨stored.takeKeyboard taken, bind_of_ok reads, ?_, rfl⟩
  apply (kept.anyKeyboard taken.ring taken.terminal stored.callerAccesses).congr
  intro i _
  rw [length]
  by_cases inside : i < 4
  · rw [if_pos (by omega), if_pos inside, Nat.sub_zero]
  · rw [if_neg (by omega), if_neg inside]

/-- What a round leaves behind. -/
structure RoundEnds (root : Nat) (pool : Set Nat) (free : List Nat) (modname : Nat)
    (bytes : Nat -> UInt8) (ring : Ring) (process : Process) (valid : Bool)
    (after : Process) : Prop where
  holds : StackHolds root pool free modname after.machine bytes
  sameRing : after.machine.ring = ring
  printed : after.printed = process.printed ++
    if valid then [] else textBytes "   Invalid command.\n$ "
  written : (modname + 5) % wordSize ∈ after.stores

/-- The program compares the name with a command. -/
theorem onMachine_strcmp
    (holds : StackHolds root pool free modname process.machine bytes)
    (terminated : bytes 5 = 0) (member : command ∈ commands) :
    ∃ ret, User.onMachine (strcmp (pointerString modname) (localString command)) process =
      .ok ret process ∧ (ret = 0 ↔ nameAt bytes = command) := by
  have length := length_of_command member
  obtain ⟨ret, run, iff⟩ := holds.strcmp terminated (noNul_of_command member) (by omega)
  exact ⟨ret, User.onMachine_ok run, iff⟩

/-- A read of a command and the terminator behind it. -/
theorem StackHolds.readsCommand
    (holds : StackHolds root pool free modname process.machine bytes)
    (keyboard : ∀ i, OnKeyboard (interrupts i))
    (takes : kgetcs interrupts 4 0 process.machine = .ok block taken) :
    ∃ middle named,
      User.read hdr interrupts User.stdin modname 4 process = .ok (.returned 4) middle ∧
      User.store ((modname + 5) % wordSize) 0 middle = .ok () named ∧
      StackHolds root pool free modname named.machine (commandBytes bytes block) ∧
      named.machine.ring = taken.ring ∧ named.printed = process.printed ∧
      (modname + 5) % wordSize ∈ named.stores := by
  obtain ⟨readMachine, reads, blockHolds, sameRing⟩ :
      ∃ after, syscallHandler hdr interrupts sysRead User.stdin modname 4 process.machine =
        .ok (.returned 4) after ∧ _ ∧ _ := holds.read keyboard takes
  obtain ⟨machine, stores, nameHolds, keptRing⟩ := blockHolds.store (by decide : 5 < 6) 0
  let middle : Process :=
    { process with
      machine := readMachine
      stores := process.stores ++
        (List.range 4).map fun i => (modname + i) % wordSize }
  let named : Process :=
    { middle with
      machine := machine
      stores := middle.stores ++ [(modname + 5) % wordSize] }
  have readRun : User.read hdr interrupts User.stdin modname 4 process =
      .ok (.returned 4) middle :=
    (bind_of_ok (modify_apply _ process)).trans (User.onMachine_ok reads)
  have storeRun : User.store ((modname + 5) % wordSize) 0 middle = .ok () named :=
    (bind_of_ok (modify_apply _ _)).trans (User.onMachine_ok stores)
  exact ⟨middle, named, readRun, storeRun, nameHolds, keptRing.trans sameRing, rfl,
    List.mem_append_right _ (List.mem_singleton_self _)⟩

/-- A round reads a command and finds out whether the name is valid. -/
theorem startRound_ends
    (holds : StackHolds root pool free modname process.machine bytes)
    (keyboard : ∀ i, OnKeyboard (interrupts i))
    (takes : kgetcs interrupts 4 0 process.machine = .ok block taken) :
    ∃ after, startRound hdr interrupts modname process =
        .ok (decide (nameAt (commandBytes bytes block) ∈ commands)) after ∧
      RoundEnds root pool free modname (commandBytes bytes block) taken.ring process
        (decide (nameAt (commandBytes bytes block) ∈ commands)) after := by
  obtain ⟨middle, named, readRun, storeRun, nameHolds, isRing, isPrinted, written⟩ :
      ∃ middle named, User.read hdr interrupts User.stdin modname 4 process =
        .ok (.returned 4) middle ∧ _ := holds.readsCommand keyboard takes
  obtain ⟨retInit, runInit, isInit⟩ := @onMachine_strcmp _ _ _ _ named _ initName nameHolds
    commandBytes_terminated (by decide)
  obtain ⟨retEcho, runEcho, isEcho⟩ := @onMachine_strcmp _ _ _ _ named _ echoName nameHolds
    commandBytes_terminated (by decide)
  obtain ⟨retWait, runWait, isWait⟩ := @onMachine_strcmp _ _ _ _ named _ waitName nameHolds
    commandBytes_terminated (by decide)
  have accepted {call : User Bool} (ends : call named = .ok true named)
      (member : nameAt (commandBytes bytes block) ∈ commands) :
      ∃ after, call named =
          .ok (decide (nameAt (commandBytes bytes block) ∈ commands)) after ∧
        RoundEnds root pool free modname (commandBytes bytes block) taken.ring process
          (decide (nameAt (commandBytes bytes block) ∈ commands)) after := by
    rw [decide_eq_true member]
    exact ⟨named, ends, nameHolds, isRing, isPrinted.trans (List.append_nil _).symm, written⟩
  rw [startRound, bind_of_ok readRun, bind_of_ok storeRun, bind_of_ok runInit]
  by_cases first : nameAt (commandBytes bytes block) = initName
  · rw [if_pos (isInit.mpr first)]
    exact accepted rfl (by simp [commands, first])
  rw [if_neg (mt isInit.mp first), bind_of_ok runEcho]
  by_cases second : nameAt (commandBytes bytes block) = echoName
  · rw [if_pos (isEcho.mpr second)]
    exact accepted rfl (by simp [commands, second])
  rw [if_neg (mt isEcho.mp second), bind_of_ok runWait]
  by_cases third : nameAt (commandBytes bytes block) = waitName
  · rw [if_pos (isWait.mpr third)]
    exact accepted rfl (by simp [commands, third])
  have none : nameAt (commandBytes bytes block) ∉ commands := by
    simp [commands, first, second, third]
  rw [if_neg (mt isWait.mp third), decide_eq_false none]
  exact ⟨_, rfl, nameHolds.anyKeyboard _ _ _, isRing, congrArg (· ++ _) isPrinted, written⟩

/-- Conversely a round that ends has read a command. -/
theorem ends_of_startRound {valid : Bool} {last : Process}
    (holds : StackHolds root pool free modname process.machine bytes)
    (keyboard : ∀ i, OnKeyboard (interrupts i))
    (run : startRound hdr interrupts modname process = .ok valid last) :
    ∃ block taken, valid = decide (nameAt (commandBytes bytes block) ∈ commands) ∧
      RoundEnds root pool free modname (commandBytes bytes block) taken process valid last := by
  obtain ⟨outcome, middle, reading, -⟩ := ok_of_bind run
  obtain ⟨_, noted, notes, reading⟩ := ok_of_bind reading
  cases notes
  obtain ⟨machine, call, -⟩ := User.ok_onMachine reading
  obtain ⟨rc, final, reads, -⟩ := ok_of_bind call
  obtain ⟨-, -, rounds⟩ := kread_ok_iff.mp reads
  obtain ⟨block, taken, stored, takes, -, -⟩ := (kreadRounds_ok_iff keyboard).mp rounds
  obtain ⟨after, sameRun, ends⟩ :
      ∃ after, startRound hdr interrupts modname process = .ok _ after ∧ _ :=
    startRound_ends holds keyboard takes
  rw [run] at sameRun
  cases sameRun
  exact ⟨block, taken.ring, rfl, ends⟩

/-! ## The loop -/

/-- The reads of the shell, from the given round on, take these blocks from the keyboard,
whatever else happened to the machine. -/
inductive Delivers (interrupts : Nat -> Nat -> Kernel Unit) :
    (round : Nat) -> Ring -> (blocks : List (List UInt8)) -> Prop
  | none (round : Nat) (ring : Ring) : Delivers interrupts round ring []
  | read {round : Nat} {ring next : Ring} {block : List UInt8} {blocks : List (List UInt8)}
      (takes : ∀ machine : Machine, machine.ring = ring ->
        ∃ taken, kgetcs (interrupts round) 4 0 machine = .ok block taken ∧
          taken.ring = next)
      (later : Delivers interrupts (round + 1) next blocks) :
      Delivers interrupts round ring (block :: blocks)

section Loop

variable {interrupts : Nat -> Nat -> Kernel Unit} {rejected : List (List UInt8)}

/-- If the stack held a terminator, the loop rejects what is no command and ends with the
first command. -/
theorem startLoop_ends
    (holds : StackHolds root pool free modname process.machine bytes)
    (fourth : bytes 4 = 0) (keyboard : ∀ round i, OnKeyboard (interrupts round i))
    (input : Delivers interrupts round process.machine.ring (rejected ++ [command]))
    (invalid : ∀ block ∈ rejected, block ∉ commands) (valid : command ∈ commands) :
    ∃ after, startLoop hdr interrupts modname (rejected.length + 1) round process =
        .ok (some modname) after ∧
      after.printed = process.printed ++
        (List.replicate rejected.length (textBytes "   Invalid command.\n$ ")).flatten ∧
      ReadsString (pointerString modname) after.machine command := by
  induction rejected generalizing process bytes round with
  | nil =>
      cases input with
      | read takes later =>
          obtain ⟨taken, takes, -⟩ := takes process.machine rfl
          obtain ⟨after, run, ends⟩ :
              ∃ after, startRound hdr (interrupts round) modname process = .ok _ after ∧ _ :=
            startRound_ends holds (keyboard round) takes
          have isName := nameAt_command fourth valid
          rw [isName, decide_eq_true valid] at run ends
          refine ⟨after, ?_, ends.printed, ?_⟩
          · rw [List.length_nil, startLoop, bind_of_ok run]
            rfl
          · have reads := ends.holds.readsName commandBytes_terminated
            rwa [isName] at reads
  | cons block rejected inductionHypothesis =>
      cases input with
      | read takes later =>
          obtain ⟨taken, takes, isNext⟩ := takes process.machine rfl
          obtain ⟨after, run, ends⟩ :
              ∃ after, startRound hdr (interrupts round) modname process = .ok _ after ∧ _ :=
            startRound_ends holds (keyboard round) takes
          have noCommand : nameAt (commandBytes bytes block) ∉ commands := fun member =>
            invalid block List.mem_cons_self (block_of_nameAt (kgetcs_length takes) member)
          rw [decide_eq_false noCommand] at run ends
          have sameRing : after.machine.ring = _ := ends.sameRing.trans isNext
          obtain ⟨last, rest, printed, reads⟩ := inductionHypothesis ends.holds fourth
            (sameRing ▸ later) fun other member => invalid other (List.mem_cons_of_mem _ member)
          refine ⟨last, ?_, ?_, reads⟩
          · rw [List.length_cons, startLoop, bind_of_ok run]
            exact rest
          · rw [printed, ends.printed, List.length_cons, List.replicate_succ,
              List.flatten_cons, List.append_assoc]
            rfl

/-- If it did not, the loop never ends. -/
theorem startLoop_goesOn {fuel : Nat} {result : Option Nat} {last : Process}
    (holds : StackHolds root pool free modname process.machine bytes)
    (fourth : bytes 4 ≠ 0) (keyboard : ∀ round i, OnKeyboard (interrupts round i))
    (run : startLoop hdr interrupts modname fuel round process = .ok result last) :
    result = none := by
  induction fuel generalizing process bytes round with
  | zero =>
      cases run
      rfl
  | succ fuel inductionHypothesis =>
      obtain ⟨valid, middle, first, rest⟩ := ok_of_bind run
      obtain ⟨block, taken, isValid, ends⟩ := ends_of_startRound holds (keyboard round) first
      rw [decide_eq_false (nameAt_not_mem_commands fourth)] at isValid
      rw [isValid] at rest
      exact inductionHypothesis ends.holds fourth rest

/-- When the loop ends, the place behind `modname` was written. -/
theorem startLoop_written {fuel pointer : Nat} {last : Process}
    (holds : StackHolds root pool free modname process.machine bytes)
    (keyboard : ∀ round i, OnKeyboard (interrupts round i))
    (run : startLoop hdr interrupts modname fuel round process = .ok (some pointer) last) :
    (modname + 5) % wordSize ∈ last.stores := by
  induction fuel generalizing process bytes round with
  | zero => cases run
  | succ fuel inductionHypothesis =>
      obtain ⟨valid, middle, first, rest⟩ := ok_of_bind run
      obtain ⟨block, taken, isValid, ends⟩ := ends_of_startRound holds (keyboard round) first
      cases valid with
      | true =>
          cases rest
          exact ends.written
      | false => exact inductionHypothesis ends.holds rest

end Loop

/-! ## The whole program -/

/-- The shell calls `exec` with the command, after a message for each rejected block. -/
def ExecsCommand (hdr : Stivale2Struct) (interrupts : Nat -> Nat -> Kernel Unit)
    (modname : Nat) (machine : Machine) (rejected : Nat) (command : List UInt8)
    (process : Process) : Prop :=
  (∃ fuel, start hdr interrupts modname fuel
      { machine := machine, printed := [], stores := [] } = .ok (some modname) process) ∧
    process.printed = textBytes "Init start!\n" ++ textBytes "$ " ++
      (List.replicate rejected (textBytes "   Invalid command.\n$ ")).flatten ∧
    ReadsString (pointerString modname) process.machine command

/-- The program wrote in its array only. -/
def WritesInside (modname : Nat) (process : Process) : Prop :=
  ∀ address ∈ process.stores, modname ≤ address ∧ address ≤ modname + 4

/-- The program after its greeting. -/
def greeted (machine : Machine) : Process where
  machine := (machine.kprintf "Init start!\n").kprintf "$ "
  printed := textBytes "Init start!\n" ++ textBytes "$ "
  stores := []

theorem start_eq (hdr : Stivale2Struct) (interrupts : Nat -> Nat -> Kernel Unit)
    (modname fuel : Nat) (machine : Machine) :
    start hdr interrupts modname fuel { machine := machine, printed := [], stores := [] } =
      startLoop hdr interrupts modname fuel 0 (greeted machine) := rfl

theorem StackHolds.afterGreeting (holds : StackHolds root pool free modname machine bytes) :
    StackHolds root pool free modname (greeted machine).machine bytes :=
  holds.anyKeyboard machine.ring _ machine.callerAccesses

section Program

variable {interrupts : Nat -> Nat -> Kernel Unit} {rejected : List (List UInt8)}

/-- The shell runs the first command exactly if the stack held a terminator. -/
theorem StackHolds.execsCommand_iff
    (holds : StackHolds root pool free modname machine bytes)
    (keyboard : ∀ round i, OnKeyboard (interrupts round i))
    (input : Delivers interrupts 0 machine.ring (rejected ++ [command]))
    (invalid : ∀ block ∈ rejected, block ∉ commands) (valid : command ∈ commands) :
    (∃ process,
      ExecsCommand hdr interrupts modname machine rejected.length command process) ↔
      bytes 4 = 0 := by
  constructor
  · rintro ⟨process, ⟨fuel, run⟩, -⟩
    by_contra fourth
    rw [start_eq] at run
    have none := startLoop_goesOn holds.afterGreeting fourth keyboard run
    cases none
  · intro fourth
    obtain ⟨process, run, printed, reads⟩ :
        ∃ after, startLoop hdr interrupts modname (rejected.length + 1) 0 (greeted machine) =
          .ok (some modname) after ∧ _ ∧ _ :=
      startLoop_ends holds.afterGreeting fourth keyboard input invalid valid
    exact ⟨process, ⟨_, (start_eq _ _ _ _ _).trans run⟩, printed, reads⟩

/-- It writes behind its array. -/
theorem StackHolds.not_writesInside {process : Process}
    (holds : StackHolds root pool free modname machine bytes)
    (keyboard : ∀ round i, OnKeyboard (interrupts round i)) {rejected : Nat}
    (execs : ExecsCommand hdr interrupts modname machine rejected command process) :
    ¬WritesInside modname process := by
  obtain ⟨⟨fuel, run⟩, -⟩ := execs
  rw [start_eq] at run
  have written := startLoop_written holds.afterGreeting keyboard run
  obtain ⟨lower, address, -⟩ := holds.translates (show 5 < 6 by decide)
  intro inside
  have bound := (inside _ written).2
  omega

end Program

/-- Whatever is typed, the shell never runs the first command and stays inside `modname`;
it runs the command exactly if the byte at `modname[4]` was a terminator. -/
theorem init_runs_first_command_iff {hdr : Stivale2Struct}
    {codes : Nat -> Nat -> List UInt8} {root modname : Nat} {pool : Set Nat}
    {free : List Nat} {machine : Machine} {rejected : List (List UInt8)}
    {command : List UInt8}
    (owned : Owned root pool machine free) (isRoot : machine.root = root)
    (stack : ∀ i < 6, ∃ cell, lowerSpace machine.memory root (modname + i) = some cell ∧
      cell.access.writable = true)
    (input : Delivers (fun round i => keyInterrupts (codes round i)) 0 machine.ring
      (rejected ++ [command]))
    (invalid : ∀ block ∈ rejected, block ∉ commands) (valid : command ∈ commands) :
    (¬∃ process,
      ExecsCommand hdr (fun round i => keyInterrupts (codes round i)) modname machine
        rejected.length command process ∧
      WritesInside modname process) ∧
    ((∃ process,
      ExecsCommand hdr (fun round i => keyInterrupts (codes round i)) modname machine
        rejected.length command process) ↔
      ∃ cell, lowerSpace machine.memory root (modname + 4) = some cell ∧ cell.byte = 0) := by
  have holds : StackHolds root pool free modname machine fun i =>
      ((lowerSpace machine.memory root (modname + i)).map PagedSpace.Cell.byte).getD 0 := by
    refine ⟨owned, isRoot, fun i inside => ?_⟩
    obtain ⟨cell, visible, writable⟩ := stack i inside
    exact ⟨cell, visible, writable, by rw [visible]; rfl⟩
  have keyboard : ∀ round i, OnKeyboard (keyInterrupts (codes round i)) :=
    fun round i => OnKeyboard.keyInterrupts (codes round i)
  constructor
  · rintro ⟨process, execs, inside⟩
    exact holds.not_writesInside keyboard execs inside
  · rw [holds.execsCommand_iff keyboard input invalid valid]
    obtain ⟨cell, visible, -⟩ := stack 4 (by decide)
    simp [visible]

/-! ## The word wait -/

/-- An empty ring at an index. -/
structure Ring.Idle (ring : Ring) (index : Nat) : Prop where
  inArray : index < 100
  writing : ring.writingIndex = index
  reading : ring.readingIndex = index
  empty : ring.bufferLength = 0

/-- The ring after a key was typed and read. -/
def Ring.typedAndRead (ring : Ring) (index : Nat) (key : UInt8) : Ring :=
  (ring.put index key).take index

theorem Ring.Idle.typedAndRead {ring : Ring} {index : Nat} (idle : ring.Idle index)
    (key : UInt8) : (ring.typedAndRead index key).Idle ((index + 1) % 100) where
  inArray := Nat.mod_lt _ (by decide)
  writing := rfl
  reading := rfl
  empty := by
    change int8 (int8 (ring.bufferLength + 1) - 1) = 0
    rw [idle.empty]
    decide

/-- A key that is typed while `kgetc` waits. -/
theorem kgetc_typed {code key : UInt8} {index : Nat} (idle : machine.ring.Idle index)
    (types : getkey code machine = .ok key machine) (isKey : key ≠ 0) :
    kgetc (keyInterrupts [code]) machine =
      .ok key { machine.kprintC key with ring := machine.ring.typedAndRead index key } := by
  let typed : Machine := { machine.kprintC key with ring := machine.ring.put index key }
  have handles : keyInterrupts [code] machine = .ok ⟨⟩ typed := by
    rw [keyInterrupts, forM_cons_apply, keyboardInterrupt,
      bind_of_ok ((bind_of_ok types).trans (charWrite_eq isKey idle.inArray idle.writing))]
    rfl
  have nonempty : typed.ring.bufferLength ≠ 0 := by
    change int8 (machine.ring.bufferLength + 1) ≠ 0
    rw [idle.empty]
    decide
  have front : typed.ring.buffer (Fin.ofNat 100 index) = key := Function.update_self _ _ _
  have takes : kgetc (pure ()) typed =
      .ok (typed.ring.buffer (Fin.ofNat 100 index))
        { typed with ring := typed.ring.take index } :=
    kgetc_eq nonempty idle.inArray idle.reading
  rw [kgetc_interrupts, bind_of_ok handles, takes, front]
  rfl

theorem kgetcs_succ {count : Nat} {ret : UInt8}
    (first : kgetc (interrupts i) machine = .ok ret middle)
    (rest : kgetcs interrupts count (i + 1) middle = .ok input after) :
    kgetcs interrupts (count + 1) i machine = .ok (ret :: input) after := by
  rw [kgetcs, bind_of_ok first, bind_of_ok rest, pure_apply]

/-- The keys of the word, one for each character that is read. -/
def waitCodes (_round i : Nat) : List UInt8 := [[0x11, 0x1e, 0x17, 0x14].getD i 0]

theorem delivers_wait :
    Delivers (fun round i => keyInterrupts (waitCodes round i)) 0 Ring.initial
      ([] ++ [waitName]) := by
  refine .read (fun machine isInitial => ?_) (.none 1
    ((((Ring.initial.typedAndRead 0 119).typedAndRead 1 97).typedAndRead 2 105).typedAndRead
      3 116))
  have idle : machine.ring.Idle 0 := by
    rw [isInitial]
    exact ⟨by decide, rfl, rfl, rfl⟩
  refine ⟨_, kgetcs_succ (@kgetc_typed _ 0x11 119 0 idle rfl (by decide))
    (kgetcs_succ (@kgetc_typed _ 0x1e 97 1 ?_ rfl (by decide))
      (kgetcs_succ (@kgetc_typed _ 0x17 105 2 ?_ rfl (by decide))
        (kgetcs_succ (@kgetc_typed _ 0x14 116 3 ?_ rfl (by decide)) rfl))), ?_⟩
  · exact idle.typedAndRead 119
  · exact (idle.typedAndRead 119).typedAndRead 97
  · exact ((idle.typedAndRead 119).typedAndRead 97).typedAndRead 105
  · rw [← isInitial]

/-- A page of a program, its first six bytes zero. -/
theorem boot_stackHolds :
    ∃ machine free, StackHolds bootRoot (bootPool bootTag (bootMachine (bootContent [])))
      free 0x400000 machine (fun _ => 0) ∧ machine.ring = Ring.initial := by
  obtain ⟨start, after, free, taken, init, maps, owned, isCr3, mapped⟩ :=
    boot_vmMap [] [] (show LowerHalf 0x400000 by decide)
  have isRoot : after.root = bootRoot := by
    rw [Machine.root, isCr3]
    decide
  have holds : StackHolds bootRoot (bootPool bootTag (bootMachine (bootContent []))) free
      0x400000 after (fun _ => 0) := by
    refine ⟨owned, isRoot, fun i inside => ?_⟩
    exact ⟨_, mapped.lowerSpace_page owned (by decide) (by omega), rfl, rfl⟩
  exact ⟨_, free, holds.anyKeyboard .initial [] [], rfl⟩

/-- The word typed at once, on a stack of zeroes. -/
theorem init_runs_first_command_iff_wait :
    ∃ machine process,
      ExecsCommand (bootHdr []) (fun round i => keyInterrupts (waitCodes round i)) 0x400000
        machine 0 waitName process := by
  obtain ⟨machine, free, holds, isInitial⟩ := boot_stackHolds
  have stack : ∀ i < 6, ∃ cell,
      lowerSpace machine.memory bootRoot (0x400000 + i) = some cell ∧
        cell.access.writable = true := fun i inside => by
    obtain ⟨cell, visible, writable, -⟩ := holds.stored i inside
    exact ⟨cell, visible, writable⟩
  obtain ⟨cell, visible, -, isNul⟩ := holds.stored 4 (by decide)
  obtain ⟨-, runs⟩ := @init_runs_first_command_iff (bootHdr []) _ _ _ _ _ _ [] waitName
    holds.owned holds.isRoot stack (isInitial ▸ delivers_wait) (by simp) (by decide)
  obtain ⟨process, execs⟩ := runs.mpr ⟨cell, visible, isNul⟩
  exact ⟨machine, process, execs⟩

/-- The word typed at once, on a stack with a one at `modname[4]`: there is no `exec`. -/
theorem init_ignores_command :
    ∃ machine,
      Delivers (fun round i => keyInterrupts (waitCodes round i)) 0 machine.ring [waitName] ∧
        ¬∃ process,
          ExecsCommand (bootHdr []) (fun round i => keyInterrupts (waitCodes round i))
            0x400000 machine 0 waitName process := by
  obtain ⟨machine, free, holds, isInitial⟩ := boot_stackHolds
  obtain ⟨dirty, -, dirtyHolds, sameRing⟩ := holds.store (by decide : 4 < 6) 1
  have input : Delivers (fun round i => keyInterrupts (waitCodes round i)) 0 dirty.ring
      ([] ++ [waitName]) := by
    rw [sameRing, isInitial]
    exact delivers_wait
  refine ⟨dirty, input, fun execs => ?_⟩
  have isNul := (dirtyHolds.execsCommand_iff (fun _ _ => OnKeyboard.keyInterrupts _) input
    (by simp) (by decide)).mp execs
  rw [Function.update_self] at isNul
  cases isNul

end StarterKernel
