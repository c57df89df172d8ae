import StarterKernel.Exec.KernelMemory
import StarterKernel.Paging.BootTables
import StarterKernel.Keyboard.Fifo

/-!
# Reads through a system call

`kread` stores the next characters of the typed stream, also while further keys
arrive, and a read in two parts stores what one read stores.
-/

namespace StarterKernel

open Kernel StateError

variable {machine middle after : Machine} {buf n m count i : Nat} {rc : Int}
variable {interrupts : Nat -> Kernel Unit}

/-! ## The rounds of `kread` -/

/-- The rounds `i`, `i + 1`, ... of the loop of `kread`, `count` of them. -/
def kreadRounds (interrupts : Nat -> Kernel Unit) (buff : Nat) :
    (count i : Nat) -> Kernel Unit
  | 0, _ => return ()
  | count + 1, i => do
      let ret ← kgetc (interrupts i)
      callerStore ((buff + i) % wordSize) ret
      kreadRounds interrupts buff count (i + 1)

/-- The loop of `kread` ends after its rounds, unless its counter overflows. -/
theorem kreadLoop_ok_iff {numchars fuel : Nat} :
    kreadLoop interrupts buf numchars fuel i machine = .ok ⟨⟩ after ↔
      numchars - i < fuel ∧
      kreadRounds interrupts buf (numchars - i) i machine = .ok ⟨⟩ after := by
  induction fuel generalizing i machine with
  | zero =>
      constructor
      · intro run
        cases run
      · rintro ⟨bound, -⟩
        exact absurd bound (Nat.not_lt_zero _)
  | succ fuel inductionHypothesis =>
      rw [kreadLoop]
      by_cases more : i < numchars
      · obtain ⟨count, isCount⟩ : ∃ count, numchars - i = count + 1 :=
          ⟨numchars - i - 1, by omega⟩
        have rest : numchars - (i + 1) = count := by omega
        simp only [if_pos more, isCount, kreadRounds, ok_bind_iff, inductionHypothesis,
          rest, Nat.add_lt_add_iff_right]
        constructor
        · rintro ⟨ret, first, reads, _, second, stores, bound, rounds⟩
          exact ⟨bound, ret, first, reads, _, second, stores, rounds⟩
        · rintro ⟨bound, ret, first, reads, _, second, stores, rounds⟩
          exact ⟨ret, first, reads, _, second, stores, bound, rounds⟩
      · have none : numchars - i = 0 := by omega
        rw [if_neg more, none, kreadRounds]
        exact ⟨fun run => ⟨Nat.zero_lt_succ _, run⟩, fun both => both.2⟩

/-- `kread` returns after its rounds. -/
theorem kread_ok_iff :
    kread interrupts buf n machine = .ok rc after ↔
      n < 2 ^ 31 ∧ rc = toInt32 n ∧
      kreadRounds interrupts buf n 0 machine = .ok ⟨⟩ after := by
  constructor
  · intro run
    obtain ⟨_, middle, loop, rest⟩ := ok_of_bind run
    obtain ⟨bound, rounds⟩ := kreadLoop_ok_iff.mp loop
    cases rest
    exact ⟨bound, rfl, rounds⟩
  · rintro ⟨bound, rfl, rounds⟩
    have loop : kreadLoop interrupts buf n (2 ^ 31) 0 machine = .ok ⟨⟩ after :=
      kreadLoop_ok_iff.mpr ⟨bound, rounds⟩
    rw [kread, bind_of_ok loop, pure_apply]

theorem kreadRounds_add :
    kreadRounds interrupts buf (n + m) i machine = .ok ⟨⟩ after ↔
      ∃ middle, kreadRounds interrupts buf n i machine = .ok ⟨⟩ middle ∧
        kreadRounds interrupts buf m (i + n) middle = .ok ⟨⟩ after := by
  induction n generalizing i machine with
  | zero => simp [kreadRounds, pure_apply]
  | succ n inductionHypothesis =>
      rw [Nat.succ_add_eq_add_succ, Nat.add_succ]
      simp only [kreadRounds, ok_bind_iff, inductionHypothesis]
      constructor
      · rintro ⟨ret, first, reads, _, second, stores, middle, rounds, rest⟩
        refine ⟨middle, ⟨ret, first, reads, _, second, stores, rounds⟩, ?_⟩
        rwa [Nat.add_right_comm, Nat.add_assoc] at rest
      · rintro ⟨middle, ⟨ret, first, reads, _, second, stores, rounds⟩, rest⟩
        refine ⟨ret, first, reads, _, second, stores, middle, rounds, ?_⟩
        rwa [Nat.add_right_comm, Nat.add_assoc]

/-- The rounds from the `n`-th on are those of a read to the later address. -/
theorem kreadRounds_shift :
    kreadRounds interrupts buf count (n + i) =
      kreadRounds (fun i => interrupts (n + i)) ((buf + n) % wordSize) count i := by
  induction count generalizing i with
  | zero => rfl
  | succ count inductionHypothesis =>
      rw [kreadRounds, kreadRounds, Nat.add_assoc n i 1, inductionHypothesis,
        Nat.mod_add_mod, Nat.add_assoc buf n i]

/-! ## The stores of `kread` -/

/-- The machine with another keyboard buffer and another terminal. -/
def Machine.withKeyboard
    (machine : Machine) (ring : Ring) (terminal : List UInt8) : Machine :=
  { machine with ring := ring, terminal := terminal }

/-- A call that ends alike with another keyboard leaves the keyboard alone. -/
theorem withKeyboard_of_ok {call : Kernel Unit} (run : call machine = .ok ⟨⟩ after)
    (moved : call (machine.withKeyboard machine.ring machine.terminal) =
      .ok ⟨⟩ (after.withKeyboard machine.ring machine.terminal)) :
    after.withKeyboard machine.ring machine.terminal = after := by
  have same : machine.withKeyboard machine.ring machine.terminal = machine := rfl
  rw [same, run] at moved
  injection moved with _ kept
  exact kept.symm

/-- Store bytes through the pointer of the caller, from the place `i` on. -/
def callerStores (buff : Nat) : (i : Nat) -> List UInt8 -> Kernel Unit
  | _, [] => return ()
  | i, byte :: bytes => do
      callerStore ((buff + i) % wordSize) byte
      callerStores buff (i + 1) bytes

section Stores

variable {address : Nat} {value : UInt8} {bytes : List UInt8}

/-- A store does not depend on the keyboard, and leaves it alone. -/
theorem callerStore_withKeyboard (ring : Ring) (terminal : List UInt8)
    (run : callerStore address value machine = .ok ⟨⟩ after) :
    after.ring = machine.ring ∧
      callerStore address value (machine.withKeyboard ring terminal) =
        .ok ⟨⟩ (after.withKeyboard ring terminal) := by
  rw [callerStore, bind_of_ok (modify_apply _ machine)] at run
  rw [callerStore, bind_of_ok (modify_apply _ _)]
  obtain ⟨canonical, mapped, translates, allowed, rfl⟩ := storeByte_ok_iff.mp run
  exact ⟨rfl, storeByte_ok_iff.mpr ⟨canonical, mapped, translates, allowed, rfl⟩⟩

theorem callerStores_withKeyboard (ring : Ring) (terminal : List UInt8)
    (run : callerStores buf i bytes machine = .ok ⟨⟩ after) :
    callerStores buf i bytes (machine.withKeyboard ring terminal) =
      .ok ⟨⟩ (after.withKeyboard ring terminal) := by
  induction bytes generalizing i machine with
  | nil =>
      cases run
      rfl
  | cons byte bytes inductionHypothesis =>
      obtain ⟨_, first, store, rest⟩ := ok_of_bind run
      rw [callerStores, bind_of_ok (callerStore_withKeyboard ring terminal store).2,
        inductionHypothesis rest]

end Stores

/-! ## Reading while keys arrive -/

/-- Type all of the keys. -/
def typeAll (keys : List UInt8) : Kernel Unit := keys.forM charWrite

/-- The characters that arrive before `count` rounds from `first` on. -/
def arrived (arrivals : Nat -> List UInt8) (first count : Nat) : List UInt8 :=
  keystrokes ((List.range' first count).flatMap arrivals)

section Arrivals

variable {arrivals : Nat -> List UInt8} {head first : Nat} {unread : List UInt8}
variable {keys : List UInt8}

theorem arrived_succ :
    arrived arrivals first (count + 1) =
      keystrokes (arrivals first) ++ arrived arrivals (first + 1) count := by
  simp [arrived, keystrokes, List.range'_succ]

theorem arrived_one : arrived arrivals first 1 = keystrokes (arrivals first) := by
  simp [arrived]

theorem arrived_add :
    arrived arrivals first (n + m) =
      arrived arrivals first n ++ arrived arrivals (first + n) m := by
  simp [arrived, keystrokes, ← List.range'_append_1]

theorem arrived_shift :
    arrived (fun i => arrivals (n + i)) first count =
      arrived arrivals (n + first) count := by
  induction count generalizing first with
  | zero => rfl
  | succ count inductionHypothesis =>
      rw [arrived_succ, arrived_succ, inductionHypothesis, Nat.add_assoc]

/-- Interrupts that leave at most 100 characters unread extend the queue. -/
theorem typeAll_queue
    (queue : machine.ring.Queue head unread)
    (room : (unread ++ keystrokes keys).length ≤ 100) :
    ∃ (ring : Ring) (terminal : List UInt8),
      ring.Queue head (unread ++ keystrokes keys) ∧
      typeAll keys machine = .ok ⟨⟩ (machine.withKeyboard ring terminal) := by
  induction keys generalizing machine unread with
  | nil =>
      refine ⟨machine.ring, machine.terminal, ?_, rfl⟩
      rwa [keystrokes, List.filter_nil, List.append_nil]
  | cons key keys inductionHypothesis =>
      have split : keystrokes (key :: keys) = keystrokes [key] ++ keystrokes keys := by
        rw [keystrokes, ← List.singleton_append, List.filter_append]
        rfl
      rw [split, ← List.append_assoc] at room ⊢
      have firstRoom : (unread ++ keystrokes [key]).length ≤ 100 := by
        rw [List.length_append] at room
        omega
      obtain ⟨ring, terminal, pushed, step⟩ := charWrite_keystrokes queue firstRoom
      obtain ⟨final, printed, holds, rest⟩ :=
        @inductionHypothesis { machine with ring := ring, terminal := terminal } _
          pushed room
      refine ⟨final, printed, holds, ?_⟩
      rw [typeAll, forM_cons_apply, bind_of_ok step]
      exact rest

/-- The rounds of `kread` store the oldest characters, those that arrive on the
way included. -/
theorem kreadRounds_queue
    (queue : machine.ring.Queue head unread)
    (run : kreadRounds (fun i => typeAll (arrivals i)) buf count i machine =
      .ok ⟨⟩ after)
    (roomy : ∀ k < count, (unread ++ arrived arrivals i (k + 1)).length ≤ k + 100) :
    ∃ final rest piece stored, after.ring.Queue final rest ∧
      unread ++ arrived arrivals i count = piece ++ rest ∧ piece.length = count ∧
      callerStores buf i piece machine = .ok ⟨⟩ stored ∧
      after = stored.withKeyboard after.ring after.terminal := by
  induction count generalizing i machine head unread with
  | zero =>
      cases run
      exact ⟨head, unread, [], after, queue, List.append_nil unread, rfl, rfl, rfl⟩
  | succ count inductionHypothesis =>
      rw [kreadRounds, ok_bind_iff] at run
      obtain ⟨ret, reading, getc, run⟩ := run
      obtain ⟨_, stored, store, rounds⟩ := ok_of_bind run
      have room : (unread ++ keystrokes (arrivals i)).length ≤ 100 := by
        have bound := roomy 0 (Nat.zero_lt_succ count)
        rwa [Nat.zero_add, Nat.zero_add, arrived_one] at bound
      obtain ⟨ring, terminal, typedQueue, typing⟩ := typeAll_queue queue room
      change (machine.withKeyboard ring terminal).ring.Queue head _ at typedQueue
      rw [kgetc_interrupts, bind_of_ok typing] at getc
      -- The read does not block, so a character is unread.
      have typedFirst : unread ++ arrived arrivals i (count + 1) =
          (unread ++ keystrokes (arrivals i)) ++ arrived arrivals (i + 1) count := by
        rw [arrived_succ, List.append_assoc]
      cases waiting : unread ++ keystrokes (arrivals i) with
      | nil =>
          rw [waiting] at typedQueue
          rw [kgetc_empty typedQueue] at getc
          cases getc
      | cons oldest others =>
          rw [waiting] at typedQueue typedFirst
          obtain ⟨popped, poppedQueue, taking⟩ := kgetc_queue typedQueue
          rw [taking] at getc
          cases getc
          have kept := callerStore_withKeyboard machine.ring machine.terminal store
          have storedQueue : stored.ring.Queue ((head + 1) % 100) others := by
            rw [kept.1]
            exact poppedQueue
          obtain ⟨final, rest, piece, finished, holds, fifo, length, stores, isAfter⟩ :=
            inductionHypothesis storedQueue rounds (fun k inside => by
              have bound := roomy (k + 1) (Nat.succ_lt_succ inside)
              rw [arrived_succ, ← List.append_assoc, waiting] at bound
              simp only [List.cons_append, List.length_cons] at bound
              omega)
          refine ⟨final, rest, ret :: piece,
            finished.withKeyboard machine.ring machine.terminal, holds, ?_, ?_, ?_, ?_⟩
          · rw [typedFirst, List.cons_append, fifo, List.cons_append]
          · rw [List.length_cons, length]
          · have first : callerStore ((buf + i) % wordSize) ret machine =
                .ok ⟨⟩ (stored.withKeyboard machine.ring machine.terminal) := kept.2
            rw [callerStores, bind_of_ok first]
            exact callerStores_withKeyboard machine.ring machine.terminal stores
          · exact isAfter

/-! ## Successive reads -/

/-- Successive calls of `kread`, each for a buffer and a number of characters;
`arrivals k` arrive before the `k`-th character is taken. -/
def kreads (arrivals : Nat -> List UInt8) : (taken : Nat) -> List (Nat × Nat) -> Kernel Unit
  | _, [] => return ()
  | taken, (buf, numchars) :: calls => do
      let _ ← kread (fun i => typeAll (arrivals (taken + i))) buf numchars
      kreads arrivals (taken + numchars) calls

/-- Store consecutive pieces of a stream in the buffers. -/
def storePieces : (stream : List UInt8) -> List (Nat × Nat) -> Kernel Unit
  | _, [] => return ()
  | stream, (buf, numchars) :: calls => do
      callerStores buf 0 (stream.take numchars)
      storePieces (stream.drop numchars) calls

/-- How many characters the calls read. -/
def charactersRead (calls : List (Nat × Nat)) : Nat := (calls.map Prod.snd).sum

theorem storePieces_withKeyboard {stream : List UInt8} {calls : List (Nat × Nat)}
    (ring : Ring) (terminal : List UInt8)
    (run : storePieces stream calls machine = .ok ⟨⟩ after) :
    storePieces stream calls (machine.withKeyboard ring terminal) =
      .ok ⟨⟩ (after.withKeyboard ring terminal) := by
  induction calls generalizing stream machine with
  | nil =>
      cases run
      rfl
  | cons call calls inductionHypothesis =>
      obtain ⟨_, middle, stores, rest⟩ := ok_of_bind run
      rw [storePieces, bind_of_ok (callerStores_withKeyboard ring terminal stores),
        inductionHypothesis rest]

/-- Successive reads store consecutive pieces of what is unread and what is typed
meanwhile. -/
theorem kreads_queue {taken : Nat} {calls : List (Nat × Nat)}
    (queue : machine.ring.Queue head unread)
    (run : kreads arrivals taken calls machine = .ok ⟨⟩ after)
    (roomy : ∀ k < charactersRead calls,
      (unread ++ arrived arrivals taken (k + 1)).length ≤ k + 100) :
    ∃ stored,
      storePieces (unread ++ arrived arrivals taken (charactersRead calls)) calls
        machine = .ok ⟨⟩ stored ∧
      after = stored.withKeyboard after.ring after.terminal := by
  induction calls generalizing machine head unread taken with
  | nil =>
      cases run
      exact ⟨after, rfl, rfl⟩
  | cons call calls inductionHypothesis =>
      obtain ⟨buf, numchars⟩ := call
      rw [kreads, ok_bind_iff] at run
      obtain ⟨rc, middle, read, later⟩ := run
      obtain ⟨-, -, rounds⟩ := kread_ok_iff.mp read
      have total : charactersRead ((buf, numchars) :: calls) =
          numchars + charactersRead calls := by
        simp [charactersRead]
      rw [total] at roomy ⊢
      have shifted (count : Nat) :
          arrived (fun i => arrivals (taken + i)) 0 count =
            arrived arrivals taken count := by
        rw [arrived_shift, Nat.add_zero]
      obtain ⟨final, rest, piece, stored, holds, fifo, length, stores, isMiddle⟩ :=
        kreadRounds_queue queue rounds fun k inside => by
          rw [shifted]
          exact roomy k (by omega)
      rw [shifted] at fifo
      have stream (count : Nat) :
          unread ++ arrived arrivals taken (numchars + count) =
            piece ++ (rest ++ arrived arrivals (taken + numchars) count) := by
        rw [arrived_add, ← List.append_assoc, fifo, List.append_assoc]
      obtain ⟨finished, pieces, isAfter⟩ :=
        inductionHypothesis holds later fun k inside => by
          have bound := roomy (numchars + k) (by omega)
          rw [Nat.add_assoc, stream, List.length_append, length] at bound
          omega
      refine ⟨finished.withKeyboard machine.ring machine.terminal, ?_, isAfter⟩
      rw [stream, storePieces, List.take_left' length, List.drop_left' length,
        bind_of_ok stores]
      have storedKeyboard : stored.withKeyboard machine.ring machine.terminal = stored :=
        withKeyboard_of_ok stores
          (callerStores_withKeyboard machine.ring machine.terminal stores)
      have sameStored : middle.withKeyboard machine.ring machine.terminal = stored := by
        rw [isMiddle]
        exact storedKeyboard
      rw [← sameStored]
      exact storePieces_withKeyboard machine.ring machine.terminal pieces

end Arrivals

/-- The keyboard buffer is a queue.  From the initial ring and over any run with at
most 100 unread characters, `kgetc` has returned the oldest of the typed characters
in order, `buffer_length` counts the others, and the next event goes through, a
`kgetc` if there is an unread character.  Successive calls of `kread` store
consecutive pieces of the typed stream, and two of them store what one does.  They store
them apart from the variables of the ring, which are not in the memory of the machine. -/
theorem keyboardBuffer_fifo (start : Machine) (isInitial : start.ring = Ring.initial) :
    (∀ events outputs unreturned machine,
      RingRun start events outputs unreturned machine -> Roomy events ->
      outputs = (typed events).take (reads events) ∧
      machine.ring.bufferLength = (typed events).length - reads events ∧
      (∀ key, Roomy (events ++ [.charWrite key]) ->
        ∃ after, charWrite key machine = .ok ⟨⟩ after) ∧
      (0 < machine.ring.bufferLength ->
        ∃ returned after, kgetc (pure ()) machine = .ok returned after)) ∧
    (∀ arrivals calls after,
      (∀ k < charactersRead calls, (arrived arrivals 0 (k + 1)).length ≤ k + 100) ->
      kreads arrivals 0 calls start = .ok ⟨⟩ after ->
      ∃ stored,
        storePieces (arrived arrivals 0 (charactersRead calls)) calls start =
          .ok ⟨⟩ stored ∧
        after = stored.withKeyboard after.ring after.terminal) ∧
    ∀ interrupts machine buf n m after,
      (∃ rc, kread interrupts buf (n + m) machine = .ok rc after) ↔
        n + m < 2 ^ 31 ∧ ∃ first middle second,
          kread interrupts buf n machine = .ok first middle ∧
          kread (fun i => interrupts (n + i)) ((buf + n) % wordSize) m middle =
            .ok second after := by
  refine ⟨fun events outputs unreturned machine run roomy => ?_, ?_, ?_⟩
  · obtain ⟨head, unread, state⟩ := run.state isInitial roomy
    have counts := state.unread_length
    refine ⟨?_, ?_, fun key room => ?_, fun nonempty => ?_⟩
    · rw [← state.fifo, ← state.count, List.take_left]
    · rw [state.queue.length]
      omega
    · have bound := room.last
      rw [typed_charWrite, reads_charWrite, List.length_append] at bound
      have fits : (unread ++ keystrokes [key]).length ≤ 100 := by
        rw [List.length_append]
        omega
      obtain ⟨ring, terminal, -, step⟩ := charWrite_keystrokes state.queue fits
      exact ⟨_, step⟩
    · exact ⟨_, _, kgetc_eq (by omega) state.queue.inArray state.queue.reading⟩
  · intro arrivals calls after roomy run
    have empty : start.ring.Queue 0 [] := by
      rw [isInitial]
      exact Ring.queue_initial
    exact kreads_queue empty run roomy
  · intro interrupts machine buf n m after
    constructor
    · rintro ⟨rc, run⟩
      obtain ⟨bound, -, rounds⟩ := kread_ok_iff.mp run
      obtain ⟨middle, firstRounds, secondRounds⟩ := kreadRounds_add.mp rounds
      rw [Nat.zero_add, ← Nat.add_zero n, kreadRounds_shift] at secondRounds
      exact ⟨bound, _, middle, _, kread_ok_iff.mpr ⟨by omega, rfl, firstRounds⟩,
        kread_ok_iff.mpr ⟨by omega, rfl, secondRounds⟩⟩
    · rintro ⟨bound, first, middle, second, firstRun, secondRun⟩
      obtain ⟨-, -, firstRounds⟩ := kread_ok_iff.mp firstRun
      obtain ⟨-, -, secondRounds⟩ := kread_ok_iff.mp secondRun
      rw [← kreadRounds_shift, Nat.add_zero] at secondRounds
      refine ⟨_, kread_ok_iff.mpr ⟨bound, rfl, kreadRounds_add.mpr ?_⟩⟩
      exact ⟨middle, firstRounds, by rwa [Nat.zero_add]⟩

/-- Two keys and a read, and two reads of a buffer in the direct map. -/
theorem keyboardBuffer_fifo_bootMachine :
    (∃ outputs unreturned machine,
      RingRun (bootMachine fun _ => 0) [.charWrite 104, .charWrite 105, .kgetc] outputs
        unreturned machine ∧ outputs = [104] ∧ machine.ring.bufferLength = 1) ∧
    ∃ stored after,
      kreads (fun _ => [104]) 0
        [(bootHhdmBase + 0x10000, 2), (bootHhdmBase + 0x10010, 3)]
        (bootMachine fun _ => 0) = .ok ⟨⟩ after ∧
      storePieces [104, 104, 104, 104, 104]
        [(bootHhdmBase + 0x10000, 2), (bootHhdmBase + 0x10010, 3)]
        (bootMachine fun _ => 0) = .ok ⟨⟩ stored ∧
      after = stored.withKeyboard after.ring after.terminal := by
  obtain ⟨fifo, reading, -⟩ := keyboardBuffer_fifo (bootMachine fun _ => 0) rfl
  constructor
  · have firstKey := RingRun.start.charWrite
      (@charWrite_eq (bootMachine fun _ => 0) 104 0 (by decide) (by decide) rfl)
    have secondKey := firstKey.charWrite
      (@charWrite_eq _ 105 1 (by decide) (by decide) rfl)
    have read := secondKey.kgetc (@kgetc_eq _ 0 (by decide) (by decide) rfl)
    have roomy : Roomy ([] ++ [.charWrite 104] ++ [.charWrite 105] ++ [.kgetc]) :=
      Roomy.of_length_le (by decide)
    obtain ⟨outputs, length, -⟩ := fifo _ _ _ _ read roomy
    exact ⟨_, _, _, read, outputs, length⟩
  · have ends : finalValue (kreads (fun _ => [104]) 0
        [(bootHhdmBase + 0x10000, 2), (bootHhdmBase + 0x10010, 3)]
        (bootMachine fun _ => 0)) = some ⟨⟩ := by
      decide +kernel
    obtain ⟨after, run⟩ := ok_of_finalValue ends
    obtain ⟨stored, stores, isAfter⟩ := reading _ _ after (by decide) run
    exact ⟨stored, after, run, stores, isAfter⟩

end StarterKernel
