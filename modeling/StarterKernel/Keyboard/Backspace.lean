import StarterKernel.Keyboard.Overflow

/-!
# Taking a character back

`backspace` moves the reading index back instead of the writing index.  So the character
read next is one that was read before, and the last typed one stays.
-/

namespace StarterKernel

open Kernel StateError

variable {start middle machine after : Machine} {ring : Ring} {key : UInt8}
variable {head count index : Nat} {unread expected outputs : List UInt8}
variable {events later : List RingEvent} {unreturned : Fin 100 -> Bool}

/-! ## What a ring gives back -/

/-- The events never leave more than 100 characters unread if `expected` are unread at
their start. -/
def RoomyAfter (expected : List UInt8) (events : List RingEvent) : Prop :=
  ∀ before, before <+: events ->
    expected.length + (typed before).length ≤ reads before + 100

/-- Later reads return the expected characters and then whatever is typed, and block
only when these are used up. -/
def ReadsBack (machine : Machine) (expected : List UInt8) : Prop :=
  ∀ events outputs unreturned after, RingRun machine events outputs unreturned after ->
    RoomyAfter expected events ->
    outputs <+: expected ++ typed events ∧
      (kgetc (pure ()) after = .error .blocked after ↔ outputs = expected ++ typed events)

theorem RoomyAfter.init {event : RingEvent} (roomy : RoomyAfter expected (events ++ [event])) :
    RoomyAfter expected events :=
  fun before isPrefix => roomy before (isPrefix.trans (List.prefix_append _ _))

theorem RoomyAfter.last (roomy : RoomyAfter expected events) :
    expected.length + (typed events).length ≤ reads events + 100 :=
  roomy events (List.prefix_refl _)

/-- A queue stays a queue, of what is expected and was not returned. -/
theorem RingRun.queue_after (run : RingRun machine events outputs unreturned after)
    (queue : machine.ring.Queue head expected) (roomy : RoomyAfter expected events) :
    ∃ head unread, after.ring.Queue head unread ∧
      outputs ++ unread = expected ++ typed events ∧ outputs.length = reads events := by
  induction run with
  | start => exact ⟨head, expected, queue, by simp [typed], rfl⟩
  | @charWrite events outputs unreturned middle key after run step inductionHypothesis =>
      obtain ⟨head, unread, held, fifo, count⟩ := inductionHypothesis roomy.init
      have room : (unread ++ keystrokes [key]).length ≤ 100 := by
        have bound := roomy.last
        have lengths := congrArg List.length fifo
        rw [typed_charWrite, reads_charWrite, List.length_append] at bound
        rw [List.length_append, List.length_append] at lengths
        rw [List.length_append]
        omega
      obtain ⟨ring, terminal, pushed, typedRun⟩ := charWrite_keystrokes held room
      rw [typedRun] at step
      cases step
      refine ⟨head, _, pushed, ?_, by rw [count, reads_charWrite]⟩
      rw [← List.append_assoc, fifo, typed_charWrite, List.append_assoc]
  | @kgetc events outputs unreturned middle returned after run step inductionHypothesis =>
      obtain ⟨head, unread, held, fifo, count⟩ := inductionHypothesis roomy.init
      cases unread with
      | nil =>
          rw [kgetc_empty held] at step
          cases step
      | cons oldest rest =>
          obtain ⟨ring, popped, readRun⟩ := kgetc_queue held
          rw [readRun] at step
          cases step
          refine ⟨_, rest, popped, ?_, ?_⟩
          · rw [typed_kgetc, ← fifo, List.append_assoc, List.singleton_append]
          · rw [List.length_append, count, reads_kgetc, List.length_singleton]

/-- A queue gives its characters back. -/
theorem Ring.Queue.readsBack (queue : machine.ring.Queue head expected) :
    ReadsBack machine expected := by
  intro events outputs unreturned after run roomy
  obtain ⟨last, unread, held, fifo, _⟩ := run.queue_after queue roomy
  refine ⟨⟨unread, fifo⟩, ?_⟩
  rw [← fifo]
  cases unread with
  | nil => simp [kgetc_empty held]
  | cons oldest rest =>
      obtain ⟨ring, _, readRun⟩ := kgetc_queue held
      rw [readRun]
      simp

/-! ## Runs of reads -/

/-- Runs one after the other. -/
theorem RingRun.trans {others : List UInt8} {left : Fin 100 -> Bool}
    (first : RingRun start events outputs left middle)
    (second : RingRun middle later others unreturned after) :
    ∃ marks, RingRun start (events ++ later) (outputs ++ others) marks after := by
  induction second with
  | start => exact ⟨left, by rw [List.append_nil, List.append_nil]; exact first⟩
  | charWrite _ step inductionHypothesis =>
      obtain ⟨marks, run⟩ := inductionHypothesis
      rw [← List.append_assoc]
      exact ⟨_, run.charWrite step⟩
  | kgetc _ step inductionHypothesis =>
      obtain ⟨marks, run⟩ := inductionHypothesis
      rw [← List.append_assoc, ← List.append_assoc]
      exact ⟨_, run.kgetc step⟩

/-- The characters of the slots from `head` on. -/
def Ring.slots (ring : Ring) (head count : Nat) : List UInt8 :=
  (List.range count).map fun i => ring.buffer (RingQueue.slot 100 head i)

/-- As many reads as `buffer_length` says return the slots from the reading index on. -/
theorem ringRun_reads {length : Nat} (inArray : head < 100)
    (reading : machine.ring.readingIndex = head) (counted : machine.ring.bufferLength = length)
    (few : length ≤ 100) (count : Nat) (enough : count ≤ length) :
    ∃ unreturned after,
      RingRun machine (List.replicate count .kgetc) (machine.ring.slots head count) unreturned
        after ∧
      after.ring.buffer = machine.ring.buffer ∧
      after.ring.readingIndex = ((head + count) % 100 : Nat) ∧
      after.ring.bufferLength = (length - count : Nat) := by
  induction count with
  | zero => exact ⟨_, machine, .start, rfl, by rw [reading]; omega, counted⟩
  | succ count inductionHypothesis =>
      obtain ⟨unreturned, middle, run, sameBuffer, nowReading, nowLength⟩ :=
        inductionHypothesis (by omega)
      have step := kgetc_eq (by rw [nowLength]; omega) (Nat.mod_lt _ (by decide)) nowReading
      have extended := run.kgetc step
      rw [← List.replicate_succ'] at extended
      have slot : Fin.ofNat 100 ((head + count) % 100) = RingQueue.slot 100 head count := by
        ext
        simp
      have outputs : machine.ring.slots head (count + 1) =
          machine.ring.slots head count ++
            [middle.ring.buffer (Fin.ofNat 100 ((head + count) % 100))] := by
        rw [sameBuffer, slot, Ring.slots, List.range_succ, List.map_append]
        rfl
      rw [outputs]
      refine ⟨_, _, extended, sameBuffer, ?_, ?_⟩
      · simp only [Ring.take]
        omega
      · simp only [Ring.take, nowLength]
        rw [int8_eq (by omega) (by omega)]
        omega

@[simp] theorem Ring.length_slots (ring : Ring) (head count : Nat) :
    (ring.slots head count).length = count := by
  simp [Ring.slots]

theorem Ring.getElem_slots (ring : Ring) {i : Nat} (inside : i < (ring.slots head count).length) :
    (ring.slots head count)[i] = ring.buffer (RingQueue.slot 100 head i) := by
  simp [Ring.slots]

theorem Ring.dropLast_slots (ring : Ring) (head count : Nat) :
    (ring.slots head (count + 1)).dropLast = ring.slots head count := by
  rw [Ring.slots, List.range_succ, List.map_append, List.map_singleton, List.dropLast_concat,
    Ring.slots]

theorem reads_replicate (count : Nat) :
    reads (List.replicate count .kgetc) = count ∧
      typed (List.replicate count .kgetc) = [] := by
  constructor
  · rw [reads, List.count_replicate_self]
  · simp [typed, RingEvent.typed]

/-- The beginning of a run types at most what the whole run types. -/
theorem typed_prefix {before : List RingEvent} (isPrefix : before <+: events) :
    (typed before).length ≤ (typed events).length := by
  obtain ⟨rest, rfl⟩ := isPrefix
  rw [typed, typed, List.flatMap_append, List.length_append]
  exact Nat.le_add_right _ _

/-- What can be read without typing is what is expected. -/
theorem ReadsBack.slots_eq (readsBack : ReadsBack machine expected) (inArray : head < 100)
    (reading : machine.ring.readingIndex = head)
    (counted : machine.ring.bufferLength = expected.length) (few : expected.length ≤ 100) :
    machine.ring.slots head expected.length = expected := by
  obtain ⟨unreturned, after, run, _⟩ :=
    ringRun_reads inArray reading counted few expected.length (le_refl _)
  have roomy : RoomyAfter expected (List.replicate expected.length .kgetc) := by
    intro before isPrefix
    have none := typed_prefix isPrefix
    rw [(reads_replicate _).2, List.length_nil] at none
    omega
  obtain ⟨isPrefix, _⟩ := readsBack _ _ _ _ run roomy
  rw [(reads_replicate _).2, List.append_nil] at isPrefix
  exact isPrefix.eq_of_length (by simp)

/-- A character typed next is read after what is expected, so it goes to the slot behind. -/
theorem ReadsBack.writing_eq (readsBack : ReadsBack machine expected) (inArray : head < 100)
    (reading : machine.ring.readingIndex = head)
    (counted : machine.ring.bufferLength = expected.length) (few : expected.length < 100)
    (inWriting : index < 100) (writing : machine.ring.writingIndex = index) :
    Fin.ofNat 100 index = RingQueue.slot 100 head expected.length := by
  by_contra different
  -- A character that the slot behind does not hold.
  obtain ⟨key, isKey, other⟩ : ∃ key : UInt8, key ≠ 0 ∧
      key ≠ machine.ring.buffer (RingQueue.slot 100 head expected.length) := by
    by_cases isOne : machine.ring.buffer (RingQueue.slot 100 head expected.length) = 1
    · exact ⟨2, by decide, by rw [isOne]; decide⟩
    · exact ⟨1, by decide, fun same => isOne same.symm⟩
  have step := charWrite_eq isKey inWriting writing
  have typedRun := RingRun.start.charWrite step
  generalize typedMachine : ({ machine.kprintC key with ring := machine.ring.put index key } :
    Machine) = middle at step typedRun
  have ring : middle.ring = machine.ring.put index key := by rw [← typedMachine]
  have longer : middle.ring.bufferLength = (expected.length + 1 : Nat) := by
    rw [ring, Ring.put, counted]
    rw [int8_eq (by omega) (by omega)]
    rfl
  obtain ⟨unreturned, after, run, _⟩ := ringRun_reads inArray (by rw [ring]; exact reading)
    longer (by omega) (expected.length + 1) (le_refl _)
  obtain ⟨marks, whole⟩ := typedRun.trans run
  have typedAll : typed ([] ++ [.charWrite key] ++
      List.replicate (expected.length + 1) .kgetc) = [key] := by
    rw [typed, List.flatMap_append, ← typed, ← typed, (reads_replicate _).2, typed_charWrite,
      keystrokes_key isKey]
    rfl
  have roomy : RoomyAfter expected ([] ++ [.charWrite key] ++
      List.replicate (expected.length + 1) .kgetc) := by
    intro before isPrefix
    have atMostOne := typed_prefix isPrefix
    rw [typedAll, List.length_singleton] at atMostOne
    omega
  obtain ⟨isPrefix, _⟩ := readsBack _ _ _ _ whole roomy
  rw [typedAll, List.nil_append] at isPrefix
  have same := isPrefix.eq_of_length (by simp)
  have last : middle.ring.buffer (RingQueue.slot 100 head expected.length) = key := by
    have atEnd := congrArg (·[expected.length]?) same
    simpa [Ring.slots] using atEnd
  have buffer : middle.ring.buffer =
      Function.update machine.ring.buffer (Fin.ofNat 100 index) key := by
    rw [ring]
    rfl
  rw [buffer, Function.update_of_ne (Ne.symm different)] at last
  exact other last.symm

/-! ## Handling a backspace -/

/-- The ring after `backspace`, where `index` was the reading index. -/
def Ring.erased (ring : Ring) (index : Nat) : Ring where
  buffer := ring.buffer
  bufferLength := int8 (ring.bufferLength - 1)
  readingIndex := ((index + 99) % 100 : Nat)
  writingIndex := ring.writingIndex

theorem keyboardInterrupt_backspace (bound : index < 100)
    (reading : machine.ring.readingIndex = index) :
    keyboardInterrupt 0x0E machine =
      .ok ⟨⟩ { machine with ring := machine.ring.erased index } := by
  have wrapped : (if int8 ((index : Int) - 1) < 0 then 99 else int8 ((index : Int) - 1)) =
      (((index + 99) % 100 : Nat) : Int) := by
    rw [int8_eq (by omega) (by omega)]
    split <;> omega
  have code : getkey 0x0E = backspace >>= fun _ => pure 0 := rfl
  rw [keyboardInterrupt, code]
  change EStateM.Result.ok () { machine with ring := _ } = _
  congr 2
  simp only [reading]
  rw [Ring.erased, ← wrapped]
  split <;> rfl

/-- The characters that the variables of the ring count as unread. -/
def Ring.pending (ring : Ring) : List UInt8 :=
  ring.slots ring.readingIndex.toNat ring.bufferLength.toNat

/-- Backspace deletes the last unread character, or leaves an empty ring as it is. -/
def BackspaceDeletes (machine : Machine) : Prop :=
  ∃ after, keyboardInterrupt 0x0E machine = .ok ⟨⟩ after ∧
    (machine.ring.pending = [] -> after.ring = machine.ring) ∧
    (machine.ring.pending ≠ [] -> ReadsBack after machine.ring.pending.dropLast)

/-- The ring is out of step so far that the slot before the unread characters and all of
their slots but the last hold the same, and writing goes on in the last one. -/
structure BackspaceWorks (ring : Ring) : Prop where
  nonempty : 0 < ring.bufferLength
  behind : ring.writingIndex = (ring.readingIndex + ring.bufferLength - 2) % 100
  alike : ∀ i : Nat, (i + 1 : Int) < ring.bufferLength ->
    ring.buffer (RingQueue.slot 100 (ring.readingIndex.toNat + 99) i) =
      ring.buffer (RingQueue.slot 100 (ring.readingIndex.toNat + 99) (i + 1))

/-- Both indices are in the array. -/
structure Ring.Inside (ring : Ring) : Prop where
  reading : ∃ index < 100, ring.readingIndex = (index : Nat)
  writing : ∃ index < 100, ring.writingIndex = (index : Nat)

theorem slot_before (head i : Nat) :
    RingQueue.slot 100 ((head + 99) % 100) i = RingQueue.slot 100 (head + 99) i ∧
      RingQueue.slot 100 (head + 99) (i + 1) = RingQueue.slot 100 head i := by
  constructor
  · exact RingQueue.slot_congr (Nat.mod_mod _ _) i
  · ext
    simp only [RingQueue.slot_val]
    omega

theorem BackspaceWorks.deletes (inside : machine.ring.Inside)
    (atMost : machine.ring.bufferLength ≤ 100) (works : BackspaceWorks machine.ring) :
    BackspaceDeletes machine := by
  obtain ⟨head, inArray, reading⟩ := inside.reading
  obtain ⟨count, counted⟩ : ∃ count : Nat, machine.ring.bufferLength = (count + 1 : Nat) :=
    ⟨machine.ring.bufferLength.toNat - 1, by have := works.nonempty; omega⟩
  have behind := works.behind
  have alike := works.alike
  rw [reading, counted, Int.toNat_natCast] at alike
  rw [reading, counted] at behind
  have unread : machine.ring.pending = machine.ring.slots head (count + 1) := by
    rw [Ring.pending, reading, counted, Int.toNat_natCast, Int.toNat_natCast]
  have queue : (machine.ring.erased head).Queue ((head + 99) % 100)
      (machine.ring.slots head count) := by
    refine ⟨Nat.mod_lt _ (by decide), ⟨by simp; omega, fun i bound => ?_⟩, ?_, rfl, ?_⟩
    · rw [Ring.getElem_slots, (slot_before head i).1, ← (slot_before head i).2]
      rw [Ring.length_slots] at bound
      exact alike i (by omega)
    · have shorter : (machine.ring.erased head).bufferLength =
          int8 (machine.ring.bufferLength - 1) := rfl
      rw [shorter, counted, int8_eq (by omega) (by omega), Ring.length_slots]
      omega
    · have same : (machine.ring.erased head).writingIndex = machine.ring.writingIndex := rfl
      rw [same, Ring.length_slots]
      omega
  refine ⟨_, keyboardInterrupt_backspace inArray reading, fun empty => ?_, fun _ => ?_⟩
  · have length := congrArg List.length empty
    rw [unread, Ring.length_slots] at length
    cases length
  · rw [unread, Ring.dropLast_slots]
    exact queue.readsBack

theorem int8_sub_one_ne {count : Int} : int8 (count - 1) ≠ count := fun same => by
  rw [int8, Int.bmod_eq_iff (by decide)] at same
  omega

/-- Where backspace deletes the last character, the ring is so far out of step. -/
theorem BackspaceDeletes.works (inside : machine.ring.Inside)
    (atMost : machine.ring.bufferLength ≤ 100) (deletes : BackspaceDeletes machine) :
    BackspaceWorks machine.ring := by
  obtain ⟨head, inArray, reading⟩ := inside.reading
  obtain ⟨index, inWriting, writing⟩ := inside.writing
  obtain ⟨after, handled, leaves, readsBack⟩ := deletes
  rw [keyboardInterrupt_backspace inArray reading] at handled
  obtain rfl := (EStateM.Result.ok.inj handled).2
  by_cases empty : machine.ring.bufferLength ≤ 0
  · -- The length of a ring without characters changes all the same.
    have none : machine.ring.pending = [] := by
      rw [Ring.pending, Int.toNat_of_nonpos empty]
      rfl
    exact absurd (congrArg Ring.bufferLength (leaves none)) int8_sub_one_ne
  · obtain ⟨count, counted⟩ : ∃ count : Nat, machine.ring.bufferLength = (count + 1 : Nat) :=
      ⟨machine.ring.bufferLength.toNat - 1, by omega⟩
    have pending : machine.ring.pending = machine.ring.slots head (count + 1) := by
      rw [Ring.pending, reading, counted, Int.toNat_natCast, Int.toNat_natCast]
    have expects := readsBack (by
      intro none
      have length := congrArg List.length none
      rw [pending, Ring.length_slots] at length
      cases length)
    rw [pending, Ring.dropLast_slots] at expects
    have isLength : (machine.ring.slots head count).length = count :=
      Ring.length_slots machine.ring head count
    have erasedLength : (machine.ring.erased head).bufferLength =
        int8 (machine.ring.bufferLength - 1) := rfl
    have shorter : (machine.ring.erased head).bufferLength =
        (machine.ring.slots head count).length := by
      rw [erasedLength, counted, int8_eq (by omega) (by omega), isLength]
      omega
    have inside : (head + 99) % 100 < 100 := Nat.mod_lt _ (by decide)
    have same := expects.slots_eq inside rfl shorter (by omega)
    have behind := expects.writing_eq inside rfl shorter (by omega) inWriting writing
    rw [isLength] at same behind
    refine ⟨by omega, ?_, ?_⟩
    · have places := congrArg Fin.val behind
      rw [RingQueue.slot_val] at places
      have reduced : index % 100 = ((head + 99) % 100 + count) % 100 := places
      rw [reading, writing, counted]
      omega
    · intro i bound
      rw [reading, Int.toNat_natCast]
      have small : i < count := by omega
      have atSlot := congrArg (·[i]?) same
      have alike : (machine.ring.erased head).buffer
          (RingQueue.slot 100 ((head + 99) % 100) i) =
            machine.ring.buffer (RingQueue.slot 100 head i) := by
        simpa [Ring.slots, small] using atSlot
      rw [(slot_before head i).1, ← (slot_before head i).2] at alike
      exact alike

/-! ## Runs with backspaces -/

/-- What happens to the ring: a character is typed, read, or taken back. -/
inductive EditStep : Machine -> Machine -> Prop
  | charWrite (machine after : Machine) (key : UInt8)
      (step : charWrite key machine = .ok ⟨⟩ after) : EditStep machine after
  | kgetc (machine after : Machine) (returned : UInt8)
      (step : kgetc (pure ()) machine = .ok returned after) : EditStep machine after
  | backspace (machine after : Machine)
      (step : keyboardInterrupt 0x0E machine = .ok ⟨⟩ after) : EditStep machine after

namespace Ring.Inside

theorem initial : Ring.initial.Inside := ⟨⟨0, by decide, rfl⟩, ⟨0, by decide, rfl⟩⟩

theorem put (inside : ring.Inside) (index : Nat) (key : UInt8) : (ring.put index key).Inside :=
  ⟨inside.reading, ⟨_, Nat.mod_lt _ (by decide), rfl⟩⟩

theorem take (inside : ring.Inside) (index : Nat) : (ring.take index).Inside :=
  ⟨⟨_, Nat.mod_lt _ (by decide), rfl⟩, inside.writing⟩

theorem erased (inside : ring.Inside) (index : Nat) : (ring.erased index).Inside :=
  ⟨⟨_, Nat.mod_lt _ (by decide), rfl⟩, inside.writing⟩

end Ring.Inside

/-- Every event leaves the indices in the array. -/
theorem EditStep.inside (step : EditStep machine after) (inside : machine.ring.Inside) :
    after.ring.Inside := by
  cases step with
  | charWrite key step =>
      by_cases isKey : key = 0
      · rw [isKey, charWrite_nul] at step
        cases step
        exact inside
      · obtain ⟨index, bound, writing⟩ := inside.writing
        rw [charWrite_eq isKey bound writing] at step
        cases step
        exact inside.put index key
  | kgetc returned step =>
      by_cases empty : machine.ring.bufferLength = 0
      · rw [kgetc_blocked empty] at step
        cases step
      · obtain ⟨index, bound, reading⟩ := inside.reading
        rw [kgetc_eq empty bound reading] at step
        cases step
        exact inside.take index
  | backspace step =>
      obtain ⟨index, bound, reading⟩ := inside.reading
      rw [keyboardInterrupt_backspace bound reading] at step
      cases step
      exact inside.erased index

theorem inside_of_run (isInitial : start.ring = Ring.initial)
    (run : Relation.ReflTransGen EditStep start machine) : machine.ring.Inside := by
  induction run with
  | refl =>
      rw [isInitial]
      exact .initial
  | tail _ step inductionHypothesis => exact step.inside inductionHypothesis

theorem Ring.Queue.pending_eq (queue : ring.Queue head unread) : ring.pending = unread := by
  rw [Ring.pending, queue.reading, queue.length, Int.toNat_natCast, Int.toNat_natCast]
  apply List.ext_getElem (by simp)
  intro i inSlots inUnread
  rw [Ring.getElem_slots]
  exact queue.holds.2 i inUnread

/-- In step with its queue a ring loses its first character on a backspace, not its last. -/
theorem Ring.Queue.not_deletes (queue : machine.ring.Queue head unread) :
    ¬BackspaceDeletes machine := by
  intro deletes
  have inArray := queue.inArray
  have length := queue.length
  have atMost := queue.holds.1
  have reading := queue.reading
  have writing := queue.writing
  have inside : machine.ring.Inside :=
    ⟨⟨head, inArray, reading⟩, ⟨_, queue.writing_lt, writing⟩⟩
  have behind := (deletes.works inside (by omega)).behind
  omega

/-- In every state of every run from the initial ring a backspace deletes the last unread
character exactly if the ring is out of step in this way; and it never does in a run
without earlier backspaces, where the ring holds what was typed and not read. -/
theorem backspace_deletes_last_iff {start : Machine} (isInitial : start.ring = Ring.initial) :
    (∀ machine, Relation.ReflTransGen EditStep start machine ->
      machine.ring.bufferLength ≤ 100 ->
      (BackspaceDeletes machine ↔ BackspaceWorks machine.ring)) ∧
    ∀ events outputs unreturned machine, RingRun start events outputs unreturned machine ->
      Roomy events ->
      outputs ++ machine.ring.pending = typed events ∧ ¬BackspaceDeletes machine := by
  constructor
  · intro machine run atMost
    have inside := inside_of_run isInitial run
    exact ⟨fun deletes => deletes.works inside atMost,
      fun works => works.deletes inside atMost⟩
  · intro events outputs unreturned machine run roomy
    obtain ⟨head, unread, state⟩ := run.state isInitial roomy
    rw [state.queue.pending_eq]
    exact ⟨state.fifo, state.queue.not_deletes⟩

/-- The ring after boot. -/
theorem backspace_deletes_last_iff_bootMachine :
    BackspaceDeletes (bootMachine fun _ => 0) ↔ BackspaceWorks Ring.initial :=
  (backspace_deletes_last_iff rfl).1 (bootMachine fun _ => 0) .refl (by decide)

/-- After "ab" a backspace leaves a ring that gives back a NUL and not the "a". -/
theorem backspace_keeps_last :
    ∃ machine after, RingRun (bootMachine fun _ => 0) [.charWrite 97, .charWrite 98] []
        (Function.update (Function.update (fun _ => false) 0 true) 1 true) machine ∧
      machine.ring.pending = [97, 98] ∧
      keyboardInterrupt 0x0E machine = .ok ⟨⟩ after ∧
      after.ring.pending = [0] ∧ ¬BackspaceDeletes machine := by
  have first := RingRun.start.charWrite
    (@charWrite_eq (bootMachine fun _ => 0) 97 0 (by decide) (by decide) rfl)
  have second := first.charWrite (@charWrite_eq _ 98 1 (by decide) (by decide) rfl)
  have roomy : Roomy ([] ++ [.charWrite 97] ++ [.charWrite 98]) :=
    Roomy.of_length_le (by decide)
  obtain ⟨head, unread, state⟩ := second.state rfl roomy
  exact ⟨_, _, second, rfl, keyboardInterrupt_backspace (by decide) rfl, rfl,
    state.queue.not_deletes⟩

end StarterKernel
