import StarterKernel.Keyboard.Ring

/-!
# What is read is what was typed

Over any interleaving of key interrupts and reads in which at most 100 characters
are unread, the reads return the typed characters in order.
-/

namespace StarterKernel

open Kernel StateError

/-! ## Interleavings of typing and reading -/

/-- What can happen to the buffer. -/
inductive RingEvent
  | charWrite (key : UInt8)
  | kgetc
  deriving DecidableEq

/-- The characters that go to the buffer. -/
def keystrokes (keys : List UInt8) : List UInt8 := keys.filter (· ≠ 0)

/-- The characters an event types. -/
def RingEvent.typed : RingEvent -> List UInt8
  | .charWrite key => keystrokes [key]
  | .kgetc => []

/-- The characters the events type. -/
def typed (events : List RingEvent) : List UInt8 := events.flatMap RingEvent.typed

/-- How many characters the events read. -/
def reads (events : List RingEvent) : Nat := events.count .kgetc

/-- The slot with the given index, which is in bounds when the access goes
through. -/
def slotAt (index : Int) : Fin 100 := Fin.ofNat 100 index.toNat

/-- The runs from `start`: the events so far, the characters that `kgetc`
returned, the slots whose characters it has not returned yet, and the machine. -/
inductive RingRun (start : Machine) :
    List RingEvent -> List UInt8 -> (Fin 100 -> Bool) -> Machine -> Prop
  | start : RingRun start [] [] (fun _ => false) start
  | charWrite {events outputs unreturned machine key after}
      (run : RingRun start events outputs unreturned machine)
      (step : charWrite key machine = .ok ⟨⟩ after) :
      RingRun start (events ++ [.charWrite key]) outputs
        (if key = 0 then unreturned
          else Function.update unreturned (slotAt machine.ring.writingIndex) true)
        after
  | kgetc {events outputs unreturned machine returned after}
      (run : RingRun start events outputs unreturned machine)
      (step : kgetc (pure ()) machine = .ok returned after) :
      RingRun start (events ++ [.kgetc]) (outputs ++ [returned])
        (Function.update unreturned (slotAt machine.ring.readingIndex) false) after

/-- There are never more than 100 unread characters. -/
def Roomy (events : List RingEvent) : Prop :=
  ∀ before, before <+: events -> (typed before).length ≤ reads before + 100

section Events

variable {events : List RingEvent} {event : RingEvent} {key : UInt8}

theorem keystrokes_key (isKey : key ≠ 0) : keystrokes [key] = [key] := by
  simp [keystrokes, isKey]

@[simp] theorem typed_charWrite :
    typed (events ++ [.charWrite key]) = typed events ++ keystrokes [key] := by
  simp [typed, RingEvent.typed]

@[simp] theorem typed_kgetc : typed (events ++ [.kgetc]) = typed events := by
  simp [typed, RingEvent.typed]

@[simp] theorem reads_charWrite : reads (events ++ [.charWrite key]) = reads events := by
  simp [reads]

@[simp] theorem reads_kgetc : reads (events ++ [.kgetc]) = reads events + 1 := by
  simp [reads]

/-- An event types at most one character. -/
theorem typed_length_le (events : List RingEvent) :
    (typed events).length ≤ events.length := by
  induction events with
  | nil => exact Nat.le_refl _
  | cons event events inductionHypothesis =>
      have atMostOne : event.typed.length ≤ 1 := by
        cases event with
        | charWrite key =>
            rw [RingEvent.typed, keystrokes]
            exact List.length_filter_le _ [key]
        | kgetc => exact Nat.zero_le _
      rw [typed, List.flatMap_cons, List.length_append, List.length_cons]
      exact (Nat.add_le_add atMostOne inductionHypothesis).trans_eq (Nat.add_comm _ _)

theorem Roomy.of_length_le (short : events.length ≤ 100) : Roomy events := by
  intro before isPrefix
  have few := typed_length_le before
  have length := isPrefix.length_le
  omega

theorem Roomy.init (roomy : Roomy (events ++ [event])) : Roomy events :=
  fun before isPrefix => roomy before (isPrefix.trans (List.prefix_append _ _))

theorem Roomy.last (roomy : Roomy events) :
    (typed events).length ≤ reads events + 100 :=
  roomy events (List.prefix_refl _)

end Events

/-! ## The state of a run -/

variable {start machine after : Machine} {head : Nat} {unread outputs : List UInt8}
variable {events : List RingEvent} {key returned : UInt8}
variable {unreturned : Fin 100 -> Bool}

/-- A key interrupt extends the queue by the character, unless it is NUL. -/
theorem charWrite_keystrokes
    (queue : machine.ring.Queue head unread)
    (room : (unread ++ keystrokes [key]).length ≤ 100) :
    ∃ (ring : Ring) (terminal : List UInt8),
      ring.Queue head (unread ++ keystrokes [key]) ∧
      charWrite key machine =
        .ok ⟨⟩ { machine with ring := ring, terminal := terminal } := by
  by_cases isKey : key = 0
  · subst isKey
    have extended : unread ++ keystrokes [0] = unread := List.append_nil unread
    rw [extended]
    exact ⟨machine.ring, machine.terminal, queue, charWrite_nul machine⟩
  · rw [keystrokes_key isKey] at room ⊢
    have notFull : unread.length + 1 ≤ 100 := by simpa using room
    obtain ⟨ring, pushed, run⟩ := charWrite_queue queue isKey notFull
    exact ⟨ring, _, pushed, run⟩

/-- The buffer of a machine that a run reaches: it holds the characters typed and
not returned, and their slots are the ones marked as such. -/
structure RingState (events : List RingEvent) (outputs : List UInt8)
    (unreturned : Fin 100 -> Bool) (ring : Ring) (head : Nat) (unread : List UInt8) :
    Prop where
  queue : ring.Queue head unread
  fifo : outputs ++ unread = typed events
  count : outputs.length = reads events
  marks : ∀ place, unreturned place = true ↔
    RingQueue.Occupied head unread.length place

namespace RingState

variable {ring : Ring}

theorem initial : RingState [] [] (fun _ => false) Ring.initial 0 [] where
  queue := Ring.queue_initial
  fifo := rfl
  count := rfl
  marks := fun place => by simp [RingQueue.not_occupied_zero]

/-- The unread characters are counted by the events. -/
theorem unread_length
    (state : RingState events outputs unreturned ring head unread) :
    (typed events).length = reads events + unread.length := by
  rw [← state.fifo, List.length_append, state.count]

theorem slotAt_writing
    (state : RingState events outputs unreturned ring head unread) :
    slotAt ring.writingIndex = RingQueue.slot 100 head unread.length := by
  ext
  rw [slotAt, state.queue.writing, Int.toNat_natCast, RingQueue.slot_val]
  exact Nat.mod_mod _ _

theorem slotAt_reading
    (state : RingState events outputs unreturned ring head unread) :
    slotAt ring.readingIndex = RingQueue.slot 100 head 0 := by
  ext
  simp [slotAt, state.queue.reading]

/-- A key interrupt with room for its character. -/
theorem charWrite
    (state : RingState events outputs unreturned machine.ring head unread)
    (room : (unread ++ keystrokes [key]).length ≤ 100)
    (step : Kernel.charWrite key machine = .ok ⟨⟩ after) :
    RingState (events ++ [.charWrite key]) outputs
      (if key = 0 then unreturned
        else Function.update unreturned (slotAt machine.ring.writingIndex) true)
      after.ring head (unread ++ keystrokes [key]) := by
  obtain ⟨ring, terminal, pushed, run⟩ := charWrite_keystrokes state.queue room
  rw [run] at step
  cases step
  refine ⟨pushed, ?_, ?_, fun place => ?_⟩
  · rw [← List.append_assoc, state.fifo, typed_charWrite]
  · rw [state.count, reads_charWrite]
  · by_cases isKey : key = 0
    · subst isKey
      have extended : unread ++ keystrokes [0] = unread := List.append_nil unread
      rw [if_pos rfl, extended]
      exact state.marks place
    · rw [if_neg isKey, keystrokes_key isKey, List.length_append, List.length_singleton,
        RingQueue.occupied_push, state.slotAt_writing, ← state.marks place]
      by_cases isTail : place = RingQueue.slot 100 head unread.length
      · simp [isTail]
      · simp [isTail, Function.update_of_ne]

/-- A read, which finds a character in the buffer. -/
theorem kgetc
    (state : RingState events outputs unreturned machine.ring head unread)
    (step : Kernel.kgetc (pure ()) machine = .ok returned after) :
    ∃ rest, unread = returned :: rest ∧
      RingState (events ++ [.kgetc]) (outputs ++ [returned])
        (Function.update unreturned (slotAt machine.ring.readingIndex) false)
        after.ring ((head + 1) % 100) rest := by
  cases unread with
  | nil =>
      rw [kgetc_empty state.queue] at step
      cases step
  | cons oldest rest =>
      obtain ⟨ring, popped, run⟩ := kgetc_queue state.queue
      rw [run] at step
      cases step
      refine ⟨rest, rfl, popped, ?_, ?_, fun place => ?_⟩
      · rw [typed_kgetc, ← state.fifo, List.append_assoc, List.singleton_append]
      · rw [List.length_append, state.count, reads_kgetc, List.length_singleton]
      · rw [RingQueue.occupied_congr (Nat.mod_mod (head + 1) 100),
          RingQueue.occupied_pop state.queue.holds.1, state.slotAt_reading,
          ← List.length_cons, ← state.marks place]
        by_cases isFirst : place = RingQueue.slot 100 head 0
        · simp [isFirst]
        · simp [isFirst, Function.update_of_ne]

end RingState

/-- In every state of a run with at most 100 unread characters the buffer is the
queue of the unread characters. -/
theorem RingRun.state
    (run : RingRun start events outputs unreturned machine)
    (isInitial : start.ring = Ring.initial) (roomy : Roomy events) :
    ∃ head unread,
      RingState events outputs unreturned machine.ring head unread := by
  induction run with
  | start =>
      rw [isInitial]
      exact ⟨0, [], .initial⟩
  | @charWrite events outputs unreturned machine key after run step
      inductionHypothesis =>
      obtain ⟨head, unread, state⟩ := inductionHypothesis roomy.init
      have room : (unread ++ keystrokes [key]).length ≤ 100 := by
        have bound := roomy.last
        rw [typed_charWrite, reads_charWrite, List.length_append,
          state.unread_length] at bound
        rw [List.length_append]
        omega
      exact ⟨head, _, state.charWrite room step⟩
  | kgetc run step inductionHypothesis =>
      obtain ⟨head, unread, state⟩ := inductionHypothesis roomy.init
      obtain ⟨rest, -, popped⟩ := state.kgetc step
      exact ⟨_, rest, popped⟩

end StarterKernel
