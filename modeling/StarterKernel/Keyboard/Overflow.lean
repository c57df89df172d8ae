import StarterKernel.Keyboard.Fifo
import StarterKernel.Paging.BootTables

/-!
# The full keyboard buffer

`char_write` does not look at `buffer_length`: a character typed while 100 are
unread goes over the oldest of them.
-/

namespace StarterKernel

open Kernel StateError

variable {start machine : Machine} {outputs : List UInt8} {events : List RingEvent}
variable {event : RingEvent} {unreturned : Fin 100 -> Bool} {key : UInt8}

/-- In every state on the way `buffer_length` is between 0 and 100 and `kgetc`
blocks just when no character is unread, and no character is written over one
that `kgetc` has not returned yet. -/
def RingSafe (start : Machine) (events : List RingEvent) : Prop :=
  ∀ before outputs unreturned machine, before <+: events ->
    RingRun start before outputs unreturned machine ->
    (0 ≤ machine.ring.bufferLength ∧ machine.ring.bufferLength ≤ 100) ∧
    (kgetc (pure ()) machine = .error .blocked machine ↔
      (typed before).length = reads before) ∧
    ∀ key, key ≠ 0 -> before ++ [.charWrite key] <+: events ->
      unreturned (slotAt machine.ring.writingIndex) = false

theorem RingSafe.init (safe : RingSafe start (events ++ [event])) :
    RingSafe start events := by
  intro before outputs unreturned machine isPrefix run
  obtain ⟨bounds, blocks, keeps⟩ :=
    safe before outputs unreturned machine (isPrefix.trans (List.prefix_append _ _)) run
  exact ⟨bounds, blocks, fun key isKey next =>
    keeps key isKey (next.trans (List.prefix_append _ _))⟩

/-- One more event keeps the number of unread characters at most 100. -/
theorem Roomy.concat
    (roomy : Roomy events)
    (last : (typed (events ++ [event])).length ≤ reads (events ++ [event]) + 100) :
    Roomy (events ++ [event]) := by
  intro before isPrefix
  rcases List.prefix_concat_iff.mp isPrefix with whole | inside
  · subst whole
    exact last
  · exact roomy before inside

namespace RingState

variable {ring : Ring} {head : Nat} {unread : List UInt8}

/-- The next character goes over one that was not returned just when the buffer
is full. -/
theorem overwrites_iff
    (state : RingState events outputs unreturned ring head unread) :
    unreturned (slotAt ring.writingIndex) = true ↔ unread.length = 100 := by
  rw [state.marks, state.slotAt_writing, RingQueue.occupied_tail_iff state.queue.holds.1]

theorem blocked_iff
    (state : RingState events outputs unreturned machine.ring head unread) :
    Kernel.kgetc (pure ()) machine = .error .blocked machine ↔ unread = [] := by
  constructor
  · intro blocked
    cases unread with
    | nil => rfl
    | cons oldest others =>
        obtain ⟨ring, -, run⟩ := kgetc_queue state.queue
        rw [run] at blocked
        cases blocked
  · intro empty
    subst empty
    exact kgetc_empty state.queue

end RingState

/-- A run that never overwrites a character has at most 100 unread ones. -/
theorem RingRun.roomy_of_safe
    (run : RingRun start events outputs unreturned machine)
    (isInitial : start.ring = Ring.initial) (safe : RingSafe start events) :
    Roomy events := by
  induction run with
  | start =>
      intro before isPrefix
      rw [List.prefix_nil.mp isPrefix]
      exact Nat.zero_le _
  | @charWrite events outputs unreturned machine key after run step
      inductionHypothesis =>
      have roomy := inductionHypothesis safe.init
      obtain ⟨head, unread, state⟩ := run.state isInitial roomy
      obtain ⟨-, -, keeps⟩ := safe _ _ _ _ (List.prefix_append _ _) run
      refine roomy.concat ?_
      rw [typed_charWrite, reads_charWrite, List.length_append, state.unread_length]
      by_cases isKey : key = 0
      · subst isKey
        have bound := roomy.last
        rw [state.unread_length] at bound
        exact bound
      · have notFull : unread.length ≠ 100 := by
          intro full
          have overwrites := state.overwrites_iff.mpr full
          rw [keeps key isKey (List.prefix_refl _)] at overwrites
          cases overwrites
        have atMost := state.queue.holds.1
        rw [keystrokes_key isKey, List.length_singleton]
        omega
  | kgetc run step inductionHypothesis =>
      have roomy := inductionHypothesis safe.init
      have bound := roomy.last
      refine roomy.concat ?_
      rw [typed_kgetc, reads_kgetc]
      omega

/-- The keyboard buffer does not overflow in a run if and only if there are never
more than 100 unread characters in it. -/
theorem keyboardBuffer_safe_iff
    (isInitial : start.ring = Ring.initial)
    (run : RingRun start events outputs unreturned machine) :
    RingSafe start events ↔ Roomy events := by
  refine ⟨run.roomy_of_safe isInitial, fun roomy => ?_⟩
  intro before outputs unreturned machine isPrefix run
  have roomyBefore : Roomy before := fun earlier inside =>
    roomy earlier (inside.trans isPrefix)
  obtain ⟨head, unread, state⟩ := run.state isInitial roomyBefore
  have atMost := state.queue.holds.1
  have length := state.queue.length
  have counts := state.unread_length
  refine ⟨by omega, ?_, fun key isKey next => ?_⟩
  · rw [state.blocked_iff, ← List.length_eq_zero_iff]
    omega
  · have bound := roomy _ next
    rw [typed_charWrite, reads_charWrite, keystrokes_key isKey, List.length_append,
      List.length_singleton] at bound
    rw [Bool.eq_false_iff, Ne, state.overwrites_iff]
    omega

/-- Three events are safe. -/
theorem keyboardBuffer_safe_iff_bootMachine :
    ∃ outputs unreturned machine,
      RingRun (bootMachine fun _ => 0) [.charWrite 104, .kgetc, .charWrite 105] outputs
        unreturned machine ∧
      RingSafe (bootMachine fun _ => 0) [.charWrite 104, .kgetc, .charWrite 105] := by
  have first := RingRun.start.charWrite
    (@charWrite_eq (bootMachine fun _ => 0) 104 0 (by decide) (by decide) rfl)
  have second := first.kgetc (@kgetc_eq _ 0 (by decide) (by decide) rfl)
  have third := second.charWrite (@charWrite_eq _ 105 1 (by decide) (by decide) rfl)
  have roomy : Roomy ([] ++ [.charWrite 104] ++ [.kgetc] ++ [.charWrite 105]) :=
    Roomy.of_length_le (by decide)
  exact ⟨_, _, _, third, (keyboardBuffer_safe_iff rfl third).mpr roomy⟩

/-- Keys that fit the empty buffer can be typed. -/
theorem ringRun_replicate (isInitial : start.ring = Ring.initial) (key : UInt8)
    (count : Nat) (few : count ≤ 100) :
    ∃ unreturned machine,
      RingRun start (List.replicate count (.charWrite key)) [] unreturned machine := by
  induction count with
  | zero => exact ⟨_, _, .start⟩
  | succ count inductionHypothesis =>
      obtain ⟨unreturned, machine, run⟩ := inductionHypothesis (by omega)
      have roomy : Roomy (List.replicate count (.charWrite key)) :=
        Roomy.of_length_le (by rw [List.length_replicate]; omega)
      obtain ⟨head, unread, state⟩ := run.state isInitial roomy
      have fits : (unread ++ keystrokes [key]).length ≤ 100 := by
        have typedFew := typed_length_le (List.replicate count (.charWrite key))
        have atMostOne : (keystrokes [key]).length ≤ 1 := List.length_filter_le _ [key]
        rw [state.unread_length, List.length_replicate] at typedFew
        rw [List.length_append]
        omega
      obtain ⟨ring, terminal, -, step⟩ := charWrite_keystrokes state.queue fits
      rw [List.replicate_succ']
      exact ⟨_, _, run.charWrite step⟩

/-- The 101st key is written over the first, which was not read. -/
theorem keyboardBuffer_overflows :
    ¬ RingSafe (bootMachine fun _ => 0) (List.replicate 101 (.charWrite 97)) := by
  intro safe
  obtain ⟨unreturned, machine, run⟩ :=
    @ringRun_replicate (bootMachine fun _ => 0) rfl 97 100 (Nat.le_refl _)
  have roomy : Roomy (List.replicate 100 (.charWrite 97)) :=
    Roomy.of_length_le (by rw [List.length_replicate])
  obtain ⟨head, unread, state⟩ := run.state rfl roomy
  obtain ⟨-, -, keeps⟩ := safe _ _ _ _ (by decide) run
  have full : unread.length = 100 := by
    have counts := state.unread_length
    have total : (typed (List.replicate 100 (.charWrite 97))).length = 100 := by decide
    have none : reads (List.replicate 100 (.charWrite 97)) = 0 := by decide
    omega
  have overwrites := state.overwrites_iff.mpr full
  rw [keeps 97 (by decide) (by decide)] at overwrites
  cases overwrites

end StarterKernel
