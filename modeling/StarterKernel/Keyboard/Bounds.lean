import StarterKernel.Keyboard.Backspace

/-!
# The indices of the keyboard path

The arrays `keys` and `buffer` are used in bounds unless the keyboard sends the byte
0x80: the filter for key-up codes starts one above it.
-/

namespace StarterKernel

open Kernel StateError

variable {start machine after : Machine} {code : UInt8}

/-- A byte from the keyboard port, or a `kgetc`. -/
inductive PortEvent
  | scanCode (code : UInt8)
  | kgetc
  deriving DecidableEq

/-- Handle an event; a `kgetc` that finds the buffer empty goes on waiting. -/
def PortEvent.handle : PortEvent -> Kernel Unit
  | .scanCode code => keyboardInterrupt code
  | .kgetc => do
      if (← getRing).bufferLength ≠ 0 then
        let _ ← Kernel.kgetc (pure ())

/-- A code of the table types a character and changes nothing. -/
theorem getkey_ok (notBackspace : code ≠ 0x0E) (inTable : code ≠ 0x80) :
    ∃ key, ∀ machine, getkey code machine = .ok key machine := by
  unfold getkey
  split_ifs with isEscape isControl isShift isAlt isCaps isRelease small
  · exact ⟨0, fun _ => rfl⟩
  · exact ⟨0, fun _ => rfl⟩
  · exact ⟨0, fun _ => rfl⟩
  · exact ⟨0, fun _ => rfl⟩
  · exact ⟨0, fun _ => rfl⟩
  · exact ⟨0, fun _ => rfl⟩
  · exact ⟨_, fun _ => rfl⟩
  · -- Between the table and the key-up codes there is one code.
    rw [UInt8.le_iff_toNat_le] at isRelease
    have same : code.toNat = 0x80 := by
      have release : (0x81 : UInt8).toNat = 0x81 := rfl
      omega
    exact absurd (UInt8.toNat_inj.mp same) inTable

theorem getkey_gap (machine : Machine) : getkey 0x80 machine = .error .outOfBounds machine := rfl

/-- Any other event is handled in bounds and leaves the indices in the array. -/
theorem PortEvent.handle_ok {event : PortEvent} (inside : machine.ring.Inside)
    (notGap : event ≠ .scanCode 0x80) :
    ∃ after, event.handle machine = .ok () after ∧ after.ring.Inside := by
  cases event with
  | scanCode code =>
      by_cases isBackspace : code = 0x0E
      · obtain ⟨index, bound, reading⟩ := inside.reading
        rw [PortEvent.handle, isBackspace, keyboardInterrupt_backspace bound reading]
        exact ⟨_, rfl, inside.erased index⟩
      · obtain ⟨key, typed⟩ := getkey_ok isBackspace (by simpa using notGap)
        rw [PortEvent.handle, keyboardInterrupt, bind_of_ok (typed machine)]
        by_cases isKey : key = 0
        · rw [isKey, charWrite_nul]
          exact ⟨machine, rfl, inside⟩
        · obtain ⟨index, bound, writing⟩ := inside.writing
          rw [charWrite_eq isKey bound writing]
          exact ⟨_, rfl, inside.put index key⟩
  | kgetc =>
      rw [PortEvent.handle, bind_of_ok (getRing_apply machine)]
      by_cases empty : machine.ring.bufferLength = 0
      · rw [if_neg (by simpa using empty)]
        exact ⟨machine, rfl, inside⟩
      · obtain ⟨index, bound, reading⟩ := inside.reading
        rw [if_pos empty, bind_of_ok (kgetc_eq empty bound reading)]
        exact ⟨_, rfl, inside.take index⟩

/-- A sequence of such events is. -/
theorem handleAll_ok {events : List PortEvent} (inside : machine.ring.Inside)
    (noGap : .scanCode 0x80 ∉ events) :
    ∃ after, events.forM PortEvent.handle machine = .ok () after ∧ after.ring.Inside := by
  induction events generalizing machine with
  | nil => exact ⟨machine, rfl, inside⟩
  | cons event events inductionHypothesis =>
      rw [List.mem_cons, not_or] at noGap
      obtain ⟨middle, run, stays⟩ := PortEvent.handle_ok inside (Ne.symm noGap.1)
      obtain ⟨after, rest, last⟩ := inductionHypothesis stays noGap.2
      exact ⟨after, by rw [forM_cons_apply, bind_of_ok run, rest], last⟩

/-- Events that are in bounds do not send the byte 0x80. -/
theorem noGap_of_inBounds {events : List PortEvent} (inside : machine.ring.Inside)
    (inBounds : ∀ after, events.forM PortEvent.handle machine ≠ .error .outOfBounds after) :
    .scanCode 0x80 ∉ events := by
  induction events generalizing machine with
  | nil => simp
  | cons event events inductionHypothesis =>
      by_cases gap : event = .scanCode 0x80
      · have fails : event.handle machine = .error .outOfBounds machine := by
          rw [gap, PortEvent.handle, keyboardInterrupt, bind_of_error (getkey_gap machine)]
        exact absurd (by rw [forM_cons_apply, bind_of_error fails]) (inBounds machine)
      · obtain ⟨middle, run, stays⟩ := PortEvent.handle_ok inside gap
        rw [List.mem_cons, not_or]
        refine ⟨Ne.symm gap, inductionHypothesis stays fun after fails => inBounds after ?_⟩
        rw [forM_cons_apply, bind_of_ok run, fails]

/-- From the initial ring every index into `keys` and `buffer` is in bounds exactly if the
byte 0x80 is not among those handled. -/
theorem keyboard_in_bounds_iff {start : Machine} (isInitial : start.ring = Ring.initial)
    (events : List PortEvent) :
    (∀ after, events.forM PortEvent.handle start ≠ .error .outOfBounds after) ↔
      .scanCode 0x80 ∉ events := by
  have inside : start.ring.Inside := by
    rw [isInitial]
    exact .initial
  refine ⟨noGap_of_inBounds inside, fun noGap after fails => ?_⟩
  obtain ⟨last, run, _⟩ := handleAll_ok inside noGap
  rw [run] at fails
  cases fails

/-- A key, its release, two backspaces and reads. -/
theorem keyboard_in_bounds_sample :
    (bootMachine fun _ => 0).ring = Ring.initial ∧
      ∀ after,
        [PortEvent.scanCode 0x1E, .scanCode 0x9E, .kgetc, .scanCode 0x0E, .kgetc,
          .scanCode 0x0E].forM PortEvent.handle (bootMachine fun _ => 0) ≠
            .error .outOfBounds after :=
  ⟨rfl, (keyboard_in_bounds_iff rfl _).mpr (by decide)⟩

/-- The byte 0x80 indexes `keys` behind its end. -/
theorem keyboard_out_of_bounds :
    [PortEvent.scanCode 0x80].forM PortEvent.handle (bootMachine fun _ => 0) =
      .error .outOfBounds (bootMachine fun _ => 0) := rfl

end StarterKernel
