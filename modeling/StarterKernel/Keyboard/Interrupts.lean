import StarterKernel.Keyboard.Bounds

/-!
# Key interrupts during a read

The keyboard interrupt can come between any two accesses of `kgetc` to the variables of
the ring.  Between the load of `buffer_length` and its store it is lost to the counter:
the store puts the old value back, less one.
-/

namespace StarterKernel

open Kernel StateError

variable {start machine after : Machine} {returned : UInt8}
variable {written read hits : Nat}

/-! ## The accesses of `kgetc` -/

/-- How far a `kgetc` has come: not called, called, `buffer_length` found not to be zero,
the character taken, `reading_index` increased, `buffer_length` loaded, and stored. -/
inductive KgetcPoint
  | idle
  | called
  | tested
  | taken (returned : UInt8)
  | advanced (returned : UInt8)
  | loaded (returned : UInt8) (value : Int)
  | stored (returned : UInt8)
  deriving DecidableEq

/-- The ring with `reading_index` back at the beginning if it was at the end. -/
def Ring.wrapped (ring : Ring) : Ring :=
  if 100 ≤ ring.readingIndex then { ring with readingIndex := 0 } else ring

theorem Ring.wrapped_bufferLength (ring : Ring) :
    ring.wrapped.bufferLength = ring.bufferLength := by
  unfold Ring.wrapped
  split <;> rfl

theorem Ring.wrapped_writingIndex (ring : Ring) :
    ring.wrapped.writingIndex = ring.writingIndex := by
  unfold Ring.wrapped
  split <;> rfl

/-- One access of `kgetc`. -/
inductive KgetcAccess : KgetcPoint -> Machine -> KgetcPoint -> Machine -> Prop
  | call (machine : Machine) : KgetcAccess .idle machine .called machine
  | wait (machine : Machine) (empty : machine.ring.bufferLength = 0) :
      KgetcAccess .called machine .called machine
  | test (machine : Machine) (nonempty : machine.ring.bufferLength ≠ 0) :
      KgetcAccess .called machine .tested machine
  | take (machine : Machine) (slot : Fin 100)
      (inBounds : bufferSlot machine.ring.readingIndex machine = .ok slot machine) :
      KgetcAccess .tested machine (.taken (machine.ring.buffer slot)) machine
  | advance (machine : Machine) (returned : UInt8) :
      KgetcAccess (.taken returned) machine (.advanced returned)
        { machine with ring := { machine.ring with
          readingIndex := int8 (machine.ring.readingIndex + 1) } }
  | load (machine : Machine) (returned : UInt8) :
      KgetcAccess (.advanced returned) machine
        (.loaded returned machine.ring.bufferLength) machine
  | store (machine : Machine) (returned : UInt8) (value : Int) :
      KgetcAccess (.loaded returned value) machine (.stored returned)
        { machine with ring := { machine.ring with bufferLength := int8 (value - 1) } }
  | wrap (machine : Machine) (returned : UInt8) :
      KgetcAccess (.stored returned) machine .idle
        { machine with ring := machine.ring.wrapped }

/-- One if the next access ends the call. -/
def KgetcPoint.returns : KgetcPoint -> Nat
  | .stored _ => 1
  | _ => 0

/-- One if `buffer_length` is loaded and not stored yet. -/
def KgetcPoint.inWindow : KgetcPoint -> Nat
  | .loaded _ _ => 1
  | _ => 0

/-- The runs of `kgetc` calls and key interrupts from `start` with at most 100 unread
characters, with the characters written, the characters returned, and the interrupts that
came between a load and its store. -/
inductive InterruptRun (start : Machine) :
    KgetcPoint -> Machine -> (written read hits : Nat) -> Prop
  | start : InterruptRun start .idle start 0 0 0
  | access {point machine written read hits next after}
      (run : InterruptRun start point machine written read hits)
      (step : KgetcAccess point machine next after) :
      InterruptRun start next after written (read + point.returns) hits
  | key {point machine written read hits key after}
      (run : InterruptRun start point machine written read hits) (isKey : key ≠ 0)
      (few : written + 1 ≤ read + 100) (step : charWrite key machine = .ok ⟨⟩ after) :
      InterruptRun start point after (written + 1) read (hits + point.inWindow)

/-- The next access, as a relation on the whole state. -/
def KgetcNext (before after : KgetcPoint × Machine) : Prop :=
  KgetcAccess before.1 before.2 after.1 after.2

/-- An uninterrupted `kgetc` goes through these accesses. -/
theorem kgetc_accesses (inside : machine.ring.Inside)
    (run : kgetc (pure ()) machine = .ok returned after) :
    Relation.ReflTransGen KgetcNext (.idle, machine) (.idle, after) := by
  have nonempty : machine.ring.bufferLength ≠ 0 := by
    intro empty
    rw [kgetc_blocked empty] at run
    cases run
  obtain ⟨index, bound, reading⟩ := inside.reading
  rw [kgetc_eq nonempty bound reading] at run
  cases run
  have slot : bufferSlot machine.ring.readingIndex machine =
      .ok (Fin.ofNat 100 index) machine := by
    rw [reading, bufferSlot_eq bound]
  have call : KgetcNext (.idle, machine) (.called, machine) := .call machine
  have test : KgetcNext (.called, machine) (.tested, machine) := .test machine nonempty
  have take : KgetcNext (.tested, machine) (.taken _, machine) := .take machine _ slot
  have advance : KgetcNext (.taken _, machine) (.advanced _, _) :=
    .advance machine (machine.ring.buffer (Fin.ofNat 100 index))
  have load : KgetcNext (.advanced _, _) (.loaded _ _, _) :=
    .load { machine with ring := { machine.ring with
      readingIndex := int8 (machine.ring.readingIndex + 1) } }
      (machine.ring.buffer (Fin.ofNat 100 index))
  have store : KgetcNext (.loaded _ _, _) (.stored _, _) :=
    .store { machine with ring := { machine.ring with
      readingIndex := int8 (machine.ring.readingIndex + 1) } }
      (machine.ring.buffer (Fin.ofNat 100 index)) machine.ring.bufferLength
  have wrap : KgetcNext (.stored _, _) (.idle, _) :=
    .wrap { machine with ring := { machine.ring with
      readingIndex := int8 (machine.ring.readingIndex + 1)
      bufferLength := int8 (machine.ring.bufferLength - 1) } }
      (machine.ring.buffer (Fin.ofNat 100 index))
  have wrapped := wrappedIndex bound
  have isTake : Ring.wrapped { machine.ring with
        readingIndex := int8 (machine.ring.readingIndex + 1)
        bufferLength := int8 (machine.ring.bufferLength - 1) } =
      machine.ring.take index := by
    rw [Ring.take, ← wrapped, Ring.wrapped, reading]
    split <;> rfl
  dsimp only at wrap
  rw [isTake] at wrap
  exact ((((((Relation.ReflTransGen.single call).tail test).tail take).tail advance).tail
    load).tail store).tail wrap

/-! ## The counter -/

/-- One from the test of `buffer_length` to the end of the call. -/
def KgetcPoint.begun : KgetcPoint -> Nat
  | .idle => 0
  | .called => 0
  | _ => 1

/-- The value that counts: between the load and the store it is the loaded one. -/
def KgetcPoint.counted (point : KgetcPoint) (ring : Ring) : Int :=
  match point with
  | .loaded _ value => value
  | _ => ring.bufferLength

/-- The counter holds the characters written and not returned, less the interrupts it
missed. -/
structure Counts (point : KgetcPoint) (ring : Ring) (written read hits : Nat) : Prop where
  writing : ∃ index < 100, ring.writingIndex = (index : Nat)
  few : written ≤ read + 100
  counted : point.counted ring = int8 (written - read - point.returns - hits)
  fits : hits = 0 -> read + point.begun ≤ written

namespace Counts

variable {point next : KgetcPoint}

theorem initial : Counts .idle Ring.initial 0 0 0 where
  writing := ⟨0, by decide, rfl⟩
  few := by omega
  counted := by decide
  fits := fun _ => le_refl _

/-- An access of `kgetc`: only the store and the return change what counts. -/
theorem access (counts : Counts point machine.ring written read hits)
    (step : KgetcAccess point machine next after) :
    Counts next after.ring written (read + point.returns) hits := by
  obtain ⟨writing, few, counted, fits⟩ := counts
  cases step with
  | call => exact ⟨writing, few, counted, fits⟩
  | wait _ empty => exact ⟨writing, few, counted, fits⟩
  | test _ nonempty =>
      refine ⟨writing, few, counted, fun noHits => ?_⟩
      have read_le := fits noHits
      have length : machine.ring.bufferLength = int8 (written - read - (0 : Nat) - hits) :=
        counted
      rw [int8_eq (by simp only [KgetcPoint.begun] at read_le; omega)
        (by simp only [KgetcPoint.begun] at read_le; omega)] at length
      simp only [KgetcPoint.begun, KgetcPoint.returns] at read_le ⊢
      omega
  | take _ slot inBounds => exact ⟨writing, few, counted, fits⟩
  | advance => exact ⟨writing, few, counted, fits⟩
  | load => exact ⟨writing, few, counted, fits⟩
  | store _ returned value =>
      refine ⟨writing, few, ?_, fits⟩
      have loaded : value = int8 (written - read - (0 : Nat) - hits) := counted
      change int8 (value - 1) = int8 (written - ((read + 0 : Nat) : Int) - (1 : Nat) - hits)
      rw [loaded, int8, int8, int8, Int.bmod_sub_bmod]
      congr 1
      omega
  | wrap =>
      refine ⟨?_, by simp only [KgetcPoint.returns]; omega, ?_, fun noHits => ?_⟩
      · rw [Ring.wrapped_writingIndex]
        exact writing
      · have length : machine.ring.bufferLength =
            int8 (written - read - (1 : Nat) - hits) := counted
        calc machine.ring.wrapped.bufferLength
            = int8 (written - read - (1 : Nat) - hits) := by
              rw [Ring.wrapped_bufferLength, length]
          _ = int8 (written - ((read + 1 : Nat) : Int) - (0 : Nat) - hits) := by
              congr 1
              omega
      · have read_le := fits noHits
        simp only [KgetcPoint.begun, KgetcPoint.returns] at read_le ⊢
        omega

/-- A key counts unless `buffer_length` is loaded and not stored yet. -/
theorem key {key : UInt8} (counts : Counts point machine.ring written read hits) (isKey : key ≠ 0)
    (room : written + 1 ≤ read + 100) (step : charWrite key machine = .ok ⟨⟩ after) :
    Counts point after.ring (written + 1) read (hits + point.inWindow) := by
  obtain ⟨writing, few, counted, fits⟩ := counts
  obtain ⟨index, bound, isIndex⟩ := writing
  rw [charWrite_eq isKey bound isIndex] at step
  cases step
  refine ⟨⟨_, Nat.mod_lt _ (by decide), rfl⟩, room, ?_, ?_⟩
  · have outside (same : point.counted machine.ring = machine.ring.bufferLength)
        (noWindow : point.inWindow = 0)
        (next : point.counted (machine.ring.put index key) =
          int8 (machine.ring.bufferLength + 1)) :
        point.counted (machine.ring.put index key) =
          int8 ((written + 1 : Nat) - read - point.returns - (hits + point.inWindow : Nat)) := by
      rw [next, ← same, counted, noWindow, int8, int8, int8, Int.bmod_add_bmod]
      congr 1
      omega
    cases point with
    | loaded returned value =>
        have loaded : value = int8 (written - read - (0 : Nat) - hits) := counted
        change value = int8 ((written + 1 : Nat) - read - (0 : Nat) - (hits + 1 : Nat))
        rw [loaded]
        congr 1
        omega
    | idle => exact outside rfl rfl rfl
    | called => exact outside rfl rfl rfl
    | tested => exact outside rfl rfl rfl
    | taken returned => exact outside rfl rfl rfl
    | advanced returned => exact outside rfl rfl rfl
    | stored returned => exact outside rfl rfl rfl
  · intro noHits
    have read_le := fits (by omega)
    omega

end Counts

theorem InterruptRun.counts {point : KgetcPoint} (isInitial : start.ring = Ring.initial)
    (run : InterruptRun start point machine written read hits) :
    Counts point machine.ring written read hits := by
  induction run with
  | start =>
      rw [isInitial]
      exact .initial
  | access _ step inductionHypothesis => exact inductionHypothesis.access step
  | key _ isKey few step inductionHypothesis => exact inductionHypothesis.key isKey few step

/-- Taking the interrupts that were lost off the counter leaves it as it was exactly if
they are a multiple of 256 and it is a value of its type. -/
theorem int8_sub_eq_iff {count : Int} {hits : Nat} (few : count ≤ 100) :
    int8 (count - hits) = count ↔ 256 ∣ hits ∧ -128 ≤ count := by
  rw [int8, Int.bmod_eq_iff (by decide)]
  omega

/-- Whenever no `kgetc` is in progress, `buffer_length` is the number of characters
written and not returned if no interrupt came between a load and its store; and it is
exactly if the number of the interrupts that did is a multiple of 256 and the difference
a value of its type. -/
theorem no_key_lost_iff {start machine : Machine} {written read hits : Nat}
    (isInitial : start.ring = Ring.initial)
    (run : InterruptRun start .idle machine written read hits) :
    (hits = 0 -> machine.ring.bufferLength = (written : Int) - read) ∧
      (machine.ring.bufferLength = (written : Int) - read ↔
        256 ∣ hits ∧ -128 ≤ (written : Int) - read) := by
  obtain ⟨_, few, counted, fits⟩ := run.counts isInitial
  have length : machine.ring.bufferLength = int8 (written - read - hits) := by
    rw [← sub_zero ((written : Int) - read)]
    exact counted
  have exact : machine.ring.bufferLength = (written : Int) - read ↔
      256 ∣ hits ∧ -128 ≤ (written : Int) - read := by
    rw [length]
    exact int8_sub_eq_iff (by omega)
  refine ⟨fun noHits => exact.mpr ?_, exact⟩
  have read_le : read + 0 ≤ written := fits noHits
  rw [noHits]
  exact ⟨dvd_zero _, by omega⟩

/-- The key a, its read up to the load of `buffer_length`. -/
theorem loaded_run :
    ∃ machine : Machine, machine.ring.writingIndex = (1 : Nat) ∧
      InterruptRun (bootMachine fun _ => 0) (.loaded 0x61 1) machine 1 0 0 := by
  have typed := InterruptRun.key .start (by decide) (by decide)
    (charWrite_eq (by decide : (0x61 : UInt8) ≠ 0) (by decide : 0 < 100)
      (rfl : (bootMachine fun _ => 0).ring.writingIndex = (0 : Nat)))
  exact ⟨_, rfl, typed |>.access (.call _) |>.access (.test _ (by decide))
    |>.access (.take _ 0 rfl) |>.access (.advance _ _) |>.access (.load _ _)⟩

/-- The key b is typed after that read. -/
theorem no_key_lost_iff_sample :
    ∃ machine, InterruptRun (bootMachine fun _ => 0) .idle machine 2 1 0 ∧
      machine.ring.bufferLength = ((2 : Nat) : Int) - (1 : Nat) := by
  obtain ⟨machine, writing, loaded⟩ := loaded_run
  have idle := loaded |>.access (.store _ _ _) |>.access (.wrap _ _)
  have typed := idle.key (by decide) (by decide)
    (charWrite_eq (by decide : (0x62 : UInt8) ≠ 0) (by decide : 1 < 100)
      ((Ring.wrapped_writingIndex _).trans writing))
  exact ⟨_, typed, (no_key_lost_iff rfl typed).1 rfl⟩

/-- The key b, typed before the store, is in the buffer and does not count. -/
theorem key_lost_between_load_and_store :
    ∃ machine, InterruptRun (bootMachine fun _ => 0) .idle machine 2 1 1 ∧
      machine.ring.bufferLength ≠ ((2 : Nat) : Int) - (1 : Nat) := by
  obtain ⟨machine, writing, loaded⟩ := loaded_run
  have typed := loaded.key (by decide) (by decide)
    (charWrite_eq (by decide : (0x62 : UInt8) ≠ 0) (by decide : 1 < 100) writing)
  have idle := typed |>.access (.store _ _ _) |>.access (.wrap _ _)
  refine ⟨_, idle, ?_⟩
  rw [Ring.wrapped_bufferLength]
  exact (by decide : int8 (1 - 1) ≠ ((2 : Nat) : Int) - (1 : Nat))

end StarterKernel
