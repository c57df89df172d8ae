import StarterKernel.Kernel.SystemCalls
import StarterKernel.Library.RingQueue
import StarterKernel.Library.StateError

/-!
# The keyboard buffer as a queue

While at most 100 characters are unread, the circular buffer holds them in the
order they were typed, from the slot of `reading_index` on.
-/

namespace StarterKernel

open Kernel StateError

/-- The buffer has slots. -/
instance neZero_slots : NeZero 100 := ⟨by decide⟩

/-- The buffer holds `unread` from the slot `head` on. -/
structure Ring.Queue (ring : Ring) (head : Nat) (unread : List UInt8) : Prop where
  inArray : head < 100
  holds : RingQueue.Holds ring.buffer head unread
  length : ring.bufferLength = unread.length
  reading : ring.readingIndex = head
  writing : ring.writingIndex = ((head + unread.length) % 100 : Nat)

variable {machine : Machine} {ring : Ring} {key returned : UInt8}
variable {head : Nat} {unread : List UInt8}

theorem Ring.queue_initial : Ring.initial.Queue 0 [] where
  inArray := by decide
  holds := .empty _ 0
  length := rfl
  reading := rfl
  writing := rfl

/-- The conversion to `int8_t` keeps the values of that type. -/
theorem int8_eq {value : Int} (low : -128 ≤ value) (high : value < 128) :
    int8 value = value :=
  Int.bmod_eq_of_le low high

/-! ## The operations of the buffer -/

section Operations

variable {index : Nat}

theorem bufferSlot_eq (bound : index < 100) (machine : Machine) :
    bufferSlot index machine = .ok (Fin.ofNat 100 index) machine := by
  have inBounds : 0 ≤ (index : Int) ∧ (index : Int) < 100 := by omega
  rw [bufferSlot, dif_pos inBounds]
  congr 1
  ext
  simp only [Int.toNat_natCast, Fin.ofNat, Nat.mod_eq_of_lt bound]

theorem getRing_apply (machine : Machine) :
    getRing machine = .ok machine.ring machine := rfl

theorem modifyRing_apply (change : Ring -> Ring) (machine : Machine) :
    modifyRing change machine = .ok ⟨⟩ { machine with ring := change machine.ring } :=
  rfl

/-- The ring after a character was written at its writing index. -/
def Ring.put (ring : Ring) (index : Nat) (key : UInt8) : Ring where
  buffer := Function.update ring.buffer (Fin.ofNat 100 index) key
  bufferLength := int8 (ring.bufferLength + 1)
  readingIndex := ring.readingIndex
  writingIndex := ((index + 1) % 100 : Nat)

/-- The ring after a character was taken at its reading index. -/
def Ring.take (ring : Ring) (index : Nat) : Ring where
  buffer := ring.buffer
  bufferLength := int8 (ring.bufferLength - 1)
  readingIndex := ((index + 1) % 100 : Nat)
  writingIndex := ring.writingIndex

/-- An index that steps through the array starts over at its end. -/
theorem wrappedIndex (bound : index < 100) :
    (if 100 ≤ int8 ((index : Int) + 1) then 0 else int8 ((index : Int) + 1)) =
      (((index + 1) % 100 : Nat) : Int) := by
  rw [int8_eq (by omega) (by omega)]
  split <;> omega

theorem charWrite_nul (machine : Machine) : charWrite 0 machine = .ok ⟨⟩ machine := rfl

theorem charWrite_eq
    (isKey : key ≠ 0) (bound : index < 100)
    (writing : machine.ring.writingIndex = index) :
    charWrite key machine =
      .ok ⟨⟩ { machine.kprintC key with ring := machine.ring.put index key } := by
  have printed : (machine.kprintC key).ring.writingIndex = index := writing
  rw [charWrite, if_pos isKey, bind_of_ok (modify_apply _ machine),
    bind_of_ok (getRing_apply _), printed, bind_of_ok (bufferSlot_eq bound _),
    modifyRing_apply]
  congr 2
  have wrapped := wrappedIndex bound
  simp only [Machine.kprintC, writing]
  rw [Ring.put, ← wrapped]
  split <;> rfl

theorem kgetc_blocked (empty : machine.ring.bufferLength = 0) :
    kgetc (pure ()) machine = .error .blocked machine := by
  rw [kgetc, bind_of_ok (pure_apply () machine), bind_of_ok (getRing_apply machine),
    if_pos empty, throw_apply]

theorem kgetc_eq
    (nonempty : machine.ring.bufferLength ≠ 0) (bound : index < 100)
    (reading : machine.ring.readingIndex = index) :
    kgetc (pure ()) machine =
      .ok (machine.ring.buffer (Fin.ofNat 100 index))
        { machine with ring := machine.ring.take index } := by
  rw [kgetc, bind_of_ok (pure_apply () machine), bind_of_ok (getRing_apply machine),
    if_neg nonempty, bind_of_ok (getRing_apply machine), reading,
    bind_of_ok (bufferSlot_eq bound machine), bind_of_ok (getRing_apply machine),
    bind_of_ok (modifyRing_apply _ machine), pure_apply]
  congr 2
  have wrapped := wrappedIndex bound
  simp only [reading]
  rw [Ring.take, ← wrapped]
  split <;> rfl

/-- The interrupts of a `kgetc` come first. -/
theorem kgetc_interrupts (interrupts : Kernel Unit) :
    kgetc interrupts = interrupts >>= fun _ => kgetc (pure ()) := by
  rfl

end Operations

/-! ## The operations on the queue -/

namespace Ring.Queue

theorem writing_lt (_queue : ring.Queue head unread) :
    (head + unread.length) % 100 < 100 :=
  Nat.mod_lt _ (by decide)

/-- A character goes to the end of a queue that is not full. -/
theorem put
    (queue : ring.Queue head unread) (room : unread.length < 100) (key : UInt8) :
    (ring.put ((head + unread.length) % 100) key).Queue head (unread ++ [key]) where
  inArray := queue.inArray
  holds := by
    have pushed := queue.holds.push room key
    have sameSlot :
        Fin.ofNat 100 ((head + unread.length) % 100) =
          RingQueue.slot 100 head unread.length := by
      ext
      simp
    rwa [Ring.put, sameSlot]
  length := by
    rw [Ring.put, queue.length, int8_eq (by omega) (by omega), List.length_append]
    rfl
  reading := queue.reading
  writing := by
    simp only [Ring.put, List.length_append, List.length_singleton]
    omega

/-- Taking a character removes the first of the queue. -/
theorem take (queue : ring.Queue head (returned :: unread)) :
    (ring.take head).Queue ((head + 1) % 100) unread where
  inArray := Nat.mod_lt _ (by decide)
  holds := queue.holds.pop.congr_head (Nat.mod_mod _ _).symm
  length := by
    have atMost : unread.length + 1 ≤ 100 := queue.holds.1
    simp only [Ring.take, queue.length, List.length_cons]
    rw [int8_eq (by omega) (by omega)]
    omega
  reading := rfl
  writing := by
    simp only [Ring.take, queue.writing, List.length_cons]
    omega

theorem front (queue : ring.Queue head (returned :: unread)) :
    ring.buffer (Fin.ofNat 100 head) = returned :=
  queue.holds.front

end Ring.Queue

/-- Typing a character while fewer than 100 are unread. -/
theorem charWrite_queue
    (queue : machine.ring.Queue head unread) (isKey : key ≠ 0)
    (room : unread.length < 100) :
    ∃ ring : Ring, ring.Queue head (unread ++ [key]) ∧
      charWrite key machine = .ok ⟨⟩ { machine.kprintC key with ring := ring } :=
  ⟨_, queue.put room key, charWrite_eq isKey queue.writing_lt queue.writing⟩

/-- Reading takes the character typed first. -/
theorem kgetc_queue (queue : machine.ring.Queue head (returned :: unread)) :
    ∃ ring : Ring, ring.Queue ((head + 1) % 100) unread ∧
      kgetc (pure ()) machine = .ok returned { machine with ring := ring } := by
  refine ⟨_, queue.take, ?_⟩
  have nonempty : machine.ring.bufferLength ≠ 0 := by
    rw [queue.length, List.length_cons]
    omega
  rw [kgetc_eq nonempty queue.inArray queue.reading, queue.front]

/-- Reading from an empty buffer does not return. -/
theorem kgetc_empty (queue : machine.ring.Queue head []) :
    kgetc (pure ()) machine = .error .blocked machine :=
  kgetc_blocked queue.length

end StarterKernel
