import StarterKernel.Keyboard.Reads

/-!
# What a system call does with the buffer of its caller

`kread` and `kwrite` check no pointer.  They use the bytes `buf`, `buf + 1`, ... one
after the other, each of them through the page tables of that moment, and a call that
traps was refused the next byte or had to stop between two bytes.
-/

namespace StarterKernel

open Kernel StateError

/-- The kernel reaches the byte at an address: it is mapped, and writable if the
kernel writes it while the write-protect bit is set. -/
def Machine.Reaches
    (machine : Machine) (kind : AccessKind) (address : Nat) (mapped : Translation) :
    Prop :=
  Canonical address ∧
    translation machine.memory machine.root address = some mapped ∧
    (kind = .store -> (mapped.writable || !machine.writeProtect) = true)

/-- The machine after it recorded an access. -/
def Machine.record (machine : Machine) (kind : AccessKind) (address : Nat) : Machine :=
  { machine with callerAccesses := machine.callerAccesses ++ [(kind, address)] }

/-- What happens during a system call: the keyboard and the terminal change, and bytes
are read and written through the pointer of the caller. -/
inductive CallerRun (machine : Machine) : List (AccessKind × Nat) -> Machine -> Prop
  | start : CallerRun machine [] machine
  | keyboard {accesses : List (AccessKind × Nat)} {middle : Machine}
      (run : CallerRun machine accesses middle) (ring : Ring) (terminal : List UInt8) :
      CallerRun machine accesses (middle.withKeyboard ring terminal)
  | load {accesses : List (AccessKind × Nat)} {middle : Machine} {address : Nat}
      {mapped : Translation} (run : CallerRun machine accesses middle)
      (reaches : middle.Reaches .load address mapped) :
      CallerRun machine (accesses ++ [(.load, address)]) (middle.record .load address)
  | store {accesses : List (AccessKind × Nat)} {middle : Machine} {address : Nat}
      {mapped : Translation} (run : CallerRun machine accesses middle)
      (reaches : middle.Reaches .store address mapped) (value : UInt8) :
      CallerRun machine (accesses ++ [(.store, address)])
        { middle.record .store address with
          memory := Function.update middle.memory mapped.physical value }

/-- The first `count` accesses to the buffer at `buf`. -/
def bufferAccesses (kind : AccessKind) (buf count : Nat) : List (AccessKind × Nat) :=
  (List.range count).map fun i => (kind, (buf + i) % wordSize)

/-- How a call ends that goes through a buffer of `length` bytes. -/
inductive BufferCall {α : Type}
    (kind : AccessKind) (buf length : Nat) (machine : Machine) :
    EStateM.Result Trap Machine α -> Prop
  | returned {after : Machine} (value : α)
      (run : CallerRun machine (bufferAccesses kind buf length) after) :
      BufferCall kind buf length machine (.ok value after)
  | stopped {count : Nat} {after : Machine} (trap : Trap) (inside : count ≤ length)
      (run : CallerRun machine (bufferAccesses kind buf count) after) :
      BufferCall kind buf length machine (.error trap after)
  | refused {count : Nat} {middle : Machine} (trap : Trap) (inside : count < length)
      (run : CallerRun machine (bufferAccesses kind buf count) middle)
      (unreached : ∀ mapped, ¬middle.Reaches kind ((buf + count) % wordSize) mapped) :
      BufferCall kind buf length machine
        (.error trap (middle.record kind ((buf + count) % wordSize)))

variable {machine middle after : Machine} {kind : AccessKind}
variable {buf length numchars len i fuel address : Nat}
variable {accesses : List (AccessKind × Nat)} {mapped : Translation}

theorem bufferAccesses_succ (count : Nat) :
    bufferAccesses kind buf (count + 1) =
      bufferAccesses kind buf count ++ [(kind, (buf + count) % wordSize)] := by
  simp [bufferAccesses, List.range_succ]

/-- The call whose result is converted goes through the same accesses. -/
theorem BufferCall.bind_pure {α β : Type} {first : Kernel α} (convert : α -> β)
    (call : BufferCall kind buf length machine (first middle)) :
    BufferCall kind buf length machine
      ((first >>= fun value => pure (convert value)) middle) := by
  cases ends : first middle with
  | ok value final =>
      rw [ends] at call
      rw [bind_of_ok ends]
      cases call with
      | returned _ run => exact .returned (convert value) run
  | error trap final =>
      rw [ends] at call
      rw [bind_of_error ends]
      cases call with
      | stopped _ inside run => exact .stopped trap inside run
      | refused _ inside run unreached => exact .refused trap inside run unreached

/-! ## Single bytes -/

/-- A byte that the kernel reaches is read. -/
theorem callerLoad_ok (reaches : machine.Reaches .load address mapped) :
    callerLoad address machine =
      .ok (machine.memory mapped.physical) (machine.record .load address) := by
  obtain ⟨canonical, translates, -⟩ := reaches
  have recorded : callerLoad address machine =
      loadByte address (machine.record .load address) :=
    bind_of_ok (modify_apply _ machine)
  rw [recorded]
  exact loadByte_ok_iff.mpr ⟨canonical, ⟨mapped, translates, rfl⟩, rfl⟩

/-- A byte that is read, or refused. -/
theorem callerLoad_cases (address : Nat) (machine : Machine) :
    (∃ mapped, machine.Reaches .load address mapped ∧
      callerLoad address machine =
        .ok (machine.memory mapped.physical) (machine.record .load address)) ∨
    ∃ trap, (∀ mapped, ¬machine.Reaches .load address mapped) ∧
      callerLoad address machine = .error trap (machine.record .load address) := by
  have recorded : callerLoad address machine =
      loadByte address (machine.record .load address) :=
    bind_of_ok (modify_apply _ machine)
  rw [recorded]
  cases ends : loadByte address (machine.record .load address) with
  | ok byte after =>
      obtain ⟨canonical, ⟨mapped, translates, rfl⟩, rfl⟩ := loadByte_ok_iff.mp ends
      exact Or.inl ⟨mapped, ⟨canonical, translates, nofun⟩, rfl⟩
  | error trap after =>
      obtain rfl := (keeps_loadByte address).of_error ends
      refine Or.inr ⟨trap, fun mapped reaches => ?_, rfl⟩
      obtain ⟨canonical, translates, -⟩ := reaches
      have reads : loadByte address (machine.record .load address) =
          .ok (machine.memory mapped.physical) (machine.record .load address) :=
        loadByte_ok_iff.mpr ⟨canonical, ⟨mapped, translates, rfl⟩, rfl⟩
      rw [reads] at ends
      cases ends

/-- A byte that is written, or refused. -/
theorem callerStore_cases (address : Nat) (value : UInt8) (machine : Machine) :
    (∃ mapped, machine.Reaches .store address mapped ∧
      callerStore address value machine =
        .ok ⟨⟩ { machine.record .store address with
          memory := Function.update machine.memory mapped.physical value }) ∨
    ∃ trap, (∀ mapped, ¬machine.Reaches .store address mapped) ∧
      callerStore address value machine =
        .error trap (machine.record .store address) := by
  have recorded : callerStore address value machine =
      storeByte address value (machine.record .store address) :=
    bind_of_ok (modify_apply _ machine)
  rw [recorded]
  cases ends : storeByte address value (machine.record .store address) with
  | ok _ after =>
      obtain ⟨canonical, mapped, translates, allowed, rfl⟩ := storeByte_ok_iff.mp ends
      exact Or.inl ⟨mapped, ⟨canonical, translates, fun _ => allowed⟩, rfl⟩
  | error trap after =>
      obtain rfl := storeByte_error ends
      refine Or.inr ⟨trap, fun mapped reaches => ?_, rfl⟩
      obtain ⟨canonical, translates, allowed⟩ := reaches
      have writes : storeByte address value (machine.record .store address) =
          .ok ⟨⟩ { machine.record .store address with
            memory := Function.update machine.memory mapped.physical value } :=
        storeByte_ok_iff.mpr ⟨canonical, mapped, translates, allowed rfl, rfl⟩
      rw [writes] at ends
      cases ends

/-! ## The keyboard -/

/-- The machine without its keyboard buffer and its terminal. -/
def Machine.forgetKeyboard (machine : Machine) : Machine :=
  machine.withKeyboard .initial []

/-- Machines that only differ in the keyboard and the terminal. -/
theorem withKeyboard_of_forget (same : after.forgetKeyboard = machine.forgetKeyboard) :
    after = machine.withKeyboard after.ring after.terminal := by
  cases after
  cases machine
  simpa [Machine.forgetKeyboard, Machine.withKeyboard] using same

/-- The handler of the key interrupt, for each of the codes. -/
def keyInterrupts (codes : List UInt8) : Kernel Unit := codes.forM keyboardInterrupt

/-- The keyboard and the terminal of a machine put into another. -/
def Machine.takeKeyboard (other machine : Machine) : Machine :=
  other.withKeyboard machine.ring machine.terminal

/-- The computation neither uses nor changes anything but the keyboard and the
terminal. -/
def OnKeyboard {α : Type} (first : Kernel α) : Prop :=
  ∀ other : Machine, Commutes other.takeKeyboard first

namespace OnKeyboard

variable {α β : Type} {first other : Kernel α} {next : α -> Kernel β}

protected theorem pure (value : α) : OnKeyboard (pure value : Kernel α) :=
  fun _ => Commutes.pure value

protected theorem throw (trap : Trap) : OnKeyboard (throw trap : Kernel α) :=
  fun _ => Commutes.throw trap

protected theorem bind (keyboard : OnKeyboard first)
    (later : ∀ value, OnKeyboard (next value)) : OnKeyboard (first >>= next) :=
  fun machine => (keyboard machine).bind fun value => later value machine

protected theorem ite {condition : Prop} [Decidable condition]
    (keyboard : OnKeyboard first) (otherKeyboard : OnKeyboard other) :
    OnKeyboard (if condition then first else other) :=
  fun machine => (keyboard machine).ite (otherKeyboard machine)

theorem getRing : OnKeyboard Kernel.getRing := fun _ _ => rfl

theorem modifyRing (change : Ring -> Ring) : OnKeyboard (Kernel.modifyRing change) :=
  fun _ _ => rfl

theorem bufferSlot (index : Int) : OnKeyboard (Kernel.bufferSlot index) := by
  intro other machine
  unfold Kernel.bufferSlot
  split <;> rfl

theorem charWrite (key : UInt8) : OnKeyboard (Kernel.charWrite key) := by
  have printed : OnKeyboard (modify fun machine => machine.kprintC key : Kernel Unit) :=
    fun _ _ => rfl
  apply OnKeyboard.ite
  · apply printed.bind
    intro _
    apply getRing.bind
    intro ring
    apply (bufferSlot _).bind
    intro slot
    exact modifyRing _
  · exact OnKeyboard.pure _

theorem getkey (code : UInt8) : OnKeyboard (Kernel.getkey code) := by
  have nothing : OnKeyboard (pure 0 : Kernel UInt8) := OnKeyboard.pure _
  refine nothing.ite (OnKeyboard.ite ?_ (nothing.ite (nothing.ite (nothing.ite
    (nothing.ite (nothing.ite (OnKeyboard.ite ?_ ?_)))))))
  · exact (modifyRing _).bind fun _ => nothing
  · exact OnKeyboard.pure _
  · exact OnKeyboard.throw _

theorem keyInterrupts (codes : List UInt8) :
    OnKeyboard (StarterKernel.keyInterrupts codes) :=
  fun other => Commutes.forM (fun code => (getkey code).bind charWrite other) codes

theorem kgetc {interrupts : Kernel Unit} (keyboard : OnKeyboard interrupts) :
    OnKeyboard (Kernel.kgetc interrupts) := by
  apply keyboard.bind
  intro _
  apply getRing.bind
  intro ring
  apply OnKeyboard.ite
  · exact OnKeyboard.throw _
  · apply getRing.bind
    intro ring
    apply (bufferSlot _).bind
    intro slot
    apply getRing.bind
    intro ring
    exact (modifyRing _).bind fun _ => OnKeyboard.pure _

/-- Such a computation goes the same in a machine with the same keyboard. -/
theorem of_ok {value : α} (keyboard : OnKeyboard first)
    (run : first machine = .ok value after) (other : Machine)
    (sameRing : other.ring = machine.ring) (sameTerminal : other.terminal = machine.terminal) :
    first other = .ok value (other.takeKeyboard after) := by
  have same : other.takeKeyboard machine = other := by
    rw [Machine.takeKeyboard, ← sameRing, ← sameTerminal]
    rfl
  have moved := (keyboard other).of_ok run
  rwa [same] at moved

/-- It leaves the rest of the machine alone. -/
theorem eq_takeKeyboard {value : α} (keyboard : OnKeyboard first)
    (run : first machine = .ok value after) : after = machine.takeKeyboard after := by
  have same := keyboard.of_ok run machine rfl rfl
  rw [run] at same
  injection same

theorem keepsPart (keyboard : OnKeyboard first) :
    KeepsPart Machine.forgetKeyboard first := by
  intro machine
  have same : first machine = mapState machine.takeKeyboard (first machine) :=
    keyboard machine machine
  cases ends : first machine with
  | ok value after =>
      rw [ends] at same
      rw [same]
      rfl
  | error trap after =>
      rw [ends] at same
      rw [same]
      rfl

end OnKeyboard

theorem CallerRun.forgetKeyboard (run : CallerRun machine accesses middle)
    (same : after.forgetKeyboard = middle.forgetKeyboard) :
    CallerRun machine accesses after := by
  rw [withKeyboard_of_forget same]
  exact run.keyboard after.ring after.terminal

/-! ## The loops of `kread` and `kwrite` -/

/-- The rounds of `kread` from the `i`-th on store the bytes of the buffer from the
`i`-th on. -/
theorem kreadLoop_bufferCall {arrivals : Nat -> List UInt8} (inside : i ≤ numchars)
    (run : CallerRun machine (bufferAccesses .store buf i) middle) :
    BufferCall .store buf numchars machine
      (kreadLoop (fun i => keyInterrupts (arrivals i)) buf numchars fuel i middle) := by
  induction fuel generalizing i middle with
  | zero => exact .stopped .signedOverflow inside run
  | succ fuel inductionHypothesis =>
      rw [kreadLoop]
      by_cases more : i < numchars
      · rw [if_pos more]
        cases reads : kgetc (keyInterrupts (arrivals i)) middle with
        | error trap stopped =>
            rw [bind_of_error reads]
            exact .stopped trap inside
              (run.forgetKeyboard (OnKeyboard.kgetc (OnKeyboard.keyInterrupts _)
                |>.keepsPart.of_error reads))
        | ok ret typed =>
            have before : CallerRun machine (bufferAccesses .store buf i) typed :=
              run.forgetKeyboard (OnKeyboard.kgetc (OnKeyboard.keyInterrupts _)
                |>.keepsPart.of_ok reads)
            rw [bind_of_ok reads]
            rcases callerStore_cases ((buf + i) % wordSize) ret typed with
              ⟨mapped, reaches, stores⟩ | ⟨trap, unreached, refuses⟩
            · rw [bind_of_ok stores]
              apply inductionHypothesis more
              rw [bufferAccesses_succ]
              exact before.store reaches ret
            · rw [bind_of_error refuses]
              exact .refused trap more before unreached
      · obtain rfl : i = numchars := by omega
        rw [if_neg more]
        exact .returned () run

/-- `kread` stores the bytes of its buffer. -/
theorem kread_bufferCall (arrivals : Nat -> List UInt8) (buf numchars : Nat)
    (machine : Machine) :
    BufferCall .store buf numchars machine
      (kread (fun i => keyInterrupts (arrivals i)) buf numchars machine) :=
  BufferCall.bind_pure (fun _ => toInt32 numchars)
    (kreadLoop_bufferCall (Nat.zero_le _) .start)

/-- The rounds of `kwrite` from the `i`-th on load the bytes of the buffer from the
`i`-th on. -/
theorem kwriteLoop_bufferCall (inside : i ≤ len) (enough : len < i + fuel)
    (run : CallerRun machine (bufferAccesses .load buf i) middle) :
    BufferCall .load buf len machine
      (kwriteLoop len fuel i ((buf + i) % wordSize) middle) := by
  induction fuel generalizing i middle with
  | zero => omega
  | succ fuel inductionHypothesis =>
      rw [kwriteLoop]
      by_cases more : i < len
      · rw [if_pos more]
        rcases callerLoad_cases ((buf + i) % wordSize) middle with
          ⟨mapped, reaches, loads⟩ | ⟨trap, unreached, refuses⟩
        · rw [bind_of_ok loads, bind_of_ok (modify_apply _ _), Nat.mod_add_mod,
            Nat.add_assoc]
          apply inductionHypothesis more (by omega)
          rw [bufferAccesses_succ]
          exact (run.load reaches).keyboard _ _
        · rw [bind_of_error refuses]
          exact .refused trap more run unreached
      · obtain rfl : i = len := by omega
        rw [if_neg more]
        exact .returned () run

/-- `kwrite` loads the bytes of its buffer. -/
theorem kwrite_bufferCall (word : buf < wordSize) (length : len < wordSize)
    (machine : Machine) :
    BufferCall .load buf len machine (kwrite buf len machine) := by
  have start : (buf + 0) % wordSize = buf := Nat.mod_eq_of_lt word
  have loop := @kwriteLoop_bufferCall machine machine buf len 0 wordSize
    (Nat.zero_le _) (by omega) .start
  rw [start] at loop
  exact BufferCall.bind_pure (fun _ => toInt32 len) loop

/-! ## Printing a buffer -/

/-- The kernel reads these bytes in a buffer. -/
def Machine.HoldsBytes (machine : Machine) (buf len : Nat) (byte : Nat -> UInt8) : Prop :=
  ∀ i < len, ∃ mapped, machine.Reaches .load ((buf + i) % wordSize) mapped ∧
    byte i = machine.memory mapped.physical

/-- The machine after the first `count` bytes of a buffer were printed. -/
def Machine.printedBuffer (machine : Machine) (buf : Nat) (byte : Nat -> UInt8)
    (count : Nat) : Machine :=
  { machine with
    terminal := machine.terminal ++ (List.range count).map byte
    callerAccesses := machine.callerAccesses ++ bufferAccesses .load buf count }

/-- The rounds of `kwrite` from the `i`-th on. -/
theorem kwriteLoop_ok {byte : Nat -> UInt8} (holds : machine.HoldsBytes buf len byte)
    (inside : i ≤ len) (enough : len < i + fuel) :
    kwriteLoop len fuel i ((buf + i) % wordSize) (machine.printedBuffer buf byte i) =
      .ok ⟨⟩ (machine.printedBuffer buf byte len) := by
  induction fuel generalizing i with
  | zero => omega
  | succ fuel inductionHypothesis =>
      rw [kwriteLoop]
      by_cases more : i < len
      · obtain ⟨mapped, reaches, isByte⟩ := holds i more
        have next : ((machine.printedBuffer buf byte i).record .load
            ((buf + i) % wordSize)).kprintC (byte i) =
              machine.printedBuffer buf byte (i + 1) := by
          unfold Machine.kprintC Machine.record Machine.printedBuffer
          rw [bufferAccesses_succ]
          simp [List.range_succ]
        have loads : callerLoad ((buf + i) % wordSize) (machine.printedBuffer buf byte i) =
            .ok (byte i) ((machine.printedBuffer buf byte i).record .load
              ((buf + i) % wordSize)) := by
          rw [isByte]
          exact callerLoad_ok reaches
        rw [if_pos more, bind_of_ok loads, bind_of_ok (modify_apply _ _), next,
          Nat.mod_add_mod, Nat.add_assoc]
        exact inductionHypothesis more (by omega)
      · obtain rfl : i = len := by omega
        rw [if_neg more]
        rfl

/-- `kwrite` prints the bytes and returns the count as an `int`. -/
theorem kwrite_ok {byte : Nat -> UInt8} (holds : machine.HoldsBytes buf len byte)
    (word : buf < wordSize) (length : len < wordSize) :
    kwrite buf len machine = .ok (toInt32 len) (machine.printedBuffer buf byte len) := by
  have start : (buf + 0) % wordSize = buf := Nat.mod_eq_of_lt word
  have unprinted : machine.printedBuffer buf byte 0 = machine := by
    simp [Machine.printedBuffer, bufferAccesses]
  have loop := @kwriteLoop_ok machine buf len 0 wordSize byte holds (Nat.zero_le _)
    (by omega)
  rw [start, unprinted] at loop
  rw [kwrite, bind_of_ok loop, pure_apply]

end StarterKernel
