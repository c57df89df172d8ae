import StarterKernel.Exec.BootImage
import StarterKernel.Exec.Lookup
import StarterKernel.SystemCalls.Buffers

/-!
# What the read and write calls report

Both calls return an `int`, and the loop of `kread` counts with one: they report what
they did exactly for counts below `2 ^ 31`.
-/

namespace StarterKernel

open Kernel StateError

variable {machine after taken stored : Machine} {input : List UInt8} {rc : Int}
variable {buf len numchars count i : Nat} {interrupts : Nat -> Kernel Unit}

/-! ## The input -/

/-- The characters that `count` calls of `kgetc` return, with the interrupts of the rounds
from `i` on. -/
def kgetcs (interrupts : Nat -> Kernel Unit) : (count i : Nat) -> Kernel (List UInt8)
  | 0, _ => return []
  | count + 1, i => do
      let ret ← kgetc (interrupts i)
      let rest ← kgetcs interrupts count (i + 1)
      return ret :: rest

/-- Reading several characters uses the keyboard only. -/
theorem OnKeyboard.kgetcs (keyboard : ∀ i, OnKeyboard (interrupts i)) :
    OnKeyboard (StarterKernel.kgetcs interrupts count i) := by
  induction count generalizing i with
  | zero => exact OnKeyboard.pure _
  | succ count inductionHypothesis =>
      apply (OnKeyboard.kgetc (keyboard i)).bind
      intro ret
      exact inductionHypothesis.bind fun rest => OnKeyboard.pure _

/-! ## Reading -/

/-- A store leaves the keyboard alone. -/
theorem callerStore_keyboard {address : Nat} {value : UInt8}
    (run : callerStore address value machine = .ok ⟨⟩ after) :
    after = after.takeKeyboard machine :=
  (withKeyboard_of_ok run
    (callerStore_withKeyboard machine.ring machine.terminal run).2).symm

/-- The rounds of `kread` take the characters and store them. -/
theorem kreadRounds_ok_iff (keyboard : ∀ i, OnKeyboard (interrupts i)) :
    kreadRounds interrupts buf count i machine = .ok ⟨⟩ after ↔
      ∃ input taken stored, kgetcs interrupts count i machine = .ok input taken ∧
        callerStores buf i input machine = .ok ⟨⟩ stored ∧
        after = stored.takeKeyboard taken := by
  induction count generalizing i machine after with
  | zero =>
      constructor
      · intro run
        cases run
        exact ⟨[], machine, machine, rfl, rfl, rfl⟩
      · rintro ⟨input, taken, stored, takes, stores, rfl⟩
        cases takes
        cases stores
        rfl
  | succ count inductionHypothesis =>
      constructor
      · intro run
        obtain ⟨ret, first, getc, run⟩ := ok_of_bind run
        obtain ⟨_, second, store, rounds⟩ := ok_of_bind run
        obtain ⟨rest, later, stored, takes, stores, rfl⟩ := inductionHypothesis.mp rounds
        have onlyTyped := (OnKeyboard.kgetc (keyboard i)).eq_takeKeyboard getc
        have onlyStored := callerStore_keyboard store
        have takesFirst : kgetcs interrupts count (i + 1) first =
            .ok rest (first.takeKeyboard later) :=
          (OnKeyboard.kgetcs keyboard).of_ok takes first
            (congrArg Machine.ring onlyStored).symm
            (congrArg Machine.terminal onlyStored).symm
        have storesFirst : callerStore ((buf + i) % wordSize) ret machine =
            .ok ⟨⟩ (second.takeKeyboard machine) := by
          have moved := (callerStore_withKeyboard machine.ring machine.terminal store).2
          rwa [onlyTyped] at moved
        refine ⟨ret :: rest, first.takeKeyboard later, stored.takeKeyboard machine,
          ?_, ?_, rfl⟩
        · rw [kgetcs, bind_of_ok getc, bind_of_ok takesFirst, pure_apply]
        · rw [callerStores, bind_of_ok storesFirst]
          exact callerStores_withKeyboard machine.ring machine.terminal stores
      · rintro ⟨input, taken, stored, takes, stores, rfl⟩
        obtain ⟨ret, first, getc, takes⟩ := ok_of_bind takes
        obtain ⟨rest, later, takes, ends⟩ := ok_of_bind takes
        cases ends
        obtain ⟨_, second, store, stores⟩ := ok_of_bind stores
        have onlyTyped := (OnKeyboard.kgetc (keyboard i)).eq_takeKeyboard getc
        have storesFirst : callerStore ((buf + i) % wordSize) ret first =
            .ok ⟨⟩ (second.takeKeyboard first) := by
          have moved := (callerStore_withKeyboard first.ring first.terminal store).2
          rw [onlyTyped]
          exact moved
        rw [kreadRounds, bind_of_ok getc, bind_of_ok storesFirst]
        exact inductionHypothesis.mpr ⟨rest, (second.takeKeyboard first).takeKeyboard taken,
          stored.takeKeyboard first,
          (OnKeyboard.kgetcs keyboard).of_ok takes _ rfl rfl,
          callerStores_withKeyboard first.ring first.terminal stores, rfl⟩

/-! ## The reports -/

/-- `SYS_WRITE` prints the bytes of the buffer and returns their number. -/
def WriteReports (hdr : Stivale2Struct) (interrupts : Nat -> Kernel Unit)
    (fd buf len : Nat) (machine : Machine) : Prop :=
  ∃ byte after, machine.HoldsBytes buf len byte ∧
    syscallHandler hdr interrupts sysWrite fd buf len machine = .ok (.returned len) after ∧
    after.terminal = machine.terminal ++ (List.range len).map byte

/-- `SYS_READ` takes so many characters from the keyboard, stores them in the buffer,
changes nothing else and returns their number. -/
def ReadReports (hdr : Stivale2Struct) (interrupts : Nat -> Kernel Unit)
    (fd buf numchars : Nat) (machine : Machine) : Prop :=
  ∃ input taken stored,
    kgetcs interrupts numchars 0 machine = .ok input taken ∧
    callerStores buf 0 input machine = .ok ⟨⟩ stored ∧
    syscallHandler hdr interrupts sysRead fd buf numchars machine =
      .ok (.returned numchars) (stored.takeKeyboard taken)

/-- An `int` holds a count up to `2 ^ 31`. -/
theorem toInt32_eq_self_iff : toInt32 len = len ↔ len < 2 ^ 31 := by
  unfold toInt32
  split <;> omega

/-- The bytes of a buffer that the kernel can read. -/
theorem exists_holdsBytes
    (readable : ∀ i < len, ∃ mapped, machine.Reaches .load ((buf + i) % wordSize) mapped) :
    ∃ byte, machine.HoldsBytes buf len byte := by
  have bytes : ∀ i < len, ∃ byte mapped,
      machine.Reaches .load ((buf + i) % wordSize) mapped ∧
        byte = machine.memory mapped.physical := fun i inside => by
    obtain ⟨mapped, reaches⟩ := readable i inside
    exact ⟨_, mapped, reaches, rfl⟩
  choose! byte holds using bytes
  exact ⟨byte, holds⟩

theorem syscallHandler_write {hdr : Stivale2Struct} {fd : Nat} {byte : Nat -> UInt8}
    (holds : machine.HoldsBytes buf len byte) (word : buf < wordSize)
    (length : len < wordSize) :
    syscallHandler hdr interrupts sysWrite fd buf len machine =
      .ok (.returned (toInt32 len)) (machine.printedBuffer buf byte len) :=
  bind_of_ok (kwrite_ok holds word length)

theorem writeReports_iff {hdr : Stivale2Struct} {fd : Nat} (word : buf < wordSize)
    (length : len < 2 ^ 63) :
    WriteReports hdr interrupts fd buf len machine ↔
      len < 2 ^ 31 ∧
        ∀ i < len, ∃ mapped, machine.Reaches .load ((buf + i) % wordSize) mapped := by
  have lengthWord : len < wordSize := lt_trans length (by decide)
  constructor
  · rintro ⟨byte, after, holds, call, -⟩
    constructor
    · rw [syscallHandler_write holds word lengthWord] at call
      injection call with outcome
      injection outcome with returned
      exact toInt32_eq_self_iff.mp returned
    · intro i inside
      obtain ⟨mapped, reaches, _⟩ := holds i inside
      exact ⟨mapped, reaches⟩
  · rintro ⟨small, readable⟩
    obtain ⟨byte, holds⟩ := exists_holdsBytes readable
    refine ⟨byte, machine.printedBuffer buf byte len, holds, ?_, rfl⟩
    rw [syscallHandler_write holds word lengthWord, toInt32_of_lt small]

theorem readReports_iff {hdr : Stivale2Struct} {fd : Nat}
    (keyboard : ∀ i, OnKeyboard (interrupts i))
    (available : kgetcs interrupts numchars 0 machine = .ok input taken) :
    ReadReports hdr interrupts fd buf numchars machine ↔
      numchars < 2 ^ 31 ∧ ∃ stored, callerStores buf 0 input machine = .ok ⟨⟩ stored := by
  constructor
  · rintro ⟨sameInput, sameTaken, stored, takes, stores, call⟩
    rw [available] at takes
    cases takes
    obtain ⟨rc, last, reads, -⟩ := ok_of_bind call
    exact ⟨(kread_ok_iff.mp reads).1, stored, stores⟩
  · rintro ⟨small, stored, stores⟩
    have rounds : kreadRounds interrupts buf numchars 0 machine =
        .ok ⟨⟩ (stored.takeKeyboard taken) :=
      (kreadRounds_ok_iff keyboard).mpr ⟨input, taken, stored, available, stores, rfl⟩
    have reads : kread interrupts buf numchars machine =
        .ok numchars (stored.takeKeyboard taken) :=
      kread_ok_iff.mpr ⟨small, (toInt32_of_lt small).symm, rounds⟩
    exact ⟨input, taken, stored, available, stores, bind_of_ok reads⟩

/-- A write of so many bytes, and a read while so many characters are to be had, do what
they report exactly if the count is below `2 ^ 31` and the buffer can be used.  The buffer
is apart from the variables of the kernel, which are not in the memory of the machine. -/
theorem read_write_report_iff (hdr : Stivale2Struct) (codes : Nat -> List UInt8)
    (fd buf count : Nat) (machine : Machine) :
    (buf < wordSize -> count < 2 ^ 63 ->
      (WriteReports hdr (fun i => keyInterrupts (codes i)) fd buf count machine ↔
        count < 2 ^ 31 ∧
          ∀ i < count, ∃ mapped,
            machine.Reaches .load ((buf + i) % wordSize) mapped)) ∧
    ∀ input taken,
      kgetcs (fun i => keyInterrupts (codes i)) count 0 machine = .ok input taken ->
      (ReadReports hdr (fun i => keyInterrupts (codes i)) fd buf count machine ↔
        count < 2 ^ 31 ∧
          ∃ stored, callerStores buf 0 input machine = .ok ⟨⟩ stored) :=
  ⟨writeReports_iff, fun _ _ => readReports_iff fun _ => OnKeyboard.keyInterrupts _⟩

/-- Two bytes of the direct map, and two characters typed while they are read. -/
theorem read_write_report_iff_bootMachine :
    WriteReports (bootHdr []) (fun _ => keyInterrupts [0x1e]) 1 (bootHhdmBase + 0x10000) 2
        (bootMachine fun _ => 0) ∧
      ReadReports (bootHdr []) (fun _ => keyInterrupts [0x1e]) 0 (bootHhdmBase + 0x10000) 2
        (bootMachine fun _ => 0) := by
  obtain ⟨write, read⟩ := read_write_report_iff (bootHdr []) (fun _ => [0x1e]) 1
    (bootHhdmBase + 0x10000) 2 (bootMachine fun _ => 0)
  constructor
  · refine (write (by decide) (by decide)).mpr ⟨by decide, fun i inside => ?_⟩
    have address : (bootHhdmBase + 0x10000 + i) % wordSize =
        bootHhdmBase + (0x10000 + i) := by
      unfold bootHhdmBase wordSize
      omega
    rw [address]
    refine ⟨_, ?_, translation_bootMemory _ (by omega), nofun⟩
    unfold Canonical bootHhdmBase wordSize
    omega
  · have takes : finalValue (kgetcs (fun _ => keyInterrupts [0x1e]) 2 0
        (bootMachine fun _ => 0)) = some [97, 97] := by
      decide +kernel
    have stores : finalValue (callerStores (bootHhdmBase + 0x10000) 0 [97, 97]
        (bootMachine fun _ => 0)) = some ⟨⟩ := by
      decide +kernel
    obtain ⟨taken, available⟩ := ok_of_finalValue takes
    obtain ⟨stored, run⟩ := ok_of_finalValue stores
    exact (read _ _ available).mpr ⟨by decide, stored, run⟩

/-- A direct map of two GiB. -/
def twoPageMachine : Machine :=
  { bootMachine (fun _ => 0) with
    memory := writeEntry (bootMemory fun _ => 0) bootUpperTable 1 (bootEntry (2 ^ 30) true) }

theorem twoPageMachine_reaches {offset : Nat} (inside : offset < 2 ^ 31) :
    ∃ mapped, twoPageMachine.Reaches .load ((bootHhdmBase + offset) % wordSize) mapped := by
  have address : (bootHhdmBase + offset) % wordSize = bootHhdmBase + offset :=
    Nat.mod_eq_of_lt (by unfold bootHhdmBase wordSize; omega)
  rw [address]
  have rootEntry : entryAt twoPageMachine.memory bootRoot 256 =
      bootEntry bootUpperTable false := by
    rw [twoPageMachine, entryAt_writeEntry isFrame_bootUpperTable (by decide)
      isFrame_bootRoot, if_neg (by decide), entryAt_bootMemory_root]
  have upperEntry : entryAt twoPageMachine.memory bootUpperTable (offset / 2 ^ 30) =
      bootEntry (offset / 2 ^ 30 * 2 ^ 30) true := by
    rw [twoPageMachine, entryAt_writeEntry isFrame_bootUpperTable (by decide)
      isFrame_bootUpperTable]
    by_cases second : offset / 2 ^ 30 = 1
    · rw [if_pos ⟨rfl, second⟩, second, one_mul]
    · have first : offset / 2 ^ 30 = 0 := by omega
      rw [if_neg fun both => second both.2, first]
      exact entryAt_bootMemory_upper _
  have translates := translation_directMap rootEntry upperEntry (by omega)
  have canonical : Canonical (bootHhdmBase + offset) := by
    unfold Canonical bootHhdmBase wordSize
    omega
  exact ⟨_, canonical, translates, nofun⟩

/-- A write of `2 ^ 31` bytes returns a negative number. -/
theorem write_misreports_large_count :
    (∀ i < 2 ^ 31, ∃ mapped,
        twoPageMachine.Reaches .load ((bootHhdmBase + i) % wordSize) mapped) ∧
      (∃ after, syscallHandler (bootHdr []) (fun _ => keyInterrupts []) sysWrite 1
        bootHhdmBase (2 ^ 31) twoPageMachine = .ok (.returned (-2 ^ 31)) after) ∧
      ¬WriteReports (bootHdr []) (fun _ => keyInterrupts []) 1 bootHhdmBase (2 ^ 31)
        twoPageMachine := by
  have readable : ∀ i < 2 ^ 31, ∃ mapped,
      twoPageMachine.Reaches .load ((bootHhdmBase + i) % wordSize) mapped :=
    fun _ => twoPageMachine_reaches
  refine ⟨readable, ?_, fun reports => ?_⟩
  · obtain ⟨byte, holds⟩ := exists_holdsBytes readable
    have negative : toInt32 (2 ^ 31) = -2 ^ 31 := by decide
    rw [← negative]
    exact ⟨_, syscallHandler_write holds (by decide) (by decide)⟩
  · have small := (writeReports_iff (by decide) (by decide)).mp reports
    exact absurd small.1 (by decide)

end StarterKernel
