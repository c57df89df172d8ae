import StarterKernel.Kernel.Pic
import Mathlib.Data.List.Induction

/-!
# Masking and unmasking interrupts

After `pic_init` the calls of `pic_mask_irq` and `pic_unmask_irq` decide which of the
requested interrupts the processor takes next, and at which vector.
-/

namespace StarterKernel

open InterruptController

/-- What changes which interrupts are delivered. -/
inductive PicEvent
  | mask (num : UInt8)
  | unmask (num : UInt8)
  | request (num : Fin 16)
  deriving DecidableEq

def PicEvent.run (board : Board) : PicEvent -> Board
  | .mask num => board.picMaskIrq num
  | .unmask num => board.picUnmaskIrq num
  | .request num => board.interruptRequest num

/-- The effect of one event on a line. -/
def PicEvent.enables (event : PicEvent) (num : Fin 16) (before : Bool) : Bool :=
  match event with
  | .mask called => if called.toNat = num then false else before
  | .unmask called => if called.toNat = num then true else before
  | .request _ => before

/-- The last call about a line unmasked it. -/
def enabled (events : List PicEvent) (num : Fin 16) : Bool :=
  events.foldl (fun before event => event.enables num before) false

namespace Board

def masked (board : Board) (num : Fin 16) : Bool :=
  if small : num.val < 8 then test board.pics.primary.mask ⟨num, small⟩
  else test board.pics.secondary.mask ⟨num - 8, Pair.secondary_lt small⟩

def requested (board : Board) (num : Fin 16) : Bool :=
  if small : num.val < 8 then test board.pics.primary.request ⟨num, small⟩
  else test board.pics.secondary.request ⟨num - 8, Pair.secondary_lt small⟩

theorem wants_eq (board : Board) (num : Fin 16) :
    board.pics.wants num = (board.requested num && !board.masked num &&
      (decide (num.val < 8) || !board.masked cascadeLine)) := by
  have driven : board.masked cascadeLine = test board.pics.primary.mask Pair.cascadeLine := rfl
  unfold Pair.wants requested masked
  split
  next small => simp [small]
  next large =>
    rw [← driven]
    simp [large, masked]

/-- Both controllers are set up, and idle. -/
structure Programmed (board : Board) : Prop where
  primaryReady : board.pics.primary.phase = .ready
  secondaryReady : board.pics.secondary.phase = .ready
  primaryOffset : board.pics.primary.offset = 0x20
  secondaryOffset : board.pics.secondary.offset = 0x28
  primaryIdle : board.pics.primary.service = 0
  secondaryIdle : board.pics.secondary.service = 0
  primaryManual : board.pics.primary.automatic = false
  secondaryManual : board.pics.secondary.automatic = false
  interruptFlag : board.interruptFlag = true

/-- The controllers pass line `num` on at vector `0x20 + num`. -/
theorem Programmed.vector_eq {board : Board} (programmed : board.Programmed)
    (num : Fin 16) : board.pics.vector num = BitVec.ofNat 8 (0x20 + num) := by
  unfold Pair.vector
  rw [programmed.primaryOffset, programmed.secondaryOffset]
  revert num
  decide

/-! ## Setting up -/

theorem picInit_programmed (board : Board) : board.picInit.Programmed := by
  constructor <;> rfl

theorem picInit_masked (board : Board) (num : Fin 16) : board.picInit.masked num = true := by
  have primary : board.picInit.pics.primary.mask = 0xFF := rfl
  have secondary : board.picInit.pics.secondary.mask = 0xFF := rfl
  unfold masked
  rw [primary, secondary]
  revert num
  decide

theorem picInit_requested (board : Board) (num : Fin 16) :
    board.picInit.requested num = false := by
  have primary : board.picInit.pics.primary.request = 0 := rfl
  have secondary : board.picInit.pics.secondary.request = 0 := rfl
  unfold requested
  rw [primary, secondary]
  revert num
  decide

/-! ## One call -/

theorem toBitVec_shiftLeft {num : UInt8} (small : num.toNat < 8) :
    ((1 : UInt8) <<< num).toBitVec = 1#8 <<< num.toNat := by
  have all : ∀ level : Fin 8,
      ((1 : UInt8) <<< UInt8.ofNat level.val).toBitVec = 1#8 <<< level.val := by decide
  have same := all ⟨num.toNat, small⟩
  rwa [UInt8.ofNat_toNat] at same

theorem toBitVec_mask {mask num : UInt8} (small : num.toNat < 8) :
    (mask ||| 1 <<< num).toBitVec = raise mask.toBitVec ⟨num.toNat, small⟩ := by
  rw [UInt8.toBitVec_or, toBitVec_shiftLeft small, raise]

theorem toBitVec_unmask {mask num : UInt8} (small : num.toNat < 8) :
    (mask &&& ~~~(1 <<< num)).toBitVec = lower mask.toBitVec ⟨num.toNat, small⟩ := by
  rw [UInt8.toBitVec_and, UInt8.toBitVec_not, toBitVec_shiftLeft small, lower]

variable {board : Board}

theorem Programmed.changeMask_primary (programmed : board.Programmed)
    (change : UInt8 -> UInt8) :
    board.changeMask pic1Data change =
      { board with pics.primary.mask :=
          (change (.ofBitVec board.pics.primary.mask)).toBitVec } := by
  have ready := programmed.primaryReady
  simp [changeMask, inb, outb, pic1Data, pic1Command, Chip.writeData, ready]

theorem Programmed.changeMask_secondary (programmed : board.Programmed)
    (change : UInt8 -> UInt8) :
    board.changeMask pic2Data change =
      { board with pics.secondary.mask :=
          (change (.ofBitVec board.pics.secondary.mask)).toBitVec } := by
  have ready := programmed.secondaryReady
  simp [changeMask, inb, outb, pic2Data, pic2Command, Chip.writeData, ready]

/-- What an event does to the controllers. -/
structure Effect (board : Board) (event : PicEvent) (after : Board) : Prop where
  programmed : after.Programmed
  masked : ∀ num, after.masked num = !event.enables num (!board.masked num)
  requested : ∀ num,
    after.requested num = (board.requested num || decide (event = .request num))
  scanCodes : after.scanCodes = board.scanCodes

/-- A new mask for the primary controller. -/
theorem Programmed.effect_primary (programmed : board.Programmed) {event : PicEvent}
    {lines : BitVec 8} (noRequest : ∀ num, event ≠ .request num)
    (small : ∀ level, test lines level =
      !event.enables (Pair.ofPrimary level) (!test board.pics.primary.mask level))
    (large : ∀ num : Fin 16, 8 ≤ num.val -> ∀ before, event.enables num before = before) :
    Effect board event { board with pics.primary.mask := lines } where
  programmed := { programmed with }
  masked := by
    intro num
    unfold masked
    split
    next isSmall => exact small ⟨num, isSmall⟩
    next isLarge => simp [large num (by omega)]
  requested := fun num => by simp [noRequest num, requested]
  scanCodes := rfl

/-- A new mask for the secondary controller. -/
theorem Programmed.effect_secondary (programmed : board.Programmed) {event : PicEvent}
    {lines : BitVec 8} (noRequest : ∀ num, event ≠ .request num)
    (large : ∀ level, test lines level =
      !event.enables (Pair.ofSecondary level) (!test board.pics.secondary.mask level))
    (small : ∀ num : Fin 16, num.val < 8 -> ∀ before, event.enables num before = before) :
    Effect board event { board with pics.secondary.mask := lines } where
  programmed := { programmed with }
  masked := by
    intro num
    unfold masked
    split
    next isSmall => simp [small num isSmall]
    next isLarge =>
      have same : Pair.ofSecondary ⟨num - 8, by omega⟩ = num :=
        Fin.ext (by simp only [Pair.ofSecondary]; omega)
      have bit := large ⟨num - 8, by omega⟩
      rwa [same] at bit
  requested := fun num => by simp [noRequest num, requested]
  scanCodes := rfl

/-- A call about a number from 16 on does nothing. -/
theorem Programmed.effect_none (programmed : board.Programmed) {event : PicEvent}
    (noRequest : ∀ num, event ≠ .request num)
    (same : ∀ num before, event.enables num before = before) : Effect board event board where
  programmed := programmed
  masked := fun num => by rw [same, Bool.not_not]
  requested := fun num => by simp [noRequest num]
  scanCodes := rfl

theorem Programmed.effect_request (programmed : board.Programmed) (line : Fin 16) :
    Effect board (.request line) (board.interruptRequest line) := by
  unfold interruptRequest
  split
  next small =>
    refine ⟨{ programmed with }, fun num => (Bool.not_not _).symm, fun num => ?_, rfl⟩
    unfold requested
    split
    next isSmall =>
      simp only [Chip.interrupt, test_raise, PicEvent.request.injEq, Fin.ext_iff]
      exact congrArg _ (decide_eq_decide.mpr eq_comm)
    next isLarge =>
      have other : line ≠ num := by
        rintro rfl
        exact isLarge small
      simp [other]
  next large =>
    refine ⟨{ programmed with }, fun num => (Bool.not_not _).symm, fun num => ?_, rfl⟩
    unfold requested
    split
    next isSmall =>
      have other : line ≠ num := by
        rintro rfl
        exact large isSmall
      simp [other]
    next isLarge =>
      simp only [Chip.interrupt, test_raise, PicEvent.request.injEq, Fin.ext_iff]
      exact congrArg _ (decide_eq_decide.mpr (by omega))

theorem enables_mask {called : UInt8} {num : Fin 16} {lines : BitVec 8}
    {level other : Level} (same : called.toNat = num.val ↔ other = level) :
    test (raise lines level) other =
      !(PicEvent.mask called).enables num (!test lines other) := by
  rw [test_raise, PicEvent.enables]
  by_cases here : other = level <;> simp [same, here]

theorem enables_unmask {called : UInt8} {num : Fin 16} {lines : BitVec 8}
    {level other : Level} (same : called.toNat = num.val ↔ other = level) :
    test (lower lines level) other =
      !(PicEvent.unmask called).enables num (!test lines other) := by
  rw [test_lower, PicEvent.enables]
  by_cases here : other = level <;> simp [same, here]

/-- The line of the primary controller that a number below 8 names. -/
theorem called_primary {called : UInt8} (small : called.toNat < 8) (other : Level) :
    called.toNat = (Pair.ofPrimary other).val ↔ other = ⟨called.toNat, small⟩ := by
  simp only [Pair.ofPrimary, Fin.ext_iff]
  omega

theorem toNat_le_of_not_lt {called bound : UInt8} (large : ¬called < bound) :
    bound.toNat ≤ called.toNat :=
  Nat.le_of_not_lt fun less => large (UInt8.lt_iff_toNat_lt.mpr less)

/-- The line of the secondary controller that a number from 8 to 15 names. -/
theorem called_secondary {called : UInt8} (large : ¬called < 8) (small : called < 16) :
    ∃ below : (called - 8).toNat < 8, ∀ other : Level,
      called.toNat = (Pair.ofSecondary other).val ↔ other = ⟨(called - 8).toNat, below⟩ := by
  have bound : called.toNat < 16 := UInt8.lt_iff_toNat_lt.mp small
  have atLeast : 8 ≤ called.toNat := toNat_le_of_not_lt large
  have difference : (called - 8).toNat = called.toNat - 8 :=
    UInt8.toNat_sub_of_le _ _ (UInt8.le_iff_toNat_le.mpr atLeast)
  refine ⟨by omega, fun other => ?_⟩
  simp only [Pair.ofSecondary, Fin.ext_iff]
  omega

theorem Programmed.effect (programmed : board.Programmed) (event : PicEvent) :
    Effect board event (event.run board) := by
  cases event with
  | request line => exact programmed.effect_request line
  | mask called =>
      rw [PicEvent.run, picMaskIrq]
      split
      next small =>
        have level : called.toNat < 8 := UInt8.lt_iff_toNat_lt.mp small
        rw [programmed.changeMask_primary, toBitVec_mask level]
        exact programmed.effect_primary (by simp)
          (fun other => enables_mask (called_primary level other))
          fun num isLarge before => if_neg (by omega)
      next large =>
        split
        next small =>
          obtain ⟨level, names⟩ := called_secondary large small
          rw [programmed.changeMask_secondary, toBitVec_mask level]
          have atLeast : 8 ≤ called.toNat := toNat_le_of_not_lt large
          exact programmed.effect_secondary (by simp)
            (fun other => enables_mask (names other))
            fun num isSmall before => if_neg (by omega)
        next outside =>
          have atLeast : 16 ≤ called.toNat := toNat_le_of_not_lt outside
          exact programmed.effect_none (by simp) fun num before => if_neg (by omega)
  | unmask called =>
      rw [PicEvent.run, picUnmaskIrq]
      split
      next small =>
        have level : called.toNat < 8 := UInt8.lt_iff_toNat_lt.mp small
        rw [programmed.changeMask_primary, toBitVec_unmask level]
        exact programmed.effect_primary (by simp)
          (fun other => enables_unmask (called_primary level other))
          fun num isLarge before => if_neg (by omega)
      next large =>
        split
        next small =>
          obtain ⟨level, names⟩ := called_secondary large small
          rw [programmed.changeMask_secondary, toBitVec_unmask level]
          have atLeast : 8 ≤ called.toNat := toNat_le_of_not_lt large
          exact programmed.effect_secondary (by simp)
            (fun other => enables_unmask (names other))
            fun num isSmall before => if_neg (by omega)
        next outside =>
          have atLeast : 16 ≤ called.toNat := toNat_le_of_not_lt outside
          exact programmed.effect_none (by simp) fun num before => if_neg (by omega)

/-! ## Any events -/

/-- After `pic_init` and any events, the lines as the events left them. -/
structure Follows (board : Board) (events : List PicEvent) (after : Board) : Prop where
  programmed : after.Programmed
  masked : ∀ num, after.masked num = !enabled events num
  requested : ∀ num, after.requested num = decide (PicEvent.request num ∈ events)
  scanCodes : after.scanCodes = board.scanCodes

theorem picInit_follows (board : Board) (events : List PicEvent) :
    Follows board events (events.foldl PicEvent.run board.picInit) := by
  induction events using List.reverseRecOn with
  | nil =>
      exact ⟨picInit_programmed board, picInit_masked board,
        fun num => (picInit_requested board num).trans (by simp), rfl⟩
  | append_singleton events event inductionHypothesis =>
      rw [List.foldl_append, List.foldl_cons, List.foldl_nil]
      have effect := inductionHypothesis.programmed.effect event
      refine ⟨effect.programmed, fun num => ?_, fun num => ?_,
        effect.scanCodes.trans inductionHypothesis.scanCodes⟩
      · rw [effect.masked, inductionHypothesis.masked, Bool.not_not, enabled, enabled,
          List.foldl_append]
        rfl
      · rw [effect.requested, inductionHypothesis.requested]
        simp [eq_comm]

end Board

/-- The requests that can interrupt the processor, after `pic_init` and any events. -/
def delivered (events : List PicEvent) (num : Fin 16) : Bool :=
  decide (PicEvent.request num ∈ events) && enabled events num &&
    (decide (num.val < 8) || enabled events Board.cascadeLine)

/-- Whatever the controllers did before, after `pic_init` and any calls and requests the
masked lines are those not unmasked by the last call about them, and the processor takes
the first request in order of priority whose line is unmasked, at vector `0x20` plus its
number; one of the lines 8 to 15 needs line 2 to be unmasked as well. -/
theorem pic_delivers_unmasked (board : Board) (events : List PicEvent) :
    (∀ num, (events.foldl PicEvent.run board.picInit).masked num = !enabled events num) ∧
      (events.foldl PicEvent.run board.picInit).pics.acknowledge.map Prod.fst =
        (Pair.priority.find? (delivered events)).map fun num : Fin 16 =>
          BitVec.ofNat 8 (0x20 + num.val) := by
  have follows := Board.picInit_follows board events
  refine ⟨follows.masked, ?_⟩
  rw [Pair.acknowledge_of_idle follows.programmed.primaryIdle
    follows.programmed.secondaryIdle]
  have wants : (events.foldl PicEvent.run board.picInit).pics.wants = delivered events := by
    funext num
    rw [Board.wants_eq, follows.requested, follows.masked, follows.masked, Bool.not_not,
      Bool.not_not, delivered]
  have vector : (events.foldl PicEvent.run board.picInit).pics.vector =
      fun num => BitVec.ofNat 8 (0x20 + num.val) :=
    funext follows.programmed.vector_eq
  rw [wants, vector]

end StarterKernel
