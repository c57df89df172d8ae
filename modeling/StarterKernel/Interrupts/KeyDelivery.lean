import StarterKernel.Interrupts.Masks
import StarterKernel.Kernel.InterruptDelivery
import StarterKernel.Library.StateError
import StarterKernel.Paging.BootTables

/-!
# The keyboard protocol

Between the keyboard, its controller, the interrupt controllers and the handler no scan
code is lost, repeated or overtaken, and activations of the handler, which may nest, act
on the machine one after the other.  It takes an empty keyboard controller at boot: a
code that was waiting then is never announced, and no other after it.  Programs that
raise vector `0x21` themselves, as its gate lets them, are left out.
-/

namespace StarterKernel

open InterruptController Kernel

theorem keyboardLevel_lt : 1 < 8 := by decide

/-- The level of the keyboard at the primary controller. -/
def keyboardLevel : Level := ⟨1, keyboardLevel_lt⟩

namespace Board

variable {board : Board}

/-- Only the keyboard can interrupt. -/
structure KeyboardOnly (board : Board) : Prop where
  offset : board.pics.primary.offset = 0x20
  manual : board.pics.primary.automatic = false
  mask : ∀ level, test board.pics.primary.mask level = !decide (level = keyboardLevel)
  service : ∀ level, test board.pics.primary.service level = true -> level = keyboardLevel
  interruptFlag : board.interruptFlag = true

/-- The keyboard's line is latched. -/
def keyPending (board : Board) : Bool := test board.pics.primary.request keyboardLevel

/-- A key is in service. -/
def keyInService (board : Board) : Bool := test board.pics.primary.service keyboardLevel

/-- The processor is interrupted exactly when a key is pending and none is in service. -/
theorem KeyboardOnly.acknowledge_eq (only : board.KeyboardOnly) :
    board.pics.acknowledge =
      if board.keyPending && !board.keyInService then
        some (irq1Interrupt.toBitVec,
          { board.pics with primary := board.pics.primary.accept keyboardLevel })
      else none := by
  have notDriven : keyboardLevel ≠ Pair.cascadeLine := by decide
  have request : test board.pics.requests keyboardLevel = board.keyPending := by
    rw [Pair.test_requests, if_neg notDriven, keyPending]
  have vector : board.pics.primary.offset + BitVec.ofNat 8 keyboardLevel.val =
      irq1Interrupt.toBitVec := by
    rw [only.offset]
    rfl
  unfold Pair.acknowledge
  cases granted : board.pics.primary.grant board.pics.requests with
  | some level =>
      obtain ⟨⟨requested, unmasked⟩, idle, _⟩ := Chip.grant_eq_some_iff.mp granted
      rw [only.mask] at unmasked
      obtain rfl : level = keyboardLevel := by simpa using unmasked
      have notServing : board.keyInService = false := idle _ (le_refl _)
      rw [request] at requested
      simp only [if_neg notDriven, requested, notServing, vector, Bool.not_false,
        Bool.and_true, if_true]
  | none =>
      cases ready : board.keyPending && !board.keyInService with
      | false => rfl
      | true =>
          rw [Bool.and_eq_true, Bool.not_eq_true'] at ready
          have found : board.pics.primary.grant board.pics.requests = some keyboardLevel := by
            rw [Chip.grant_eq_some_iff]
            refine ⟨⟨request.trans ready.1, by simp [only.mask]⟩, ?_, ?_⟩
            · intro other _
              by_contra serving
              obtain rfl := only.service other (by simpa using serving)
              exact serving ready.2
            · intro other smaller
              have different : other ≠ keyboardLevel := ne_of_lt smaller
              simp [only.mask, different]
          rw [granted] at found
          cases found

/-! ### Requests -/

theorem KeyboardOnly.interruptRequest (only : board.KeyboardOnly) (num : Fin 16) :
    (board.interruptRequest num).KeyboardOnly := by
  unfold Board.interruptRequest
  split <;> exact { only with }

@[simp] theorem keyInService_interruptRequest (board : Board) (num : Fin 16) :
    (board.interruptRequest num).keyInService = board.keyInService := by
  unfold interruptRequest
  split <;> rfl

@[simp] theorem scanCodes_interruptRequest (board : Board) (num : Fin 16) :
    (board.interruptRequest num).scanCodes = board.scanCodes := by
  unfold interruptRequest
  split <;> rfl

@[simp] theorem keyPending_interruptRequest (board : Board) (num : Fin 16) :
    (board.interruptRequest num).keyPending =
      (board.keyPending || decide (num = keyboardLine)) := by
  unfold interruptRequest
  split
  next small =>
    rw [keyPending, keyPending, Chip.interrupt, test_raise]
    refine congrArg _ (decide_eq_decide.mpr ?_)
    simp only [Fin.ext_iff, keyboardLevel, keyboardLine]
    exact eq_comm
  next large =>
    have other : num ≠ keyboardLine := by
      rintro rfl
      exact large (by decide)
    simp [keyPending, other]

/-! ### The keyboard controller -/

/-- The controller announces a code when it had none. -/
theorem key_eq (board : Board) (code : UInt8) :
    (board.key code).scanCodes = board.scanCodes ++ [code] ∧
      (board.key code).keyInService = board.keyInService ∧
      (board.key code).keyPending = (board.keyPending || decide (board.scanCodes = [])) := by
  unfold key
  split
  next empty =>
    refine ⟨scanCodes_interruptRequest _ _, keyInService_interruptRequest _ _, ?_⟩
    rw [keyPending_interruptRequest]
    simp [empty]
  next waiting =>
    refine ⟨rfl, rfl, ?_⟩
    rw [decide_eq_false waiting, Bool.or_false]
    rfl

theorem KeyboardOnly.key (only : board.KeyboardOnly) (code : UInt8) :
    (board.key code).KeyboardOnly := by
  have received : { board with scanCodes := board.scanCodes ++ [code] }.KeyboardOnly :=
    { only with }
  unfold Board.key
  split
  · exact received.interruptRequest _
  · exact received

/-- Reading a code announces the next one. -/
theorem inb_eq {code : UInt8} {rest : List UInt8} (waiting : board.scanCodes = code :: rest) :
    (board.inb 0x60).1 = code ∧ (board.inb 0x60).2.scanCodes = rest ∧
      (board.inb 0x60).2.keyInService = board.keyInService ∧
      (board.inb 0x60).2.keyPending = (board.keyPending || decide (rest ≠ [])) := by
  rw [inb, readScanCode, waiting]
  cases rest with
  | nil => exact ⟨rfl, rfl, rfl, (Bool.or_false _).symm⟩
  | cons next rest =>
      dsimp only
      rw [if_neg (List.cons_ne_nil next rest), scanCodes_interruptRequest,
        keyInService_interruptRequest, keyPending_interruptRequest, decide_eq_true rfl,
        decide_eq_true (List.cons_ne_nil next rest)]
      exact ⟨rfl, rfl, rfl, rfl⟩

theorem KeyboardOnly.inb (only : board.KeyboardOnly) : (board.inb 0x60).2.KeyboardOnly := by
  rw [Board.inb, readScanCode]
  cases board.scanCodes with
  | nil => exact only
  | cons code rest =>
      have passed : { board with scanCodes := rest, lastCode := code }.KeyboardOnly :=
        { only with }
      dsimp only
      split
      · exact passed
      · exact passed.interruptRequest _

/-! ### The processor -/

/-- Taking the interrupt of a pending key. -/
theorem KeyboardOnly.accept (only : board.KeyboardOnly) :
    { board with
      pics.primary := board.pics.primary.accept keyboardLevel }.KeyboardOnly where
  offset := only.offset
  manual := only.manual
  mask := only.mask
  service := by
    intro level serving
    simp only [Chip.accept, only.manual, Bool.false_eq_true, if_false, test_raise,
      Bool.or_eq_true, decide_eq_true_eq] at serving
    exact serving.elim (only.service level) id
  interruptFlag := only.interruptFlag

theorem KeyboardOnly.accept_eq (only : board.KeyboardOnly) :
    { board with pics.primary := board.pics.primary.accept keyboardLevel }.keyPending =
        false ∧
      { board with pics.primary := board.pics.primary.accept keyboardLevel }.keyInService =
        true := by
  simp [keyPending, keyInService, Chip.accept, only.manual]

/-- The end of an interrupt serves the key. -/
theorem KeyboardOnly.outb_eq (only : board.KeyboardOnly) (serving : board.keyInService = true) :
    (board.outb pic1Command picEoi).KeyboardOnly ∧
      (board.outb pic1Command picEoi).keyInService = false ∧
      (board.outb pic1Command picEoi).keyPending = board.keyPending ∧
      (board.outb pic1Command picEoi).scanCodes = board.scanCodes := by
  have found : Fin.find? (test board.pics.primary.service) = some keyboardLevel := by
    rw [Fin.find?_eq_some_iff]
    refine ⟨serving, fun other smaller => ?_⟩
    by_contra inService
    exact absurd (only.service other (by simpa using inService)) (ne_of_lt smaller)
  have command : board.outb pic1Command picEoi =
      { board with
        pics.primary.service := lower board.pics.primary.service keyboardLevel } := by
    have ends : board.pics.primary.writeCommand picEoi.toBitVec =
        board.pics.primary.endOfInterrupt := rfl
    rw [pic1Command, outb, ends, Chip.endOfInterrupt, found]
  rw [command]
  refine ⟨{ only with service := ?_ }, by simp [keyInService], rfl, rfl⟩
  intro level inService
  simp only [test_lower, Bool.and_eq_true] at inService
  exact only.service level inService.1

end Board

namespace System

variable {Code : Type} {execute : Code × Machine -> Code × Machine -> Prop}
variable {start : Code × Machine} {system other : System Code}

/-- The interrupted code and whole activations of the handler, one after the other, with
the scan codes these were given. -/
inductive AtomicRun (execute : Code × Machine -> Code × Machine -> Prop)
    (start : Code × Machine) : List UInt8 -> Code × Machine -> Prop
  | start : AtomicRun execute start [] start
  | code {codes state next} (run : AtomicRun execute start codes state)
      (step : execute state next) : AtomicRun execute start codes next
  | key {codes code machine next} {scanCode : UInt8}
      (run : AtomicRun execute start codes (code, machine))
      (step : keyboardInterrupt scanCode machine = .ok () next) :
      AtomicRun execute start (codes ++ [scanCode]) (code, next)

/-- What the innermost activation has done of its work on the machine. -/
def Progress (execute : Code × Machine -> Code × Machine -> Prop)
    (start : Code × Machine) (system : System Code) : Option HandlerPoint -> Prop
  | some (.read code) => ∃ done, system.handled = done ++ [code] ∧
      AtomicRun execute start done (system.code, system.machine)
  | some (.decoded key) => ∃ done code machine, system.handled = done ++ [code] ∧
      AtomicRun execute start done (system.code, machine) ∧
      Kernel.getkey code machine = .ok key system.machine
  | _ => AtomicRun execute start system.handled (system.code, system.machine)

theorem Progress.congr {point : Option HandlerPoint}
    (progress : Progress execute start system point) (handled : other.handled = system.handled) (code : other.code = system.code)
    (machine : other.machine = system.machine) : Progress execute start other point := by
  unfold Progress at progress ⊢
  rw [handled, code, machine]
  exact progress

/-- The invariant of the protocol. -/
structure Delivering (execute : Code × Machine -> Code × Machine -> Prop)
    (start : Code × Machine) (system : System Code) : Prop where
  only : system.board.KeyboardOnly
  /-- A key is in service while the innermost activation is. -/
  service : system.board.keyInService = system.handlers.head?.any HandlerPoint.inService
  /-- The activations below the innermost one have only to return. -/
  nested : ∀ point ∈ system.handlers.tail, point = .acknowledged
  /-- A waiting scan code is announced, or about to be read. -/
  announced : system.board.keyPending =
    (decide (system.board.scanCodes ≠ []) && decide (system.handlers.head? ≠ some .entered))
  waiting : system.handlers.head? = some .entered -> system.board.scanCodes ≠ []
  history : system.typed = system.handled ++ system.board.scanCodes
  progress : Progress execute start system system.handlers.head?

/-- The controllers after `_start` has set the keyboard up. -/
theorem keyboardOnly_booted (board : Board) (machine : Machine) (code : Code) :
    (booted board machine code).board.KeyboardOnly ∧
      (booted board machine code).board.keyInService = false ∧
      (booted board machine code).board.keyPending = false := by
  have follows := Board.picInit_follows board [.unmask 1]
  have service : (booted board machine code).board.pics.primary.service = 0 := rfl
  have request : (booted board machine code).board.pics.primary.request = 0 := rfl
  refine ⟨⟨rfl, rfl, ?_, ?_, rfl⟩, ?_, ?_⟩
  · intro level
    have masked : test (booted board machine code).board.pics.primary.mask level =
        !enabled [.unmask 1] (Pair.ofPrimary level) := by
      rw [← follows.masked, Board.masked, dif_pos (by simp [Pair.ofPrimary])]
      rfl
    rw [masked]
    clear masked
    revert level
    decide
  · rw [service]
    decide
  · rw [Board.keyInService, service]
    decide
  · rw [Board.keyPending, request]
    decide

namespace Delivering

theorem booted {board : Board} {machine : Machine} {code : Code}
    (empty : board.scanCodes = []) :
    Delivering execute (code, machine) (booted board machine code) := by
  have follows := Board.picInit_follows board [.unmask 1]
  have codes : (System.booted board machine code).board.scanCodes = [] :=
    follows.scanCodes.trans empty
  have only := keyboardOnly_booted board machine code
  exact
    { only := only.1
      service := only.2.1
      nested := by simp [System.booted]
      announced := by
        rw [only.2.2, codes]
        rfl
      waiting := by simp [System.booted]
      history := follows.scanCodes.symm
      progress := .start }

/-- A step of the innermost activation on the machine, between the read of its scan code
and the end of the interrupt. -/
theorem atHandler (delivering : Delivering execute start system) {before after : HandlerPoint}
    {rest : List HandlerPoint} {machine : Machine} (top : system.handlers = before :: rest)
    (serving : before.inService = true) (servingAfter : after.inService = true)
    (notEntered : before ≠ .entered) (notEnteredAfter : after ≠ .entered)
    (progress : Progress execute start
      { system with machine := machine, handlers := after :: rest } (some after)) :
    Delivering execute start
      { system with machine := machine, handlers := after :: rest } := by
  have service := delivering.service
  have nested := delivering.nested
  have announced := delivering.announced
  rw [top] at service nested announced
  refine
    { only := delivering.only
      service := service.trans (serving.trans servingAfter.symm)
      nested := nested
      announced := announced.trans (by simp [notEntered, notEnteredAfter])
      waiting := fun entered => absurd (Option.some.inj entered) notEnteredAfter
      history := delivering.history
      progress := progress }

/-- Taking an interrupt needs the innermost activation to be done. -/
theorem interrupt (delivering : Delivering execute start system) {pics : Pair}
    (taken : system.board.pics.acknowledge = some (irq1Interrupt.toBitVec, pics)) :
    Delivering execute start { system with
      board := { system.board with pics := pics }
      handlers := .entered :: system.handlers } := by
  rw [delivering.only.acknowledge_eq] at taken
  cases ready : system.board.keyPending && !system.board.keyInService with
  | false =>
      rw [ready] at taken
      cases taken
  | true =>
      rw [ready, if_pos rfl] at taken
      cases taken
      rw [Bool.and_eq_true, Bool.not_eq_true'] at ready
      obtain ⟨pending, idle⟩ := ready
      have announced := delivering.announced
      rw [pending] at announced
      have waiting : system.board.scanCodes ≠ [] ∧ system.handlers.head? ≠ some .entered := by
        simpa using announced.symm
      have accepted := delivering.only.accept_eq
      refine
        { only := delivering.only.accept
          service := accepted.2
          nested := ?_
          announced := accepted.1.trans (by simp)
          waiting := fun _ => waiting.1
          history := delivering.history
          progress := ?_ }
      · intro point member
        cases handlers : system.handlers with
        | nil =>
            rw [handlers] at member
            cases member
        | cons top rest =>
            have service := delivering.service
            have nested := delivering.nested
            rw [handlers] at member service nested
            rw [idle] at service
            rcases List.mem_cons.mp member with rfl | below
            · simpa [HandlerPoint.inService] using service.symm
            · exact nested point below
      · have progress := delivering.progress
        have service := delivering.service
        rw [idle] at service
        cases top : system.handlers.head? with
        | none =>
            rw [top] at progress
            exact progress
        | some point =>
            rw [top] at progress service
            obtain rfl : point = .acknowledged := by
              simpa [HandlerPoint.inService] using service.symm
            exact progress

theorem step (delivering : Delivering execute start system) {after : System Code}
    (step : Step execute system after) : Delivering execute start after := by
  cases step with
  | code idle step =>
      have progress := delivering.progress
      rw [idle] at progress
      refine { delivering with progress := ?_ }
      change Progress execute start _ system.handlers.head?
      rw [idle]
      exact .code progress step
  | key code =>
      obtain ⟨codes, service, pending⟩ := Board.key_eq system.board code
      refine
        { only := delivering.only.key code
          service := service.trans delivering.service
          nested := delivering.nested
          announced := ?_
          waiting := fun _ => by simp [codes]
          history := ?_
          progress := delivering.progress.congr rfl rfl rfl }
      · rw [pending, codes, delivering.announced]
        by_cases empty : system.board.scanCodes = []
        · have notEntered := mt delivering.waiting (not_not.mpr empty)
          simp [empty, notEntered]
        · simp [empty]
      · rw [codes, delivering.history, List.append_assoc]
  | device num other =>
      have codes := Board.scanCodes_interruptRequest system.board num
      have pending := Board.keyPending_interruptRequest system.board num
      rw [decide_eq_false other, Bool.or_false] at pending
      exact
        { only := delivering.only.interruptRequest num
          service := (Board.keyInService_interruptRequest _ num).trans delivering.service
          nested := delivering.nested
          announced := by rw [pending, codes, delivering.announced]
          waiting := fun entered => codes.symm ▸ delivering.waiting entered
          history := by rw [codes, delivering.history]
          progress := delivering.progress.congr rfl rfl rfl }
  | interrupt enabled taken => exact delivering.interrupt taken
  | @inb rest top =>
      have service := delivering.service
      have nested := delivering.nested
      have announced := delivering.announced
      have progress := delivering.progress
      rw [top] at service nested announced progress
      obtain ⟨code, codes, waiting⟩ := List.exists_cons_of_ne_nil
        (delivering.waiting (by rw [top]; rfl))
      obtain ⟨isCode, codesAfter, serviceAfter, pending⟩ := Board.inb_eq waiting
      refine
        { only := delivering.only.inb
          service := serviceAfter.trans service
          nested := nested
          announced := ?_
          waiting := fun entered => by cases entered
          history := ?_
          progress := ⟨system.handled, rfl, progress⟩ }
      · rw [pending, announced, codesAfter]
        simp
      · rw [codesAfter, isCode, delivering.history, waiting, List.append_assoc]
        rfl
  | getkey top step =>
      have progress := delivering.progress
      rw [top] at progress
      obtain ⟨done, isDone, run⟩ := progress
      exact delivering.atHandler top rfl rfl (by simp) (by simp)
        ⟨done, _, _, isDone, run, step⟩
  | charWrite top step =>
      have progress := delivering.progress
      rw [top] at progress
      obtain ⟨done, code, machine, isDone, run, decoded⟩ := progress
      refine delivering.atHandler top rfl rfl (by simp) (by simp) ?_
      have handled := run.key ((StateError.bind_of_ok decoded).trans step)
      rw [← isDone] at handled
      exact handled
  | @outb rest top =>
      have service := delivering.service
      have nested := delivering.nested
      have announced := delivering.announced
      have progress := delivering.progress
      rw [top] at service nested announced progress
      obtain ⟨only, serviceAfter, pending, codes⟩ := delivering.only.outb_eq service
      exact
        { only := only
          service := serviceAfter
          nested := nested
          announced := by
            rw [pending, announced, codes]
            simp
          waiting := fun entered => by cases entered
          history := by rw [codes, delivering.history]
          progress := progress }
  | @iretq rest top =>
      have service := delivering.service
      have nested := delivering.nested
      have announced := delivering.announced
      have progress := delivering.progress
      rw [top] at service nested announced progress
      -- The activation below, if there is one, is about to return too.
      have below : rest.head? = none ∨ rest.head? = some .acknowledged := by
        cases isTop : rest.head? with
        | none => exact Or.inl rfl
        | some point =>
            rw [nested point (List.mem_of_mem_head? isTop)]
            exact Or.inr rfl
      have serviceAfter : system.board.keyInService =
          rest.head?.any HandlerPoint.inService := by
        rcases below with isTop | isTop <;> rw [isTop] <;> exact service
      have notEntered : rest.head? ≠ some .entered := by
        rcases below with isTop | isTop <;> rw [isTop] <;> decide
      have progressAfter : Progress execute start { system with handlers := rest }
          rest.head? := by
        rcases below with isTop | isTop <;> rw [isTop] <;> exact progress
      exact
        { only := delivering.only
          service := serviceAfter
          nested := fun point member => nested point (List.mem_of_mem_tail member)
          announced := announced.trans (by simp [notEntered])
          waiting := fun entered => absurd entered notEntered
          history := delivering.history
          progress := progressAfter }

/-- Every run keeps the invariant. -/
theorem run (delivering : Delivering execute start system)
    (run : Run execute system other) : Delivering execute start other := by
  induction run with
  | refl => exact delivering
  | tail _ next inductionHypothesis => exact inductionHypothesis.step next

end Delivering
end System

/-- With an empty keyboard controller at boot, in every state that the interrupted code,
the devices, the processor and the handler reach in any order: the processor is
interrupted at vector `0x21` or not at all; the handler has read the scan codes typed, in
order and each one once, but for those still waiting; activations of the handler below
the innermost one have only to return, and the machine is one that the interrupted code
and whole activations reach one after the other; and a waiting code interrupts the
processor unless an activation has yet to tell the controller that it is done. -/
theorem keys_delivered_in_order {Code : Type}
    {execute : Code × Machine -> Code × Machine -> Prop} {board : Board} {machine : Machine}
    {code : Code} {later : System Code} (empty : board.scanCodes = [])
    (run : System.Run execute (System.booted board machine code) later) :
    (∀ vector pics, later.board.pics.acknowledge = some (vector, pics) ->
      vector = irq1Interrupt.toBitVec) ∧
    later.typed = later.handled ++ later.board.scanCodes ∧
    (∀ point ∈ later.handlers.tail, point = .acknowledged) ∧
    ((∀ scanCode, later.handlers.head? ≠ some (.read scanCode)) ->
      (∀ key, later.handlers.head? ≠ some (.decoded key)) ->
      System.AtomicRun execute (code, machine) later.handled (later.code, later.machine)) ∧
    (later.board.scanCodes ≠ [] -> (∀ point ∈ later.handlers, point = .acknowledged) ->
      later.board.interruptFlag = true ∧ ∃ pics,
        later.board.pics.acknowledge = some (irq1Interrupt.toBitVec, pics)) := by
  have delivering := (System.Delivering.booted empty).run run
  refine ⟨?_, delivering.history, delivering.nested, ?_, ?_⟩
  · intro vector pics taken
    rw [delivering.only.acknowledge_eq] at taken
    split at taken
    · cases taken
      rfl
    · cases taken
  · intro notRead notDecoded
    have progress := delivering.progress
    unfold System.Progress at progress
    split at progress
    next isTop => exact absurd isTop (notRead _)
    next isTop => exact absurd isTop (notDecoded _)
    next => exact progress
  · intro waiting done
    have notEntered : later.handlers.head? ≠ some .entered := by
      intro entered
      cases done _ (List.mem_of_mem_head? entered)
    have idle : later.board.keyInService = false := by
      rw [delivering.service]
      cases top : later.handlers.head? with
      | none => rfl
      | some point =>
          rw [done point (List.mem_of_mem_head? top)]
          rfl
    have pending : later.board.keyPending = true := by
      rw [delivering.announced]
      simp [waiting, notEntered]
    refine ⟨delivering.only.interruptFlag,
      { later.board.pics with primary := later.board.pics.primary.accept keyboardLevel }, ?_⟩
    rw [delivering.only.acknowledge_eq, pending, idle]
    rfl

/-- A key typed after boot interrupts code that does nothing. -/
theorem keys_delivered_in_order_poweredOn :
    ∃ pics, ((System.booted (poweredOn []) (bootMachine fun _ => 0) ()).board.key
      0x1E).pics.acknowledge = some (irq1Interrupt.toBitVec, pics) := by
  let start := System.booted (poweredOn []) (bootMachine fun _ => 0) ()
  have run : System.Run (fun _ _ => False) start _ := .single (.key start 0x1E)
  have codes := (Board.key_eq start.board 0x1E).1
  obtain ⟨_, _, _, _, interrupts⟩ := keys_delivered_in_order rfl run
  exact (interrupts (by rw [codes]; simp) (fun _ member => by cases member)).2

/-! ## A scan code that waits at boot -/

/-- The keyboard controller has a code that it does not announce. -/
structure System.Silent {Code : Type} (execute : Code × Machine -> Code × Machine -> Prop)
    (start : Code × Machine) (system : System Code) : Prop where
  only : system.board.KeyboardOnly
  notPending : system.board.keyPending = false
  notServing : system.board.keyInService = false
  waiting : system.board.scanCodes ≠ []
  idle : system.handlers = []
  none : system.handled = []
  code : Relation.ReflTransGen execute start (system.code, system.machine)

theorem System.Silent.step {Code : Type}
    {execute : Code × Machine -> Code × Machine -> Prop} {start : Code × Machine}
    {system after : System Code} (silent : System.Silent execute start system)
    (step : System.Step execute system after) : System.Silent execute start after := by
  have noHandler {point : HandlerPoint} {rest : List HandlerPoint}
      (top : system.handlers = point :: rest) : False := by
    rw [silent.idle] at top
    cases top
  cases step with
  | code idle step => exact { silent with code := silent.code.tail step }
  | key code =>
      obtain ⟨codes, service, pending⟩ := Board.key_eq system.board code
      exact { silent with
        only := silent.only.key code
        notPending := by rw [pending, silent.notPending, decide_eq_false silent.waiting]; rfl
        notServing := service.trans silent.notServing
        waiting := by simp [codes] }
  | device num other =>
      exact { silent with
        only := silent.only.interruptRequest num
        notPending := by
          rw [Board.keyPending_interruptRequest, silent.notPending, decide_eq_false other]
          rfl
        notServing := by rw [Board.keyInService_interruptRequest, silent.notServing]
        waiting := by
          rw [Board.scanCodes_interruptRequest]
          exact silent.waiting }
  | interrupt enabled taken =>
      rw [silent.only.acknowledge_eq, silent.notPending] at taken
      cases taken
  | inb top => exact (noHandler top).elim
  | getkey top _ => exact (noHandler top).elim
  | charWrite top _ => exact (noHandler top).elim
  | outb top => exact (noHandler top).elim
  | iretq top => exact (noHandler top).elim

/-- If a scan code waits in the keyboard controller when `pic_init` runs, no key ever
interrupts the processor: `pic_init` forgets the request, and the controller makes no new
one while its code is not read. -/
theorem keyboard_silent_if_waiting {Code : Type}
    {execute : Code × Machine -> Code × Machine -> Prop} {board : Board} {machine : Machine}
    {code : Code} {later : System Code} (waiting : board.scanCodes ≠ [])
    (run : System.Run execute (System.booted board machine code) later) :
    later.board.pics.acknowledge = none ∧ later.handlers = [] ∧ later.handled = [] ∧
      Relation.ReflTransGen execute (code, machine) (later.code, later.machine) := by
  have silent : System.Silent execute (code, machine) later := by
    induction run with
    | refl =>
        obtain ⟨only, notServing, notPending⟩ :=
          System.keyboardOnly_booted board machine code
        have follows := Board.picInit_follows board [.unmask 1]
        exact ⟨only, notPending, notServing, follows.scanCodes.symm ▸ waiting, rfl, rfl, .refl⟩
    | tail _ next inductionHypothesis => exact inductionHypothesis.step next
  refine ⟨?_, silent.idle, silent.none, silent.code⟩
  rw [silent.only.acknowledge_eq, silent.notPending]
  rfl

/-- A key typed while an older code waits. -/
theorem keyboard_silent_if_waiting_poweredOn :
    ((System.booted (poweredOn [0x1E]) (bootMachine fun _ => 0) ()).board.key
      0x1F).pics.acknowledge = none := by
  let start := System.booted (poweredOn [0x1E]) (bootMachine fun _ => 0) ()
  have run : System.Run (fun _ _ => False) start _ := .single (.key start 0x1F)
  exact (keyboard_silent_if_waiting (by simp [poweredOn]) run).1

end StarterKernel
