import StarterKernel.Interrupts.Gates
import StarterKernel.Kernel.Exceptions

/-!
# The vectors of the processor

After `idt_setup` and the two calls of `_start` every vector has the gate the kernel means
it to have, or none, and the exceptions whose gate leads to a handler with an error code
are those for which the processor pushes one.
-/

namespace StarterKernel

variable {symbols : HandlerSymbols} {idt : Idt} {v : UInt8}

theorem idtTypes_small : ∀ i : Fin exceptionCount, idtTypes.getD i 0 < 16 := by decide

theorem idtTypeTrap_small : idtTypeTrap < 16 := by decide

/-- The call of `idt_set_handler` for one exception. -/
def exceptionCall (symbols : HandlerSymbols) (i : Fin exceptionCount) : IdtCall where
  index := idtIndices.getD i 0
  fn := symbols.handler i
  type := idtTypes.getD i 0
  small := idtTypes_small i

/-- The call for system calls. -/
def syscallCall (symbols : HandlerSymbols) : IdtCall :=
  ⟨0x80, symbols.syscallEntry, idtTypeTrap, idtTypeTrap_small⟩

/-- The call for the keyboard. -/
def keyboardCall (symbols : HandlerSymbols) : IdtCall :=
  ⟨0x21, symbols.keyboardInterrupt, idtTypeTrap, idtTypeTrap_small⟩

/-- The calls before the system starts. -/
def bootCalls (symbols : HandlerSymbols) : List IdtCall :=
  (List.finRange exceptionCount).map (exceptionCall symbols) ++
    [syscallCall symbols, keyboardCall symbols]

theorem syscallCall_mem (symbols : HandlerSymbols) : syscallCall symbols ∈ bootCalls symbols :=
  List.mem_append_right _ (List.mem_cons_self ..)

theorem keyboardCall_mem (symbols : HandlerSymbols) : keyboardCall symbols ∈ bootCalls symbols :=
  List.mem_append_right _ (List.mem_cons_of_mem _ (List.mem_singleton_self _))

theorem bootIdt_eq (symbols : HandlerSymbols) (idt : Idt) :
    bootIdt symbols idt =
      (bootCalls symbols).foldl (fun idt call => call.install idt)
        (memsetBytes idt 0 0 idtSize) := by
  rw [bootCalls, List.foldl_append, List.foldl_map]
  rfl

/-- Calls for other vectors keep an entry. -/
theorem Idt.Holds.installs_other {last : Option IdtCall} (holds : idt.Holds v last)
    {calls : List IdtCall} (others : v ∉ calls.map IdtCall.index) :
    (calls.foldl (fun idt call => call.install idt) idt).Holds v last := by
  induction calls generalizing idt with
  | nil => exact holds
  | cons call calls inductionHypothesis =>
      obtain ⟨other, rest⟩ := List.ne_and_not_mem_of_not_mem_cons others
      have kept := @Idt.Holds.install idt v call last holds
      rw [if_neg other.symm] at kept
      exact inductionHypothesis kept rest

/-- Among calls for different vectors each one takes effect. -/
theorem Idt.Holds.installs_mem {last : Option IdtCall} (holds : idt.Holds v last)
    {calls : List IdtCall} (nodup : (calls.map IdtCall.index).Nodup) {call : IdtCall}
    (member : call ∈ calls) (isVector : call.index = v) :
    (calls.foldl (fun idt call => call.install idt) idt).Holds v (some call) := by
  induction calls generalizing idt last with
  | nil => cases member
  | cons first calls inductionHypothesis =>
      obtain ⟨fresh, rest⟩ := List.nodup_cons.mp nodup
      have step := @Idt.Holds.install idt v first last holds
      rcases List.mem_cons.mp member with rfl | later
      · rw [if_pos isVector] at step
        exact step.installs_other (isVector ▸ fresh)
      · exact inductionHypothesis step rest later

/-! ## The boot table -/

theorem bootCalls_indices (symbols : HandlerSymbols) :
    (bootCalls symbols).map IdtCall.index = idtIndices ++ [0x80, 0x21] := rfl

theorem bootCalls_nodup (symbols : HandlerSymbols) :
    ((bootCalls symbols).map IdtCall.index).Nodup := by
  rw [bootCalls_indices]
  decide

theorem idtIndices_toNat :
    ∀ i : Fin exceptionCount, (idtIndices.getD i 0).toNat = i.val + 1 := by decide

theorem idtTypes_toNat : ∀ i : Fin exceptionCount,
    (idtTypes.getD i 0).toNat = if i.val = 1 then 0xE else 0xF := by decide

/-- Every call asks for an interrupt or a trap gate. -/
theorem bootCalls_type {call : IdtCall} (member : call ∈ bootCalls symbols) :
    call.type.toNat = 0xE ∨ call.type.toNat = 0xF := by
  rcases List.mem_append.mp member with exception | other
  · obtain ⟨i, _, rfl⟩ := List.mem_map.mp exception
    rw [exceptionCall, idtTypes_toNat]
    split
    · exact Or.inl rfl
    · exact Or.inr rfl
  · right
    rcases List.mem_cons.mp other with rfl | last
    · rfl
    · rw [List.mem_singleton.mp last]
      rfl

/-- The zeroed table has no gates. -/
theorem holds_cleared (idt : Idt) (v : UInt8) :
    Idt.Holds (memsetBytes idt 0 0 idtSize) v none := by
  have small := v.toNat_lt
  intro offset inside
  rw [memsetBytes_apply, if_pos]
  unfold idtSize
  omega

theorem bootIdt_decode {call : IdtCall} (member : call ∈ bootCalls symbols) :
    Gate.decode (bootIdt symbols idt) (16 * call.index.toNat) = call.gate := by
  rw [bootIdt_eq]
  exact (holds_cleared idt call.index).installs_mem (bootCalls_nodup symbols) member rfl

/-- A call clears the byte that could name another stack. -/
theorem IdtCall.load_install_stack {call : IdtCall} :
    ByteMemory.load (call.install idt) (16 * call.index.toNat + 4) 1 = 0 := by
  refine BitFields.load_eq (by decide) fun number inside => ?_
  have bit (field : IdtField) (rest : Nat) (within : rest < field.width)
      (here : 8 * 4 + number = field.position + rest) (zero : call.assigned field = 0) :
      BitFields.bit (call.install idt) (16 * call.index.toNat + 4) number = false := by
    rw [← Nat.zero_testBit rest, ← zero, ← call.bit_install within, ← here,
      ← BitFields.bit_offset (Nat.le_add_right _ number), Nat.add_sub_cancel_left]
  rw [Nat.zero_testBit]
  by_cases inIst : number < 3
  · exact bit .ist number inIst rfl rfl
  · have width : IdtField.unused0.width = 5 := rfl
    have position : IdtField.unused0.position = 35 := rfl
    exact bit .unused0 (number - 3) (by omega) (by omega) rfl

/-- No entry names a stack of the interrupt stack table. -/
theorem bootIdt_stack (v : UInt8) :
    ByteMemory.load (bootIdt symbols idt) (16 * v.toNat + 4) 1 = 0 := by
  have calls (calls : List IdtCall) (idt : Idt)
      (zero : ByteMemory.load idt (16 * v.toNat + 4) 1 = 0) :
      ByteMemory.load (calls.foldl (fun idt call => call.install idt) idt)
        (16 * v.toNat + 4) 1 = 0 := by
    induction calls generalizing idt with
    | nil => exact zero
    | cons call calls inductionHypothesis =>
        refine inductionHypothesis _ ?_
        by_cases same : v = call.index
        · exact same ▸ call.load_install_stack
        · rw [← zero]
          refine ByteMemory.load_congr fun offset inside => ?_
          rw [Nat.add_assoc]
          exact call.install_outside same (by omega)
  rw [bootIdt_eq]
  refine calls _ _ (ByteMemory.load_eq_zero fun offset inside => ?_)
  rw [Nat.add_assoc]
  exact holds_cleared idt v _ (by omega)

/-- The exceptions for which the processor pushes an error code. -/
def pushesErrorCode (v : UInt8) : Bool :=
  v ∈ [8, 10, 11, 12, 13, 14, 17, 21, 29, 30]

/-- The table that the system runs with, for any addresses of the handlers and whatever
the array held: exception `i + 1` leads to handler `i`, through a trap gate but for the
non-maskable interrupt, and the handler takes an error code exactly if the processor
pushes one; vectors `0x80` and `0x21` lead to the system call and the keyboard; no other
vector has a gate, not even the divide error. -/
theorem boot_vectors (symbols : HandlerSymbols) (idt : Idt) :
    (∀ i : Fin exceptionCount,
      Gate.decode (bootIdt symbols idt) (16 * (i.val + 1)) =
          { offset := (symbols.handler i).toNat
            selector := kernelCodeSelector
            type := if i.val = 1 then 0xE else 0xF
            dpl := 3
            present := true } ∧
        (exceptionHandlers i).errorCode = pushesErrorCode (UInt8.ofNat (i.val + 1))) ∧
      Gate.decode (bootIdt symbols idt) (16 * 0x80) =
        { offset := symbols.syscallEntry.toNat
          selector := kernelCodeSelector
          type := 0xF
          dpl := 3
          present := true } ∧
      Gate.decode (bootIdt symbols idt) (16 * 0x21) =
        { offset := symbols.keyboardInterrupt.toNat
          selector := kernelCodeSelector
          type := 0xF
          dpl := 3
          present := true } ∧
      ∀ v : UInt8, v = 0 ∨ 22 ≤ v.toNat ∧ v ≠ 0x21 ∧ v ≠ 0x80 ->
        (Gate.decode (bootIdt symbols idt) (16 * v.toNat)).present = false := by
  refine ⟨fun i => ⟨?_, ?_⟩, ?_, ?_, ?_⟩
  · have member : exceptionCall symbols i ∈ bootCalls symbols :=
      List.mem_append_left _ (List.mem_map_of_mem (List.mem_finRange i))
    have vector : (exceptionCall symbols i).index.toNat = i.val + 1 := idtIndices_toNat i
    have type : (exceptionCall symbols i).type.toNat = if i.val = 1 then 0xE else 0xF :=
      idtTypes_toNat i
    rw [← vector, bootIdt_decode member, IdtCall.gate, type]
    rfl
  · revert i
    decide
  · exact bootIdt_decode (syscallCall_mem symbols)
  · exact bootIdt_decode (keyboardCall_mem symbols)
  · intro v unset
    have others : v ∉ (bootCalls symbols).map IdtCall.index := by
      have setVectors : ∀ set ∈ idtIndices ++ [0x80, 0x21],
          ¬(set = 0 ∨ 22 ≤ set.toNat ∧ set ≠ 0x21 ∧ set ≠ 0x80) := by decide +kernel
      rw [bootCalls_indices]
      exact fun member => setVectors v member unset
    have zero := (holds_cleared idt v).installs_other others
    rw [bootIdt_eq, Gate.decode]
    have flags : ByteMemory.load ((bootCalls symbols).foldl (fun idt call => call.install idt)
        (memsetBytes idt 0 0 idtSize)) (16 * v.toNat + 5) 1 = 0 :=
      ByteMemory.load_eq_zero fun offset bound => by
        rw [Nat.add_assoc]
        exact zero _ (by omega)
    simp only [flags, Nat.zero_testBit]

end StarterKernel
