import Mathlib.Tactic.Common

/-!
# Computations with state and errors

How a sequence of computations in `EStateM` ends, in terms of how its parts end.
-/

namespace StateError

variable {ε σ α β : Type} {first : EStateM ε σ α} {next : α -> EStateM ε σ β}
variable {state middle final : σ} {value : α} {result : β} {error : ε}

theorem pure_apply (value : α) (state : σ) :
    (pure value : EStateM ε σ α) state = .ok value state := rfl

theorem throw_apply (error : ε) (state : σ) :
    (throw error : EStateM ε σ α) state = .error error state := rfl

theorem get_apply (state : σ) :
    (get : EStateM ε σ σ) state = .ok state state := rfl

theorem modify_apply (change : σ -> σ) (state : σ) :
    (modify change : EStateM ε σ PUnit) state = .ok ⟨⟩ (change state) := rfl

theorem modifyGet_apply (change : σ -> α × σ) (state : σ) :
    (modifyGet change : EStateM ε σ α) state =
      .ok (change state).1 (change state).2 := rfl

/-- A computation ends in one way. -/
theorem ok_unique {other : α} (run : first state = .ok value middle)
    (runs : first state = .ok other final) : other = value ∧ final = middle := by
  rw [run] at runs
  cases runs
  exact ⟨rfl, rfl⟩

/-- After a computation that succeeds the sequence goes on. -/
theorem bind_of_ok (run : first state = .ok value middle) :
    (first >>= next) state = next value middle := by
  change EStateM.bind first next state = _
  simp only [EStateM.bind, run]

/-- After a computation that fails the sequence fails. -/
theorem bind_of_error (run : first state = .error error middle) :
    (first >>= next) state = .error error middle := by
  change EStateM.bind first next state = _
  simp only [EStateM.bind, run]

/-- A sequence succeeds only if both of its parts do. -/
theorem ok_of_bind (run : (first >>= next) state = .ok result final) :
    ∃ value middle, first state = .ok value middle ∧
      next value middle = .ok result final := by
  cases ends : first state with
  | ok value middle => exact ⟨value, middle, rfl, (bind_of_ok ends).symm.trans run⟩
  | error error middle =>
      rw [bind_of_error ends] at run
      cases run

theorem ok_bind_iff :
    (first >>= next) state = .ok result final ↔
      ∃ value middle, first state = .ok value middle ∧
        next value middle = .ok result final :=
  ⟨ok_of_bind, fun ⟨_, _, run, rest⟩ => (bind_of_ok run).trans rest⟩

/-- Sequences that go on the same after their first part succeeds. -/
theorem bind_congr_of_ok {other : α -> EStateM ε σ β}
    (same : ∀ value middle, first state = .ok value middle ->
      next value middle = other value middle) :
    (first >>= next) state = (first >>= other) state := by
  cases ends : first state with
  | ok value middle => rw [bind_of_ok ends, bind_of_ok ends, same value middle ends]
  | error error middle => rw [bind_of_error ends, bind_of_error ends]

/-- Sequences that go on with the same part of what their first parts end with. -/
theorem bind_congr_of_map {γ δ : Type} {other : EStateM ε σ β} {leftPart : α -> γ}
    {rightPart : β -> γ}
    (same : (leftPart <$> first) state = (rightPart <$> other) state)
    (rest : γ -> EStateM ε σ δ) :
    (first >>= fun value => rest (leftPart value)) state =
      (other >>= fun value => rest (rightPart value)) state := by
  have goesOn : ((leftPart <$> first) >>= rest) state = ((rightPart <$> other) >>= rest) state := by
    change EStateM.bind _ _ state = EStateM.bind _ _ state
    simp only [EStateM.bind, same]
  rwa [bind_map_left, bind_map_left] at goesOn

theorem forM_cons_apply (body : β -> EStateM ε σ PUnit) (item : β) (items : List β)
    (state : σ) :
    (item :: items).forM body state = (body item >>= fun _ => items.forM body) state :=
  rfl

/-- A loop over the images of items. -/
theorem forM_map (convert : α -> β) (items : List α) (body : β -> EStateM ε σ PUnit) :
    (items.map convert).forM body = items.forM fun item => body (convert item) := by
  induction items with
  | nil => rfl
  | cons item items inductionHypothesis =>
      funext state
      rw [List.map_cons, forM_cons_apply, inductionHypothesis, forM_cons_apply]

/-- A loop over a range goes through the states that its rounds lead to. -/
theorem forM_range_apply {body : Nat -> EStateM ε σ PUnit} {count : Nat}
    (states : Nat -> σ)
    (step : ∀ i < count, body i (states i) = .ok ⟨⟩ (states (i + 1))) :
    (List.range count).forM body (states 0) = .ok ⟨⟩ (states count) := by
  have loop : ∀ rounds first, first + rounds = count ->
      (List.range' first rounds).forM body (states first) = .ok ⟨⟩ (states count) := by
    intro rounds
    induction rounds with
    | zero =>
        intro first total
        rw [← total]
        rfl
    | succ rounds inductionHypothesis =>
        intro first total
        rw [List.range'_succ, forM_cons_apply, bind_of_ok (step first (by omega))]
        exact inductionHypothesis (first + 1) (by omega)
  rw [List.range_eq_range']
  exact loop count 0 (Nat.zero_add count)

/-! ## The value at the end -/

/-- The value a computation ends with, unless it ends with an error. -/
def finalValue : EStateM.Result ε σ α -> Option α
  | .ok value _ => some value
  | .error _ _ => none

theorem ok_of_finalValue {result : EStateM.Result ε σ α}
    (ends : finalValue result = some value) : ∃ final, result = .ok value final := by
  cases result with
  | ok _ final =>
      cases ends
      exact ⟨final, rfl⟩
  | error _ _ => cases ends

/-! ## The state at the end -/

/-- The state a computation ends in, with a result or with an error. -/
def finalState : EStateM.Result ε σ α -> σ
  | .ok _ final => final
  | .error _ final => final

@[simp] theorem finalState_ok (value : α) (final : σ) :
    finalState (.ok value final : EStateM.Result ε σ α) = final := rfl

@[simp] theorem finalState_error (error : ε) (final : σ) :
    finalState (.error error final : EStateM.Result ε σ α) = final := rfl

/-- What holds where the first part fails and where the second part ends holds where
the sequence ends. -/
theorem finalState_bind {holds : σ -> Prop}
    (failed : ∀ error middle, first state = .error error middle -> holds middle)
    (goesOn : ∀ value middle, first state = .ok value middle ->
      holds (finalState (next value middle))) :
    holds (finalState ((first >>= next) state)) := by
  cases ends : first state with
  | ok value middle =>
      rw [bind_of_ok ends]
      exact goesOn value middle ends
  | error error middle =>
      rw [bind_of_error ends]
      exact failed error middle ends

/-- An invariant of the rounds of a loop holds where the loop ends. -/
theorem finalState_forM {invariant : σ -> Prop} {body : β -> EStateM ε σ PUnit}
    {items : List β} (start : invariant state)
    (step : ∀ item ∈ items, ∀ state, invariant state ->
      invariant (finalState (body item state))) :
    invariant (finalState (items.forM body state)) := by
  induction items generalizing state with
  | nil => exact start
  | cons item items inductionHypothesis =>
      simp only [List.mem_cons, forall_eq_or_imp] at step
      have round := step.1 state start
      rw [forM_cons_apply]
      apply finalState_bind
      · intro error middle fails
        rwa [fails] at round
      · intro _ middle succeeds
        rw [succeeds] at round
        exact inductionHypothesis round step.2

/-- The computation leaves the state alone, however it ends. -/
def Keeps (first : EStateM ε σ α) : Prop := ∀ state, finalState (first state) = state

namespace Keeps

theorem of_ok (keeps : Keeps first) (run : first state = .ok value final) :
    final = state := by
  have same := keeps state
  rwa [run] at same

theorem of_error (keeps : Keeps first) (run : first state = .error error final) :
    final = state := by
  have same := keeps state
  rwa [run] at same

protected theorem pure (value : α) : Keeps (pure value : EStateM ε σ α) := fun _ => rfl

protected theorem throw (error : ε) : Keeps (throw error : EStateM ε σ α) := fun _ => rfl

protected theorem bind (keeps : Keeps first) (later : ∀ value, Keeps (next value)) :
    Keeps (first >>= next) := by
  intro state
  refine @finalState_bind _ _ _ _ _ _ state (· = state) ?_ ?_
  · intro error middle fails
    exact keeps.of_error fails
  · intro value middle succeeds
    rw [later value middle, keeps.of_ok succeeds]

protected theorem ite {condition : Prop} [Decidable condition]
    {other : EStateM ε σ α} (keeps : Keeps first) (otherKeeps : Keeps other) :
    Keeps (if condition then first else other) := by
  split
  · exact keeps
  · exact otherKeeps

end Keeps

/-- The computation leaves a part of the state alone, however it ends. -/
def KeepsPart {γ : Type} (part : σ -> γ) (first : EStateM ε σ α) : Prop :=
  ∀ state, part (finalState (first state)) = part state

namespace KeepsPart

variable {γ : Type} {part : σ -> γ}

theorem of_ok (keeps : KeepsPart part first) (run : first state = .ok value final) :
    part final = part state := by
  have same := keeps state
  rwa [run] at same

theorem of_error (keeps : KeepsPart part first)
    (run : first state = .error error final) : part final = part state := by
  have same := keeps state
  rwa [run] at same

/-- A computation that leaves the state alone leaves every part of it alone. -/
theorem of_keeps (keeps : Keeps first) : KeepsPart part first :=
  fun state => congrArg part (keeps state)

protected theorem modify {change : σ -> σ}
    (same : ∀ state, part (change state) = part state) :
    KeepsPart part (modify change : EStateM ε σ PUnit) := same

protected theorem modifyGet {change : σ -> α × σ}
    (same : ∀ state, part (change state).2 = part state) :
    KeepsPart part (modifyGet change : EStateM ε σ α) := same

protected theorem bind (keeps : KeepsPart part first)
    (later : ∀ value, KeepsPart part (next value)) :
    KeepsPart part (first >>= next) := by
  intro state
  refine @finalState_bind _ _ _ _ _ _ state (part · = part state) ?_ ?_
  · intro error middle fails
    exact keeps.of_error fails
  · intro value middle succeeds
    rw [later value middle, keeps.of_ok succeeds]

protected theorem ite {condition : Prop} [Decidable condition]
    {other : EStateM ε σ α} (keeps : KeepsPart part first)
    (otherKeeps : KeepsPart part other) :
    KeepsPart part (if condition then first else other) := by
  split
  · exact keeps
  · exact otherKeeps

protected theorem forM {body : β -> EStateM ε σ PUnit}
    (keeps : ∀ item, KeepsPart part (body item)) (items : List β) :
    KeepsPart part (items.forM body) := by
  intro state
  refine @finalState_forM _ _ _ state (part · = part state) _ _ rfl ?_
  intro item _ middle same
  rw [keeps item middle, same]

end KeepsPart

/-- The computations are the same from a state on where a part has a given value. -/
def SameWhere {γ : Type} (part : σ -> γ) (known : γ) (first other : EStateM ε σ α) : Prop :=
  ∀ state, part state = known -> first state = other state

namespace SameWhere

variable {γ : Type} {part : σ -> γ} {known : γ} {other : EStateM ε σ α}
variable {otherNext : α -> EStateM ε σ β}

protected theorem refl : SameWhere part known first first := fun _ _ => rfl

protected theorem bind (same : SameWhere part known first other)
    (keeps : KeepsPart part first)
    (later : ∀ value, SameWhere part known (next value) (otherNext value)) :
    SameWhere part known (first >>= next) (other >>= otherNext) := by
  intro state isKnown
  change EStateM.bind first next state = EStateM.bind other otherNext state
  have kept := keeps state
  rw [EStateM.bind, EStateM.bind, ← same state isKnown]
  cases ends : first state with
  | ok value middle =>
      rw [ends] at kept
      exact later value middle (kept.trans isKnown)
  | error error middle => rfl

protected theorem ite {condition : Prop} [Decidable condition]
    {second otherSecond : EStateM ε σ α} (same : SameWhere part known first other)
    (sameSecond : SameWhere part known second otherSecond) :
    SameWhere part known (if condition then first else second)
      (if condition then other else otherSecond) := by
  split
  · exact same
  · exact sameSecond

protected theorem forM {body otherBody : β -> EStateM ε σ PUnit}
    (same : ∀ item, SameWhere part known (body item) (otherBody item))
    (keeps : ∀ item, KeepsPart part (body item)) (items : List β) :
    SameWhere part known (items.forM body) (items.forM otherBody) := by
  induction items with
  | nil => exact SameWhere.refl
  | cons item items inductionHypothesis =>
      have round := (same item).bind (keeps item) fun _ => inductionHypothesis
      exact round

end SameWhere

/-- The end of a computation with its state changed. -/
def mapState (change : σ -> σ) : EStateM.Result ε σ α -> EStateM.Result ε σ α
  | .ok value final => .ok value (change final)
  | .error error final => .error error (change final)

/-- It makes no difference whether a change of the state comes before or after the
computation. -/
def Commutes (change : σ -> σ) (first : EStateM ε σ α) : Prop :=
  ∀ state, first (change state) = mapState change (first state)

namespace Commutes

variable {change : σ -> σ}

theorem of_ok (commutes : Commutes change first)
    (run : first state = .ok value final) :
    first (change state) = .ok value (change final) := by
  rw [commutes state, run]
  rfl

protected theorem pure (value : α) : Commutes change (pure value : EStateM ε σ α) :=
  fun _ => rfl

protected theorem throw (error : ε) : Commutes change (throw error : EStateM ε σ α) :=
  fun _ => rfl

protected theorem bind (commutes : Commutes change first)
    (later : ∀ value, Commutes change (next value)) :
    Commutes change (first >>= next) := by
  intro state
  have atStart := commutes state
  cases ends : first state with
  | ok value middle =>
      rw [ends] at atStart
      rw [bind_of_ok ends, bind_of_ok atStart]
      exact later value middle
  | error error middle =>
      rw [ends] at atStart
      rw [bind_of_error ends, bind_of_error atStart]
      rfl

protected theorem ite {condition : Prop} [Decidable condition]
    {other : EStateM ε σ α} (commutes : Commutes change first)
    (otherCommutes : Commutes change other) :
    Commutes change (if condition then first else other) := by
  split
  · exact commutes
  · exact otherCommutes

protected theorem forM {body : β -> EStateM ε σ PUnit}
    (commutes : ∀ item, Commutes change (body item)) (items : List β) :
    Commutes change (items.forM body) := by
  induction items with
  | nil => exact Commutes.pure PUnit.unit
  | cons item items inductionHypothesis =>
      have round := (commutes item).bind fun _ => inductionHypothesis
      exact round

end Commutes

end StateError
