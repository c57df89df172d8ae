import StarterKernel.Library.StateError

/-!
# Simulation of computations

A computation simulates another one if it succeeds with the same value wherever the other
one does, and leads from related states to related states.
-/

namespace StateError

variable {ε δ σ τ α β : Type} {related : σ -> τ -> Prop}

/-- The first computation does what the second one does, on related states. -/
def Simulates (related : σ -> τ -> Prop) (first : EStateM ε σ α) (second : EStateM δ τ α) :
    Prop :=
  ∀ state abstract, related state abstract -> ∀ value final,
    second abstract = .ok value final ->
      ∃ after, first state = .ok value after ∧ related after final

namespace Simulates

variable {first : EStateM ε σ α} {second : EStateM δ τ α}
variable {firstNext : α -> EStateM ε σ β} {secondNext : α -> EStateM δ τ β}

protected theorem pure (value : α) :
    Simulates related (pure value : EStateM ε σ α) (pure value : EStateM δ τ α) := by
  intro state abstract isRelated result final run
  cases run
  exact ⟨state, rfl, isRelated⟩

protected theorem modify {change : σ -> σ} {abstractChange : τ -> τ}
    (step : ∀ state abstract, related state abstract ->
      related (change state) (abstractChange abstract)) :
    Simulates related (modify change : EStateM ε σ PUnit)
      (modify abstractChange : EStateM δ τ PUnit) := by
  intro state abstract isRelated result final run
  cases run
  exact ⟨_, rfl, step _ _ isRelated⟩

protected theorem bind (simulates : Simulates related first second)
    (later : ∀ value, Simulates related (firstNext value) (secondNext value)) :
    Simulates related (first >>= firstNext) (second >>= secondNext) := by
  intro state abstract isRelated result final run
  obtain ⟨value, middle, runs, rest⟩ := ok_of_bind run
  obtain ⟨between, isFirst, stays⟩ := simulates _ _ isRelated _ _ runs
  obtain ⟨after, ends, isEnd⟩ := later value _ _ stays _ _ rest
  exact ⟨after, (bind_of_ok isFirst).trans ends, isEnd⟩

/-- Both computations look at their states before they go on. -/
protected theorem get {next : σ -> EStateM ε σ β} {abstractNext : τ -> EStateM δ τ β}
    (later : ∀ state abstract, related state abstract ->
      Simulates related (next state) (abstractNext abstract)) :
    Simulates related (get >>= next) (get >>= abstractNext) :=
  fun state abstract isRelated => later state abstract isRelated state abstract isRelated

protected theorem ite {condition : Prop} [Decidable condition]
    {otherFirst : EStateM ε σ α} {otherSecond : EStateM δ τ α}
    (simulates : Simulates related first second)
    (others : Simulates related otherFirst otherSecond) :
    Simulates related (if condition then first else otherFirst)
      (if condition then second else otherSecond) := by
  split
  · exact simulates
  · exact others

protected theorem forM {body : β -> EStateM ε σ PUnit} {abstractBody : β -> EStateM δ τ PUnit}
    (round : ∀ item, Simulates related (body item) (abstractBody item)) (items : List β) :
    Simulates related (items.forM body) (items.forM abstractBody) := by
  induction items with
  | nil => exact Simulates.pure PUnit.unit
  | cons item items inductionHypothesis =>
      exact (round item).bind fun _ => inductionHypothesis

end Simulates
end StateError
