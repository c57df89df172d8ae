import Mathlib.Logic.Function.Basic

/-!
# A cache in front of a partial function

A cache holds values of a partial function, the table, and is consulted first.  The
owner of the table may change it and drop entries of the cache.  The cache stays
coherent when every key whose value is replaced is dropped; a key that had no value
was not cached and need not be.
-/

namespace LookupCache

variable {Key Value : Type*}

/-- Every cached value is the value of the table. -/
def Coherent (cache table : Key -> Option Value) : Prop :=
  forall key value, cache key = some value -> table key = some value

/-- Look a key up in the cache, and in the table if the cache does not hold it. -/
def get (cache table : Key -> Option Value) (key : Key) : Option Value :=
  (cache key).or (table key)

/-- Drop the entries of some keys. -/
def drop (cache : Key -> Option Value) (stale : Key -> Bool) : Key -> Option Value :=
  fun key => if stale key then none else cache key

/-- Cache the value of one key. -/
def fill [DecidableEq Key] (cache table : Key -> Option Value) (key : Key) :
    Key -> Option Value :=
  Function.update cache key (table key)

variable {cache table other : Key -> Option Value}

theorem coherent_empty (table : Key -> Option Value) : Coherent (fun _ => none) table := by
  intro key value held
  cases held

namespace Coherent

/-- Behind a coherent cache the table decides every lookup. -/
theorem get_eq (coherent : Coherent cache table) (key : Key) :
    get cache table key = table key := by
  unfold get
  cases held : cache key with
  | none => rfl
  | some value => exact (coherent key value held).symm

theorem fill [DecidableEq Key] (coherent : Coherent cache table) (key : Key) :
    Coherent (LookupCache.fill cache table key) table := by
  intro position value held
  by_cases same : position = key
  · subst same
    rwa [LookupCache.fill, Function.update_self] at held
  · rw [LookupCache.fill, Function.update_of_ne same] at held
    exact coherent position value held

/-- The table may change a key that it drops from the cache, or that had no value. -/
theorem change (coherent : Coherent cache table) {stale : Key -> Bool}
    (same : forall key, stale key = false -> table key ≠ none -> other key = table key) :
    Coherent (LookupCache.drop cache stale) other := by
  intro key value held
  unfold LookupCache.drop at held
  split at held
  next => cases held
  next kept =>
    have before := coherent key value held
    rw [same key (by simpa using kept) (by simp [before]), before]

theorem drop (coherent : Coherent cache table) (stale : Key -> Bool) :
    Coherent (LookupCache.drop cache stale) table :=
  coherent.change fun _ _ _ => rfl

/-- A change that replaces no value needs no drop. -/
theorem congr (coherent : Coherent cache table)
    (same : forall key, table key ≠ none -> other key = table key) :
    Coherent cache other := by
  intro key value held
  have before := coherent key value held
  rw [same key (by simp [before]), before]

end Coherent
end LookupCache
