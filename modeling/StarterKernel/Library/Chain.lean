import Mathlib.Data.List.Nodup
import Mathlib.Data.List.Perm.Subperm

/-!
# Intrusive singly linked lists

The nodes of an intrusive list hold the link to their successor themselves.
`Chain next null head nodes` says that following `next` from `head` visits
exactly `nodes`, in order, and then reaches `null`.
-/

namespace IntrusiveList

variable {α : Type} {next other : α -> α} {null head : α} {nodes : List α}

/-- Following `next` from the head visits the given nodes and ends in `null`. -/
def Chain (next : α -> α) (null : α) : α -> List α -> Prop
  | head, [] => head = null
  | head, node :: rest =>
      head = node ∧ node ≠ null ∧ Chain next null (next node) rest

@[simp] theorem chain_nil : Chain next null head [] ↔ head = null := Iff.rfl

@[simp] theorem chain_cons {node : α} {rest : List α} :
    Chain next null head (node :: rest) ↔
      head = node ∧ node ≠ null ∧ Chain next null (next node) rest := Iff.rfl

/-- A chain only depends on the links of its own nodes. -/
theorem Chain.congr
    (chain : Chain next null head nodes)
    (agree : ∀ node ∈ nodes, other node = next node) :
    Chain other null head nodes := by
  induction nodes generalizing head with
  | nil => exact chain
  | cons node rest inductionHypothesis =>
      obtain ⟨headIs, nonNull, tail⟩ := chain
      refine ⟨headIs, nonNull, ?_⟩
      rw [agree node (by simp)]
      exact inductionHypothesis tail fun node member =>
        agree node (List.mem_cons_of_mem _ member)

/-- The head of a chain is null exactly when the chain is empty. -/
theorem Chain.head_eq_null_iff
    (chain : Chain next null head nodes) :
    head = null ↔ nodes = [] := by
  cases nodes with
  | nil => simpa using chain
  | cons node rest =>
      obtain ⟨rfl, nonNull, _⟩ := chain
      simp [nonNull]

/-- The nodes of a chain are determined by its head. -/
theorem Chain.unique
    {left right : List α}
    (leftChain : Chain next null head left)
    (rightChain : Chain next null head right) :
    left = right := by
  induction left generalizing head right with
  | nil =>
      exact (rightChain.head_eq_null_iff.mp leftChain).symm
  | cons node rest inductionHypothesis =>
      cases right with
      | nil => exact absurd (leftChain.1.symm.trans rightChain) leftChain.2.1
      | cons other others =>
          obtain ⟨rfl, _, leftTail⟩ := leftChain
          obtain ⟨rfl, _, rightTail⟩ := rightChain
          rw [inductionHypothesis leftTail rightTail]

/-- No node occurs twice in a chain: the chain from its first occurrence would
be as long as the chain from its second. -/
theorem Chain.nodup
    (chain : Chain next null head nodes) : nodes.Nodup := by
  induction nodes generalizing head with
  | nil => exact List.nodup_nil
  | cons node rest inductionHypothesis =>
      have wholeChain := chain
      obtain ⟨rfl, nonNull, tail⟩ := chain
      refine List.nodup_cons.mpr ⟨?_, inductionHypothesis tail⟩
      intro member
      obtain ⟨before, after, rfl⟩ := List.append_of_mem member
      have fromSecond : Chain next null head (head :: after) := by
        clear wholeChain inductionHypothesis member
        generalize next head = start at tail
        induction before generalizing start with
        | nil => exact ⟨rfl, tail.2.1, tail.1 ▸ tail.2.2⟩
        | cons _ _ suffixHypothesis => exact suffixHypothesis _ tail.2.2
      have sameNodes := congrArg List.length (fromSecond.unique wholeChain)
      simp at sameNodes
      omega

/-- The nodes of a chain are not null. -/
theorem Chain.ne_null {node : α}
    (chain : Chain next null head nodes) (member : node ∈ nodes) : node ≠ null := by
  induction nodes generalizing head with
  | nil => cases member
  | cons first rest inductionHypothesis =>
      obtain ⟨_, nonNull, tail⟩ := chain
      rcases List.mem_cons.mp member with rfl | inRest
      · exact nonNull
      · exact inductionHypothesis tail inRest

/-- A chain of numbers below a bound has fewer nodes than the bound: `0` is none of them. -/
theorem Chain.length_lt {next : Nat -> Nat} {head bound : Nat} {nodes : List Nat}
    (chain : Chain next 0 head nodes) (positive : 0 < bound)
    (below : ∀ node ∈ nodes, node < bound) : nodes.length < bound := by
  have distinct : (0 :: nodes).Nodup :=
    List.nodup_cons.mpr ⟨fun member => chain.ne_null member rfl, chain.nodup⟩
  have subset : 0 :: nodes ⊆ List.range bound := by
    intro node member
    rw [List.mem_range]
    rcases List.mem_cons.mp member with rfl | inNodes
    · exact positive
    · exact below node inNodes
  have shorter := (distinct.subperm subset).length_le
  rwa [List.length_cons, List.length_range] at shorter

/-- Linking a new node in front of a chain extends the chain by that node. -/
theorem Chain.push
    {node : α}
    (chain : Chain next null head nodes)
    (nonNull : node ≠ null)
    (linked : other node = head)
    (agree : ∀ member ∈ nodes, other member = next member) :
    Chain other null node (node :: nodes) := by
  refine ⟨rfl, nonNull, ?_⟩
  rw [linked]
  exact chain.congr agree

end IntrusiveList
