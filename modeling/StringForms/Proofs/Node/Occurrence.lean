/-
Module: StringForms.Proofs.Node.Occurrence
Purpose: The members of a node, induction along them, and what it means to stand somewhere in a tree.
Main exports: Node.members, Node.memberInduction, Node.Occurs, Node.not_occurs_iff
-/
import StringForms.Node.Basic

namespace StringForms.Node

/-!
A tree nests nodes in lists and in optional places. Taking all of them as one list of members turns
an induction over three mutual shapes into one step: what holds of a node whenever it holds of all
its members holds of every node.
-/

/-- The nodes directly below a node, in the order in which they are written. -/
def members : Node → List Node
  | .dstr parts => parts
  | .begin statements => statements
  | .const scope _ => scope.toList
  | .send receiver _ arguments => receiver.toList ++ arguments
  | _ => []

/-- Induction along the members of a node. -/
@[elab_as_elim]
theorem memberInduction {holds : Node → Prop}
    (step : ∀ node, (∀ member ∈ node.members, holds member) → holds node) (node : Node) :
    holds node := by
  refine @Node.rec holds (fun nodes => ∀ node ∈ nodes, holds node)
    (fun place => ∀ node ∈ place.toList, holds node)
    ?_ ?_ ?_ ?_ ?_ ?_ ?_ ?_ ?_ ?_ ?_ ?_ ?_ node
  · intro text
    exact step _ (by simp [members])
  · intro parts below
    exact step _ below
  · intro statements below
    exact step _ below
  · intro sort text
    exact step _ (by simp [members])
  · intro group
    exact step _ (by simp [members])
  · intro value
    exact step _ (by simp [members])
  · intro which
    exact step _ (by simp [members])
  · intro scope label below
    exact step _ below
  · intro receiver method arguments inReceiver inArguments
    apply step
    intro member found
    rcases List.mem_append.mp found with found | found
    · exact inReceiver member found
    · exact inArguments member found
  · simp
  · intro head rest ofHead ofRest
    simpa using ⟨ofHead, ofRest⟩
  · simp
  · intro inner ofInner
    simpa using ofInner

/-- `inner` is `outer` or stands somewhere in it. -/
inductive Occurs (inner : Node) : Node → Prop where
  | here : Occurs inner inner
  | within {outer member : Node} (found : member ∈ outer.members) (inside : Occurs inner member) :
      Occurs inner outer

/-- What occurs in a node is the node itself, or it occurs in a member. -/
theorem occurs_iff {inner outer : Node} :
    Occurs inner outer ↔ inner = outer ∨ ∃ member ∈ outer.members, Occurs inner member := by
  constructor
  · intro occurs
    cases occurs with
    | here => exact .inl rfl
    | within found inside => exact .inr ⟨_, found, inside⟩
  · rintro (rfl | ⟨member, found, inside⟩)
    · exact .here
    · exact .within found inside

/-- A node is free of another one if it is a different node and all its members are free of it. -/
theorem not_occurs_iff {inner outer : Node} :
    ¬ Occurs inner outer ↔ inner ≠ outer ∧ ∀ member ∈ outer.members, ¬ Occurs inner member := by
  rw [occurs_iff, not_or]
  simp

end StringForms.Node
