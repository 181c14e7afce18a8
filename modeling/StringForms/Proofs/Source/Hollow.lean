/-
Module: StringForms.Proofs.Source.Hollow
Purpose: Strings whose splices are empty, and what is left of a string when the strings in it are
  dissolved.
Main exports: Node.IsHollow, Leaf, Part.leaves, Part.IsHollow, isHollow_ofNode
-/
import StringForms.Proofs.Node.Offender
import StringForms.Proofs.Source.Parts

namespace StringForms

namespace Node

/-- A tree of literal text, nested strings and splices with nothing in them. -/
def IsHollow (node : Node) : Prop :=
  ∀ inner, Occurs inner node → inner.isStr = true ∨ inner.isDstr = true ∨ inner = .begin []

/-- A hollow tree is a text, an empty splice, or a string of hollow trees. -/
theorem IsHollow.shape {node : Node} (hollow : node.IsHollow) :
    (∃ text, node = .str text) ∨ node = .begin [] ∨
      ∃ parts, node = .dstr parts ∧ ∀ part ∈ parts, part.IsHollow := by
  have below : ∀ member ∈ node.members, member.IsHollow :=
    fun member found inner occurs => hollow inner (.within found occurs)
  rcases hollow node .here with literal | nested | splice
  · cases node with
    | str text => exact .inl ⟨text, rfl⟩
    | _ => cases literal
  · obtain ⟨parts, rfl⟩ := exists_eq_dstr nested
    exact .inr (.inr ⟨parts, rfl, below⟩)
  · exact .inr (.inl splice)

theorem isHollow_str (text : String) : (Node.str text).IsHollow := by
  intro inner occurs
  rcases occurs_iff.mp occurs with rfl | ⟨member, found, _⟩
  · exact .inl rfl
  · cases found

theorem isHollow_begin : (Node.begin []).IsHollow := by
  intro inner occurs
  rcases occurs_iff.mp occurs with rfl | ⟨member, found, _⟩
  · exact .inr (.inr rfl)
  · cases found

theorem isHollow_dstr {parts : List Node} (hollow : ∀ part ∈ parts, part.IsHollow) :
    (Node.dstr parts).IsHollow := by
  intro inner occurs
  rcases occurs_iff.mp occurs with rfl | ⟨member, found, inside⟩
  · exact .inr (.inl rfl)
  · exact hollow member found inner inside

theorem descendants_eq_flatMap (node : Node) :
    node.descendants = node.members.flatMap fun member => member :: member.descendants := by
  rw [descendants]
  exact List.flatMap_congr fun member _ => map_snd_outline 0 member

end Node

namespace Source

/-! ### Leaves -/

/-- What a string comes to when the strings in it are dissolved: a row of texts and splices. -/
inductive Leaf where
  | text (characters : List Char)
  | splice
deriving Repr, Inhabited, DecidableEq

mutual

/-- The leaves of a part, from left to right. -/
def Part.leaves : Part → List Leaf
  | .literal text => [.text text.toList]
  | .splice _ => [.splice]
  | .nested parts => Part.leavesOfAll parts
  | _ => []

/-- The leaves of a row of parts. -/
def Part.leavesOfAll : List Part → List Leaf
  | [] => []
  | part :: rest => Part.leaves part ++ Part.leavesOfAll rest

end

theorem leavesOfAll_eq_flatMap (parts : List Part) :
    Part.leavesOfAll parts = parts.flatMap Part.leaves := by
  induction parts with
  | nil => rw [Part.leavesOfAll, List.flatMap_nil]
  | cons part rest ih => rw [Part.leavesOfAll, ih, List.flatMap_cons]

/-- Whether a leaf is a splice. -/
def Leaf.isSplice : Leaf → Bool
  | .splice => true
  | _ => false

/-! ### Hollow parts -/

mutual

/-- A part whose splices are all empty and which holds nothing else but text. -/
def Part.IsHollow : Part → Prop
  | .literal _ => True
  | .splice code => code = .empty
  | .nested parts => Part.AllHollow parts
  | _ => False

/-- All of a row of parts. -/
def Part.AllHollow : List Part → Prop
  | [] => True
  | part :: rest => Part.IsHollow part ∧ Part.AllHollow rest

end

theorem allHollow_iff {parts : List Part} :
    Part.AllHollow parts ↔ ∀ part ∈ parts, part.IsHollow := by
  induction parts with
  | nil => simp [Part.AllHollow]
  | cons part rest ih => rw [Part.AllHollow, ih, List.forall_mem_cons]

/-- The part that a hollow node becomes is hollow and has a leaf for each of its splices. -/
theorem isHollow_ofNode {node : Node} (hollow : node.IsHollow) :
    (Part.ofNode node).IsHollow ∧
      (Part.ofNode node).leaves.countP Leaf.isSplice =
        (node :: node.descendants).countP Node.isBegin := by
  induction node using Node.memberInduction with
  | step node ih =>
      rcases hollow.shape with ⟨text, rfl⟩ | rfl | ⟨parts, rfl, below⟩
      · rw [Part.ofNode, Part.IsHollow, Part.leaves]
        exact ⟨trivial, rfl⟩
      · rw [Part.ofNode, Part.IsHollow, Part.leaves]
        exact ⟨rfl, rfl⟩
      · have each := fun part found => ih part found (below part found)
        rw [Part.ofNode, Part.IsHollow, Part.leaves, allHollow_iff, leavesOfAll_eq_flatMap,
          ofNodes_eq_map, List.countP_flatMap, List.map_map]
        constructor
        · intro part found
          rcases List.mem_map.mp found with ⟨node, member, rfl⟩
          exact (each node member).1
        · have root : (Node.dstr parts).isBegin = false := rfl
          rw [List.countP_cons_of_neg (by simp [root]), Node.descendants_eq_flatMap,
            List.countP_flatMap]
          exact congrArg List.sum (List.map_congr_left fun node found => (each node found).2)

end Source

end StringForms
