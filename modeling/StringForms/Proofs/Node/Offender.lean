/-
Module: StringForms.Proofs.Node.Offender
Purpose: The nodes for which no source text can be written, in the order of the tree.
Main exports: Node.isBare, Node.offenders, Node.Offends, Node.mem_offenders_iff,
  Node.offenders_sublist_descendants
-/
import Mathlib.Data.List.Basic
import Mathlib.Data.List.Flatten
import StringForms.Proofs.Node.Occurrence

namespace StringForms.Node

/-!
An offender is an expression that is a direct part of a string although only a splice can hold it
there. The list of the offenders of a tree is in preorder: an offender stands before the offenders
below it, and members are taken in the order in which they are written.
-/

/-- Whether a node is an expression that a string can hold only in a splice. -/
def isBare (node : Node) : Bool :=
  !(node.isStr || node.isDstr || node.isBegin || node.kind.isFlat)

mutual

/-- The offenders below a node, in preorder. -/
def offenders : Node → List Node
  | .dstr parts => offendersOfParts parts
  | .begin statements => offendersOfAll statements
  | .const scope _ => offendersOfOptional scope
  | .send receiver _ arguments => offendersOfOptional receiver ++ offendersOfAll arguments
  | _ => []

/-- The offenders among the parts of a string and below them. -/
def offendersOfParts : List Node → List Node
  | [] => []
  | part :: rest => (if part.isBare then [part] else []) ++ (offenders part ++ offendersOfParts rest)

/-- The offenders below the nodes of a list. -/
def offendersOfAll : List Node → List Node
  | [] => []
  | node :: rest => offenders node ++ offendersOfAll rest

/-- The offenders below a node that may be absent. -/
def offendersOfOptional : Option Node → List Node
  | none => []
  | some node => offenders node

end

/-- A part of a string with the offenders in it, itself included. -/
def offendersOfPart (part : Node) : List Node :=
  (if part.isBare then [part] else []) ++ part.offenders

theorem offendersOfParts_eq_flatMap (parts : List Node) :
    offendersOfParts parts = parts.flatMap offendersOfPart := by
  induction parts with
  | nil => rw [offendersOfParts, List.flatMap_nil]
  | cons part rest ih =>
      rw [offendersOfParts, ih, List.flatMap_cons, offendersOfPart, List.append_assoc]

theorem offendersOfAll_eq_flatMap (nodes : List Node) :
    offendersOfAll nodes = nodes.flatMap offenders := by
  induction nodes with
  | nil => rw [offendersOfAll, List.flatMap_nil]
  | cons node rest ih => rw [offendersOfAll, ih, List.flatMap_cons]

theorem offendersOfOptional_eq_flatMap (place : Option Node) :
    offendersOfOptional place = place.toList.flatMap offenders := by
  cases place <;> simp [offendersOfOptional]

/-- A part of a string offends itself if it is bare, and passes on the offenders inside it. -/
theorem mem_offendersOfPart_iff {child part : Node} :
    child ∈ offendersOfPart part ↔ (child = part ∧ part.isBare = true) ∨ child ∈ part.offenders := by
  rw [offendersOfPart, List.mem_append]
  by_cases bare : part.isBare = true <;> simp [bare]

/-- A bare part of a string anywhere in the tree. -/
def Offends (child node : Node) : Prop :=
  ∃ parts, Occurs (.dstr parts) node ∧ child ∈ parts ∧ child.isBare = true

/-- An offender inside a member of a node is one inside the node, whether the node is a string or
not. -/
theorem Offends.within {child member node : Node} (found : member ∈ node.members)
    (offends : Offends child member) : Offends child node := by
  obtain ⟨parts, occurs, direct, bare⟩ := offends
  exact ⟨parts, .within found occurs, direct, bare⟩

theorem exists_eq_dstr {node : Node} (string : node.isDstr = true) :
    ∃ parts, node = .dstr parts := by
  cases node with
  | dstr parts => exact ⟨parts, rfl⟩
  | _ => cases string

/-- The offenders below a node that is no string are those of its members. -/
theorem offends_iff_of_isDstr_eq_false {child node : Node} (noString : node.isDstr = false) :
    Offends child node ↔ ∃ member ∈ node.members, Offends child member := by
  constructor
  · rintro ⟨parts, occurs, direct, bare⟩
    rcases occurs_iff.mp occurs with rfl | ⟨member, found, inside⟩
    · cases noString
    · exact ⟨member, found, parts, inside, direct, bare⟩
  · rintro ⟨member, found, offends⟩
    exact offends.within found

/-- In a string the bare parts offend, along with what offends inside any part. -/
theorem offends_dstr_iff {child : Node} {parts : List Node} :
    Offends child (.dstr parts) ↔
      ∃ part ∈ parts, (child = part ∧ part.isBare = true) ∨ Offends child part := by
  constructor
  · rintro ⟨outer, occurs, direct, bare⟩
    rcases occurs_iff.mp occurs with same | ⟨member, found, inside⟩
    · cases same
      exact ⟨child, direct, .inl ⟨rfl, bare⟩⟩
    · exact ⟨member, found, .inr ⟨outer, inside, direct, bare⟩⟩
  · rintro ⟨part, found, ⟨rfl, bare⟩ | offends⟩
    · exact ⟨parts, .here, found, bare⟩
    · exact offends.within found

/-- The offenders of a string are those of its parts in their order. -/
theorem offenders_dstr (parts : List Node) :
    (Node.dstr parts).offenders = parts.flatMap offendersOfPart := by
  rw [offenders, offendersOfParts_eq_flatMap]

/-- A node that is no string only passes on the offenders of its members. -/
theorem offenders_of_isDstr_eq_false {node : Node} (noString : node.isDstr = false) :
    node.offenders = node.members.flatMap offenders := by
  cases node with
  | dstr parts => cases noString
  | begin statements => rw [offenders, offendersOfAll_eq_flatMap, members]
  | const scope label => rw [offenders, offendersOfOptional_eq_flatMap, members]
  | send receiver method arguments =>
      rw [offenders, offendersOfOptional_eq_flatMap, offendersOfAll_eq_flatMap, members,
        List.flatMap_append]
  | _ => simp [offenders, members]

/-- The list holds the offenders of the tree and nothing else. -/
theorem mem_offenders_iff {child node : Node} :
    child ∈ node.offenders ↔ Offends child node := by
  induction node using memberInduction with
  | step node ih =>
      cases string : node.isDstr with
      | true =>
          obtain ⟨parts, rfl⟩ := exists_eq_dstr string
          rw [offenders_dstr, List.mem_flatMap, offends_dstr_iff]
          apply exists_congr
          intro part
          apply and_congr_right
          intro found
          rw [mem_offendersOfPart_iff, ih part found]
      | false =>
          rw [offenders_of_isDstr_eq_false string, List.mem_flatMap,
            offends_iff_of_isDstr_eq_false string]
          apply exists_congr
          intro member
          apply and_congr_right
          intro found
          exact ih member found

/-! ### The order of the offenders -/

theorem outlineAll_eq_flatMap (depth : Nat) (nodes : List Node) :
    outlineAll depth nodes = nodes.flatMap (outline depth) := by
  induction nodes with
  | nil => rw [outlineAll, List.flatMap_nil]
  | cons node rest ih => rw [outlineAll, ih, List.flatMap_cons]

theorem outlineOptional_eq_flatMap (depth : Nat) (place : Option Node) :
    outlineOptional depth place = place.toList.flatMap (outline depth) := by
  cases place <;> simp [outlineOptional]

/-- The outline starts with the node itself and goes on with its members, one level deeper. -/
theorem outline_eq_cons (depth : Nat) (node : Node) :
    outline depth node = (depth, node) :: node.members.flatMap (outline (depth + 1)) := by
  cases node with
  | dstr parts => rw [outline, outlineAll_eq_flatMap, members]
  | begin statements => rw [outline, outlineAll_eq_flatMap, members]
  | const scope label => rw [outline, outlineOptional_eq_flatMap, members]
  | send receiver method arguments =>
      rw [outline, outlineOptional_eq_flatMap, outlineAll_eq_flatMap, members, List.flatMap_append]
  | _ => simp [outline, members]

/-- The nodes of a tree in the order of its outline, without the root. -/
def descendants (node : Node) : List Node :=
  node.members.flatMap fun member => (outline 0 member).map Prod.snd

/-- The nodes of an outline do not depend on the depth that it starts at. -/
theorem map_snd_outline (depth : Nat) (node : Node) :
    (outline depth node).map Prod.snd = node :: node.descendants := by
  induction node using memberInduction generalizing depth with
  | step node ih =>
      rw [outline_eq_cons, List.map_cons, List.map_flatMap, descendants]
      apply congrArg (node :: ·)
      apply List.flatMap_congr
      intro member found
      rw [ih member found, ih member found]

/-- The offenders stand in the order in which the outline of the tree has them. -/
theorem offenders_sublist_descendants (node : Node) : node.offenders.Sublist node.descendants := by
  induction node using memberInduction with
  | step node ih =>
      cases string : node.isDstr with
      | true =>
          obtain ⟨parts, rfl⟩ := exists_eq_dstr string
          rw [offenders_dstr, descendants]
          apply List.Sublist.flatMap_right
          intro part found
          rw [map_snd_outline, offendersOfPart]
          by_cases bare : part.isBare = true
          · rw [if_pos bare]
            exact (ih part found).cons_cons part
          · rw [if_neg bare]
            exact (ih part found).cons part
      | false =>
          rw [offenders_of_isDstr_eq_false string, descendants]
          apply List.Sublist.flatMap_right
          intro member found
          rw [map_snd_outline]
          exact (ih member found).cons member

end StringForms.Node
