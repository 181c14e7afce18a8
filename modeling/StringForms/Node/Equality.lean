/-
Module: StringForms.Node.Equality
Purpose: Equality of nodes as a computation.
Main exports: Node.same, Node.same_iff, and the instance DecidableEq Node
-/
import StringForms.Node.Basic

namespace StringForms.Node

mutual

/-- Compares two trees from the root. -/
def same : Node → Node → Bool
  | .str text, .str text' => text == text'
  | .dstr parts, .dstr parts' => sameAll parts parts'
  | .begin statements, .begin statements' => sameAll statements statements'
  | .name sort text, .name sort' text' => sort == sort' && text == text'
  | .nthRef group, .nthRef group' => group == group'
  | .int value, .int value' => value == value'
  | .word which, .word which' => which == which'
  | .const scope label, .const scope' label' => sameOptional scope scope' && label == label'
  | .send receiver method arguments, .send receiver' method' arguments' =>
      sameOptional receiver receiver' && method == method' && sameAll arguments arguments'
  | _, _ => false

/-- Compares two lists of trees, member by member. -/
def sameAll : List Node → List Node → Bool
  | [], [] => true
  | node :: rest, node' :: rest' => same node node' && sameAll rest rest'
  | _, _ => false

/-- Compares two trees that may be absent. -/
def sameOptional : Option Node → Option Node → Bool
  | none, none => true
  | some node, some node' => same node node'
  | _, _ => false

end

mutual

/-- Every node is the same as itself, by recursion along with its lists and its places. -/
theorem same_refl : ∀ node : Node, same node node = true
  | .str _ | .name _ _ | .nthRef _ | .int _ | .word _ => by simp [same]
  | .dstr parts => by simp [same, sameAll_refl parts]
  | .begin statements => by simp [same, sameAll_refl statements]
  | .const scope _ => by simp [same, sameOptional_refl scope]
  | .send receiver _ arguments => by
      simp [same, sameOptional_refl receiver, sameAll_refl arguments]

theorem sameAll_refl : ∀ nodes : List Node, sameAll nodes nodes = true
  | [] => by simp [sameAll]
  | node :: rest => by simp [sameAll, same_refl node, sameAll_refl rest]

theorem sameOptional_refl : ∀ node : Option Node, sameOptional node node = true
  | none => by simp [sameOptional]
  | some node => by simp [sameOptional, same_refl node]

end

mutual

/-- Nodes that are the same are equal, so that the test decides equality. -/
theorem eq_of_same : ∀ {first second : Node}, same first second = true → first = second
  | .str _, second, equal => by cases second <;> simp_all [same]
  | .name _ _, second, equal => by cases second <;> simp_all [same]
  | .nthRef _, second, equal => by cases second <;> simp_all [same]
  | .int _, second, equal => by cases second <;> simp_all [same]
  | .word _, second, equal => by cases second <;> simp_all [same]
  | .dstr _, second, equal => by
      cases second <;> simp only [same, Bool.false_eq_true] at equal
      exact congrArg _ (eq_of_sameAll equal)
  | .begin _, second, equal => by
      cases second <;> simp only [same, Bool.false_eq_true] at equal
      exact congrArg _ (eq_of_sameAll equal)
  | .const _ _, second, equal => by
      cases second <;>
        simp only [same, Bool.and_eq_true, beq_iff_eq, Bool.false_eq_true] at equal
      rw [eq_of_sameOptional equal.1, equal.2]
  | .send _ _ _, second, equal => by
      cases second <;>
        simp only [same, Bool.and_eq_true, beq_iff_eq, Bool.false_eq_true] at equal
      rw [eq_of_sameOptional equal.1.1, equal.1.2, eq_of_sameAll equal.2]

theorem eq_of_sameAll : ∀ {first second : List Node}, sameAll first second = true → first = second
  | [], second, equal => by cases second <;> simp_all [sameAll]
  | _ :: _, second, equal => by
      cases second <;> simp only [sameAll, Bool.and_eq_true, Bool.false_eq_true] at equal
      rw [eq_of_same equal.1, eq_of_sameAll equal.2]

theorem eq_of_sameOptional :
    ∀ {first second : Option Node}, sameOptional first second = true → first = second
  | none, second, equal => by cases second <;> simp_all [sameOptional]
  | some _, second, equal => by
      cases second <;> simp only [sameOptional, Bool.false_eq_true] at equal
      rw [eq_of_same equal]

end

/-- The comparison answers `true` exactly on equal trees. -/
theorem same_iff {first second : Node} : same first second = true ↔ first = second :=
  ⟨eq_of_same, fun equal => equal ▸ same_refl first⟩

instance : DecidableEq Node := fun first second =>
  decidable_of_iff (same first second = true) same_iff

end StringForms.Node
