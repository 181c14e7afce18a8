/-
Module: StringForms.Proofs.Source.Parts
Purpose: What the choice of a form and the splitting into runs make of a list of parts.
Main exports: ofNodes_eq_map, codes_eq_map, forall_mem_ofNodes, exists_splice_of_isHeredoc,
  runs_of_separate, Form.parts_choose
-/
import StringForms.Proofs.Source.Eligibility
import StringForms.Source.Form

namespace StringForms.Source

/-! ### Lists of nodes -/

theorem codes_eq_map (nodes : List Node) : Node.codes nodes = nodes.map Node.code := by
  induction nodes with
  | nil => rw [Node.codes, List.map_nil]
  | cons node rest ih => rw [Node.codes, ih, List.map_cons]

theorem ofNodes_eq_map (nodes : List Node) : Part.ofNodes nodes = nodes.map Part.ofNode := by
  induction nodes with
  | nil => rw [Part.ofNodes, List.map_nil]
  | cons node rest ih => rw [Part.ofNodes, ih, List.map_cons]

theorem forall_mem_codes {holds : Code → Prop} {nodes : List Node} :
    (∀ code ∈ Node.codes nodes, holds code) ↔ ∀ node ∈ nodes, holds node.code := by
  rw [codes_eq_map, List.forall_mem_map]

theorem forall_mem_ofNodes {holds : Part → Prop} {nodes : List Node} :
    (∀ part ∈ Part.ofNodes nodes, holds part) ↔ ∀ node ∈ nodes, holds (Part.ofNode node) := by
  rw [ofNodes_eq_map, List.forall_mem_map]

/-! ### The form -/

theorem Category.ofText_ne_splice (text : List Char) : ofText text ≠ .splice := by
  unfold ofText
  split
  · simp
  split
  · simp
  split
  · simp
  split <;> simp

theorem isSplice_of_category {part : Part} (splice : part.category = .splice) :
    part.isSplice = true := by
  cases part with
  | literal text => exact absurd splice (Category.ofText_ne_splice text.toList)
  | splice code => rfl
  | _ => cases splice

/-- Every arrangement has a splice in it. -/
theorem splice_mem_of_matchesPattern {categories : List Category}
    (found : matchesPattern categories = true) : .splice ∈ categories := by
  have splices : ∀ arrangement ∈ arrangements, .splice ∈ arrangement := by decide
  obtain ⟨arrangement, member, inside⟩ := matchesPattern_iff.mp found
  exact inside.subset (splices arrangement member)

/-- Each of the arrangements that make a heredoc holds a splice. -/
theorem exists_splice_of_isHeredoc {parts : List Part} (eligible : isHeredoc parts = true) :
    ∃ part ∈ parts, part.isSplice = true := by
  rw [isHeredoc, Bool.and_eq_true] at eligible
  rcases List.mem_map.mp (splice_mem_of_matchesPattern eligible.2) with ⟨part, found, splice⟩
  exact ⟨part, found, isSplice_of_category splice⟩

theorem Form.parts_choose (parts : List Part) : (Form.choose parts).parts = parts := by
  unfold Form.choose Heredoc.detect?
  by_cases eligible : isHeredoc parts = true
  · rw [dif_pos eligible]
    rfl
  · rw [dif_neg eligible]
    rfl

/-- What cannot be a heredoc is put between quotes. -/
theorem Form.choose_of_not_isHeredoc {parts : List Part} (notHeredoc : ¬ isHeredoc parts = true) :
    Form.choose parts = .quoted parts := by
  unfold Form.choose Heredoc.detect?
  rw [dif_neg notHeredoc]

/-! ### The runs -/

/-- Between texts and nested strings there is always a break. -/
theorem breaksAfter_singleton {part next : Part}
    (separate : part.isLiteral = true ∨ part.isNested = true)
    (separateNext : next.isLiteral = true ∨ next.isNested = true) :
    breaksAfter [part] next = true := by
  rcases separate with literal | nested
  · rcases separateNext with literalNext | nested
    · have noSplice : part.isSplice = false := by
        cases part <;> cases literal
        rfl
      simp [breaksAfter, literal, literalNext, noSplice]
    · simp [breaksAfter, nested]
  · simp [breaksAfter, nested]

/-- So each of them is a run of its own. -/
theorem runsFrom_of_separate {part : Part} {rest : List Part}
    (separate : ∀ other ∈ part :: rest, other.isLiteral = true ∨ other.isNested = true) :
    runsFrom [part] rest = [part] :: rest.map fun other => [other] := by
  induction rest generalizing part with
  | nil => rfl
  | cons next later ih =>
      have breaks : breaksAfter [part] next = true :=
        breaksAfter_singleton (separate part (by simp)) (separate next (by simp))
      have laterRuns := ih fun other found => separate other (List.mem_cons_of_mem part found)
      rw [runsFrom, if_pos breaks, laterRuns, List.map_cons]

/-- Literal text and nested strings never share a run when nothing else is there. -/
theorem runs_of_separate {parts : List Part} (filled : parts ≠ [])
    (separate : ∀ part ∈ parts, part.isLiteral = true ∨ part.isNested = true) :
    runs parts = parts.map fun part => [part] := by
  cases parts with
  | nil => exact absurd rfl filled
  | cons part rest => exact runsFrom_of_separate separate

end StringForms.Source
