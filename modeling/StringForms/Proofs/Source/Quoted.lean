/-
Module: StringForms.Proofs.Source.Quoted
Purpose: The quoted form of a string reads the same wherever it is written.
Main exports: staysFlush_code_and_ofNode, isFragment_quoted, run_quoted_eq_fresh
-/
import StringForms.Proofs.Page.Fragment
import StringForms.Proofs.Source.Fault
import StringForms.Settings.Basic

namespace StringForms.Source

/-! ### No code indents by itself -/

/-- A row stays at the margin if its parts do wherever they stand. -/
theorem staysFlush_interiorFrom {parts : List Part} (mode : Mode) (afterSplice : Bool)
    (flush : ∀ part ∈ parts, ∀ after, (part.interior mode after).StaysFlush) :
    (interiorFrom mode afterSplice parts).StaysFlush := by
  induction parts generalizing afterSplice with
  | nil =>
      rw [interiorFrom]
      trivial
  | cons part rest ih =>
      have later := ih part.isSplice fun other found => flush other (List.mem_cons_of_mem part found)
      rw [interiorFrom]
      exact ⟨flush part (by simp) afterSplice, later⟩

/-- A run has no parts but those that were cut into runs. -/
theorem mem_of_mem_run {parts run : List Part} (found : run ∈ runs parts) {part : Part}
    (direct : part ∈ run) : part ∈ parts := by
  have joined : (runs parts).flatten = parts := flatten_runsFrom [] parts
  rw [← joined]
  exact List.mem_flatten_of_mem found direct

theorem staysFlush_quotedRun {run : List Part}
    (flush : ∀ part ∈ run, ∀ after, (part.interior .quoted after).StaysFlush) :
    (interior .quoted run ++ .append "\"" : Code).StaysFlush :=
  ⟨staysFlush_interiorFrom .quoted false flush, trivial⟩

theorem staysFlush_quoted {parts : List Part}
    (flush : ∀ part ∈ parts, ∀ after, (part.interior .quoted after).StaysFlush) :
    (quoted parts).StaysFlush := by
  unfold quoted
  by_cases empty : parts.isEmpty = true
  · rw [if_pos empty]
    trivial
  · rw [if_neg empty]
    refine ⟨trivial, Draft.staysFlush_separated " " ?_⟩
    intro literal found
    rcases List.mem_map.mp found with ⟨run, member, rfl⟩
    have inside := staysFlush_quotedRun fun part direct => flush part (mem_of_mem_run member direct)
    exact ⟨trivial, inside⟩

theorem staysFlush_codes {nodes : List Node} (separator : String)
    (flush : ∀ node ∈ nodes, node.code.StaysFlush) :
    (Draft.separated separator (Node.codes nodes)).StaysFlush :=
  Draft.staysFlush_separated separator (forall_mem_codes.mpr flush)

theorem staysFlush_qualifier {place : Option Node} (mark : String)
    (flush : ∀ node ∈ place.toList, node.code.StaysFlush) :
    (Node.qualifier mark place).StaysFlush := by
  cases place with
  | none => trivial
  | some node => exact ⟨flush node (by simp), trivial⟩

/-- Whatever mode a part is written in and whatever stands before it. -/
def Part.StaysFlush (part : Part) : Prop :=
  ∀ mode after, (part.interior mode after).StaysFlush

/-- A text indents nothing by itself. -/
theorem staysFlush_literal (text : String) : (Part.literal text).StaysFlush := by
  intro mode after
  rw [Part.interior]
  by_cases lone : (after && text == "\n") = true
  · rw [if_pos lone]
    trivial
  · rw [if_neg lone]
    trivial

theorem staysFlush_ofNodes {nodes : List Node}
    (flush : ∀ node ∈ nodes, (Part.ofNode node).StaysFlush) :
    ∀ part ∈ Part.ofNodes nodes, part.StaysFlush :=
  forall_mem_ofNodes.mpr flush

/-- An expression stays at the margin if its members do. -/
theorem staysFlush_code_of_members {node : Node}
    (codes : ∀ member ∈ node.members, member.code.StaysFlush)
    (parts : ∀ member ∈ node.members, (Part.ofNode member).StaysFlush) :
    node.code.StaysFlush := by
  cases node with
  | dstr children =>
      rw [Node.code]
      exact staysFlush_quoted fun part found => staysFlush_ofNodes parts part found .quoted
  | begin statements =>
      rw [Node.code]
      exact ⟨trivial, staysFlush_codes "; " codes, trivial⟩
  | name sort text => cases sort <;> trivial
  | const scope label =>
      rw [Node.code]
      exact ⟨staysFlush_qualifier "::" codes, trivial⟩
  | send receiver method arguments =>
      have ofReceiver := staysFlush_qualifier "." fun member found =>
        codes member (List.mem_append_left arguments found)
      have ofArguments := staysFlush_codes ", " fun member found =>
        codes member (List.mem_append_right receiver.toList found)
      rw [Node.code]
      refine ⟨ofReceiver, trivial, ?_⟩
      by_cases noArguments : arguments.isEmpty = true
      · rw [if_pos noArguments]
        trivial
      · rw [if_neg noArguments]
        exact ⟨trivial, ofArguments, trivial⟩
  | str text => exact ⟨trivial, trivial, trivial⟩
  | nthRef group => trivial
  | int value => trivial
  | word which => trivial

theorem staysFlush_ofNode_of_members {node : Node}
    (codes : ∀ member ∈ node.members, member.code.StaysFlush)
    (parts : ∀ member ∈ node.members, (Part.ofNode member).StaysFlush) :
    (Part.ofNode node).StaysFlush := by
  cases node with
  | str text => exact staysFlush_literal text
  | dstr children =>
      intro mode after
      rw [Part.ofNode, Part.interior]
      exact staysFlush_interiorFrom .quoted false fun part found =>
        staysFlush_ofNodes parts part found .quoted
  | begin statements =>
      intro mode after
      rw [Part.ofNode, Part.interior]
      exact ⟨trivial, staysFlush_codes "; " codes, trivial⟩
  | name sort text =>
      intro mode after
      cases sort <;> trivial
  | nthRef group =>
      intro mode after
      exact ⟨trivial, trivial⟩
  | int value => exact fun _ _ => trivial
  | word which => exact fun _ _ => trivial
  | const scope label => exact fun _ _ => trivial
  | send receiver method arguments => exact fun _ _ => trivial

/-- Neither an expression nor a part of a string asks for a deeper level anywhere in its tree. -/
theorem staysFlush_code_and_ofNode (node : Node) :
    node.code.StaysFlush ∧ (Part.ofNode node).StaysFlush := by
  induction node using Node.memberInduction with
  | step node ih =>
      have codes := fun member found => (ih member found).1
      have parts := fun member found => (ih member found).2
      exact ⟨staysFlush_code_of_members codes parts, staysFlush_ofNode_of_members codes parts⟩

/-! ### The literals of the quoted form -/

/-- A literal is taken as one fragment, since it begins and ends with a quote. -/
theorem isFragment_quotedRun {run : List Part} (flush : ∀ part ∈ run, part.StaysFlush) :
    (quotedRun run).IsFragment :=
  Draft.isFragment_atRoot "\"" (staysFlush_quotedRun fun part found => flush part found .quoted)

/-- A literal that is written to its end ends with its quote, whatever is in it. -/
theorem endsMidLine_quotedRun {run : List Part} (ok : (quotedRun run).fault? = none) :
    EndsMidLine (quotedRun run).text := by
  have inside : (interior .quoted run).fault? = none := by
    rw [fault?_interior, ← fault?_quotedRun, ok]
  have closing : EndsMidLine "\"" := ⟨'"', rfl, by decide⟩
  have unfolded : (quotedRun run).text =
      "\"" ++ (interior .quoted run ++ .append "\"" : Code).text := rfl
  have ended : (.append "\"" : Code).text = "\"" := rfl
  rw [unfolded, Draft.text_append inside, ended]
  exact (closing.append (interior .quoted run).text).append "\""

/-- The quoted form is indented where it starts, if that is the start of a line, and nowhere else. -/
theorem isFragment_quoted {parts : List Part} (flush : ∀ part ∈ parts, part.StaysFlush) :
    (quoted parts).IsFragment := by
  unfold quoted
  by_cases empty : parts.isEmpty = true
  · rw [if_pos empty]
    exact Draft.isFragment_append "%()"
  · have space : EndsMidLine " " := ⟨' ', rfl, by decide⟩
    have some : (runs parts).map quotedRun ≠ [] := by
      intro none
      have joined : (runs parts).flatten = parts := flatten_runsFrom [] parts
      rw [List.map_eq_nil_iff.mp none] at joined
      exact empty (List.isEmpty_iff.mpr joined.symm)
    rw [if_neg empty]
    apply Draft.IsFragment.note
    apply Draft.isFragment_separated space some
    · intro literal found
      rcases List.mem_map.mp found with ⟨run, member, rfl⟩
      exact isFragment_quotedRun fun part direct => flush part (mem_of_mem_run member direct)
    · intro literal found ok
      rcases List.mem_map.mp found with ⟨run, _, rfl⟩
      exact endsMidLine_quotedRun ok

/-- Whatever its nodes are, a string between quotes is taken as one fragment. -/
theorem isFragment_quoted_ofNodes (nodes : List Node) :
    (quoted (Part.ofNodes nodes)).IsFragment :=
  isFragment_quoted (staysFlush_ofNodes fun node _ => (staysFlush_code_and_ofNode node).2)

/-- On every page, at every level and in every unit, the quoted form comes to the same verdict and
leaves the same text as on a page of its own, as far as it gets. Before that text stands the
indentation of the page if the page is at the start of a line, and the text itself is made of the
fragments of the string alone, with no indentation between them. -/
theorem run_quoted_eq_fresh (nodes : List Node) (page : Page) :
    let code := quoted (Part.ofNodes nodes)
    let fresh := code.run (Page.blank Settings.standard.indentUnit)
    (code.run page).fault? = fresh.fault? ∧
      (code.run page).page.content =
        page.content ++
          (if page.content.endsWith '\n' then String.join (List.replicate page.level page.unit)
            else "") ++ fresh.page.content ∧
      fresh.page.content = code.text := by
  intro code fresh
  have whole : code.IsFragment := isFragment_quoted_ofNodes nodes
  have written : fresh.page.content = code.text := by
    rw [show fresh.page = _ from whole _, Page.append_blank]
  refine ⟨?_, ?_, written⟩
  · rw [Draft.fault?_run, Draft.fault?_run]
  · rw [written, whole page, Page.append_eq_write, String.append_assoc]
    rfl

end StringForms.Source
