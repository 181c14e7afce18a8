/-
Module: StringForms.Proofs.Source.Layout
Purpose: Where the lines of a heredoc stand: its body ends a line, and a plain body stands at the
  margin however deep the page is indented.
Main exports: exists_last_line, atLineStart_run_interior, Heredoc.page_run_footer,
  run_whole_of_plain
-/
import StringForms.Proofs.Source.HeredocSplices
import StringForms.Proofs.Source.Interior

namespace StringForms.Source

/-! ### The end of the body -/

/-- The last part of a string that can be a heredoc is text that ends a line. -/
theorem exists_last_line {parts : List Part} (eligible : isHeredoc parts = true) :
    ∃ front text, parts = front ++ [.literal text] ∧ text.toList.getLast? = some '\n' := by
  obtain ⟨text, last, ends⟩ := endsLine_iff.mp (Bool.and_eq_true_iff.mp eligible).1
  obtain ⟨front, rfl⟩ := List.getLast?_eq_some_iff.mp last
  exact ⟨front, text, rfl, by simpa [String.endsWith_char_eq_getLast?] using ends⟩

/-- Escaping leaves the end of a line as it is, so the inside of a heredoc leaves every page at the
start of a line. -/
theorem atLineStart_run_interior {parts : List Part} (eligible : isHeredoc parts = true)
    (ok : parts.findSome? Part.fault? = none) (page : Page) :
    ((interior .heredoc parts).run page).page.atLineStart = true := by
  obtain ⟨front, text, rfl, ends⟩ := exists_last_line eligible
  have okFront := (ok_append_iff.mp ok).1
  have lastWritten : ∀ before earlier,
      ((interiorFrom .heredoc before [.literal text]).run earlier).page =
        earlier.append (Mode.heredoc.escape text) := by
    intro before earlier
    rw [interiorFrom, interior_literal_heredoc, Draft.page_run_append_of_ok (Draft.fault?_fragment _)]
    rfl
  rw [interior, page_run_interiorFrom_append okFront, lastWritten, Page.atLineStart_iff,
    Page.toList_content_append, Mode.toList_escape_heredoc, List.getLast?_append,
    List.getLast?_append, getLast?_heredoc, ends]
  rfl

/-! ### Plain heredocs -/

namespace Heredoc

/-- So does the body, whatever its style. -/
theorem atLineStart_run_body (doc : Heredoc) (ok : doc.parts.findSome? Part.fault? = none)
    (page : Page) : (doc.body.run page).page.atLineStart = true := by
  rw [page_run_body]
  exact atLineStart_run_interior doc.eligible ok _

/-- The label stands alone on the line behind the body, indented like the page. -/
theorem page_run_footer (doc : Heredoc) (ok : doc.parts.findSome? Part.fault? = none) (page : Page) :
    ((doc.body ++ doc.footer).run page).page =
      (doc.body.run page).page.write (page.indentation ++ Style.label) := by
  have okBody : doc.body.fault? = none := by rw [fault?_body, ok]
  have start := doc.atLineStart_run_body ok page
  have grown := doc.body.extends_run page
  have same : (doc.body.run page).page.indentation = page.indentation := by
    rw [Page.indentation, Page.indentation, grown.level, grown.unit]
  rw [Draft.page_run_append_of_ok okBody, footer, Draft.run, Page.append_eq_write, Page.lead,
    if_pos start, same]

/-- The opener, the body behind it, and the label: all that a heredoc is, in one piece or in two. -/
theorem page_run_whole (doc : Heredoc) (ok : doc.parts.findSome? Part.fault? = none) (page : Page) :
    ((Form.heredoc doc).whole.run page).page =
      (doc.body.run (page.append doc.style.opener)).page.write (page.indentation ++ Style.label) := by
  have okHeader : doc.header.fault? = none := Draft.fault?_fragment _
  have opened : (doc.header.run page).page = page.append doc.style.opener := rfl
  have same : (page.append doc.style.opener).indentation = page.indentation := by
    rw [Page.append_eq_write]
    rfl
  rw [Form.whole, Form.opening, Form.remainder, Draft.page_run_append_of_ok okHeader, opened,
    doc.page_run_footer ok, same]

theorem style_eq_squiggly {doc : Heredoc} (withEmpty : .literal "" ∈ doc.parts) :
    doc.style = .squiggly :=
  Style.ofParts_eq_squiggly_iff.mpr withEmpty

theorem style_eq_plain {doc : Heredoc} (noEmpty : .literal "" ∉ doc.parts) : doc.style = .plain :=
  Style.ofParts_eq_plain_iff.mpr noEmpty

end Heredoc

/-- What can be a heredoc is one. -/
theorem Form.choose_of_isHeredoc {parts : List Part} (eligible : isHeredoc parts = true) :
    Form.choose parts = .heredoc { parts := parts, eligible := eligible } := by
  unfold Form.choose Heredoc.detect?
  rw [dif_pos eligible]

theorem literal_mem_ofNodes {nodes : List Node} {text : String}
    (found : .literal text ∈ Part.ofNodes nodes) : .str text ∈ nodes := by
  rw [ofNodes_eq_map] at found
  obtain ⟨node, member, same⟩ := List.mem_map.mp found
  cases node with
  | str other =>
      rw [Part.ofNode, Part.literal.injEq] at same
      exact same ▸ member
  | name sort other => cases sort <;> cases same
  | _ => cases same

/-- A plain heredoc is written on every page exactly if its inside is on a page of its own, and that
inside, which ends a line, stands at the margin there as well. Only the opener and the label are
indented: the one if it starts a line, the other always, since it stands on a line of its own. -/
theorem run_whole_of_plain {nodes : List Node} (eligible : isHeredoc (Part.ofNodes nodes) = true)
    (noEmpty : .str "" ∉ nodes) (page : Page) :
    let string := (Form.choose (Part.ofNodes nodes)).whole.run page
    let inside := (interior .heredoc (Part.ofNodes nodes)).run
      (Page.blank Settings.standard.indentUnit)
    let indentation := String.join (List.replicate page.level page.unit)
    string.fault? = inside.fault? ∧
      (inside.fault? = none →
        string.page.content =
          page.content ++ (if page.content.endsWith '\n' then indentation else "") ++
            "<<-HEREDOC\n" ++ inside.page.content ++ indentation ++ "HEREDOC" ∧
          inside.page.content.endsWith '\n' = true) := by
  intro string inside indentation
  let doc : Heredoc := { parts := Part.ofNodes nodes, eligible := eligible }
  have formed : Form.choose (Part.ofNodes nodes) = .heredoc doc := Form.choose_of_isHeredoc eligible
  have plain : doc.style = .plain :=
    Heredoc.style_eq_plain fun found => noEmpty (literal_mem_ofNodes found)
  have flush : ∀ part ∈ doc.parts, part.StaysFlush :=
    staysFlush_ofNodes fun node _ => (staysFlush_code_and_ofNode node).2
  have verdict : inside.fault? = doc.parts.findSome? Part.fault? := by
    rw [Draft.fault?_run, fault?_interior]
  refine ⟨?_, fun succeeds => ?_⟩
  · rw [verdict, Draft.fault?_run, Form.fault?_whole, Form.parts_choose]
  · have ok : doc.parts.findSome? Part.fault? = none := verdict.symm.trans succeeds
    have ends : inside.page.atLineStart = true := atLineStart_run_interior eligible ok _
    have written : string.page =
        ((page.append doc.style.opener).write doc.body.text).write (indentation ++ Style.label) := by
      simp only [string, formed]
      rw [doc.page_run_whole ok, doc.page_run_body_of_plain plain flush]
      rfl
    have body : doc.body.text = "\n" ++ inside.page.content := by
      rw [doc.text_body]
      exact congrArg _ (content_run_interior_blank flush .heredoc _).symm
    refine ⟨?_, ends⟩
    have opener : "<<-HEREDOC\n" = "<<-HEREDOC" ++ "\n" := by decide
    rw [written, Page.append_eq_write, body, plain, opener]
    simp only [Page.write, String.append_assoc]
    rfl

/-- A line of the body that a string inside a splice starts stands at the margin too. -/
theorem run_whole_of_nested_line :
    let nodes : List Node :=
      [.str "a\n", .begin [.dstr [.begin [], .str "\n", .str "b"]], .str "#c\n"]
    let page : Page := { content := "def\n", level := 2, unit := "  " }
    isHeredoc (Part.ofNodes nodes) = true ∧ .str "" ∉ nodes ∧
      ((Form.choose (Part.ofNodes nodes)).whole.run page).page.content =
        "def\n    <<-HEREDOC\na\n#\x7b\"#\x7b\x7d\nb\"\x7d\\#c\n    HEREDOC" := by
  intro nodes page
  have eligible : isHeredoc (Part.ofNodes nodes) = true := by cbv
  have noEmpty : .str "" ∉ nodes := by simp [nodes]
  obtain ⟨_, laidOut⟩ := run_whole_of_plain eligible noEmpty page
  have flush : ∀ part ∈ Part.ofNodes nodes, part.StaysFlush :=
    staysFlush_ofNodes fun node _ => (staysFlush_code_and_ofNode node).2
  have text : (interior .heredoc (Part.ofNodes nodes)).text =
      "a\n#\x7b\"#\x7b\x7d\nb\"\x7d\\#c\n" := by decide
  obtain ⟨written, _⟩ := laidOut (Draft.fault?_run _ _)
  refine ⟨eligible, noEmpty, ?_⟩
  rw [written, content_run_interior_blank flush, text]
  cbv

end StringForms.Source
