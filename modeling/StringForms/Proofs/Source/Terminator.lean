/-
Module: StringForms.Proofs.Source.Terminator
Purpose: Where a heredoc ends: at the label in its last line, unless its text has a line like that.
Main exports: LabelReader.read_run, Part.said, Part.surface, Heredoc.countP_lines_body,
  Heredoc.lines_remainder, first_labelLine_iff
-/
import StringForms.Proofs.Page.Alike
import StringForms.Proofs.Source.Layout
import StringForms.Proofs.Source.SpliceLines

namespace StringForms.Source

/-!
Nothing keeps a line of the text from being a label line. What is done to the text on its way to the
page makes none and removes none: a `#` is no part of the label with a backslash before it or without,
and indentation comes only to the start of a line, where label lines may have any.
-/

namespace LabelReader

/-! ### What the reader does not see -/

/-- A `#` spoils the line that it stands in, and the backslash that is put before it spoils no more. -/
theorem read_heredocChar (reader : LabelReader) (character : Char) :
    reader.read (Literal.heredocChar character) = reader.step character := by
  by_cases hash : character = '#'
  · subst hash
    have written : Literal.heredocChar '#' = ['\\', '#'] := rfl
    have spoils (other : LabelReader) : other.step '#' = { other with shown := none } :=
      step_of_notMem (by decide) (by decide) (by decide) other
    rw [written, read_cons, read_cons, spoils, spoils,
      step_of_notMem (by decide) (by decide) (by decide)]
    rfl
  · rw [Literal.heredocChar, if_neg hash]
    rfl

/-- The escapes of a heredoc add or take no label line: a backslash stands only before a hash, and
no label line has one. -/
theorem read_heredoc (reader : LabelReader) (text : List Char) :
    reader.read (Literal.heredoc text) = reader.read text := by
  induction text generalizing reader with
  | nil => rfl
  | cons character rest ih =>
      rw [heredoc_cons, read_append, read_heredocChar, ih, read_cons]

/-- Spaces at the start of a line are nothing to the reader either. -/
theorem read_spaces {reader : LabelReader} (fresh : reader.shown = some 0) {row : List Char}
    (spaces : ∀ character ∈ row, character = ' ') : reader.read row = reader := by
  induction row with
  | nil => rfl
  | cons character rest ih =>
      obtain ⟨space, spacesRest⟩ := List.forall_mem_cons.mp spaces
      have still : reader.step character = reader := by
        rw [step, space, if_neg (by decide), fresh, progress, Option.bind_some,
          if_pos ⟨rfl, by decide⟩, ← fresh]
      rw [read_cons, still, ih spacesRest]

/-- Behind a line feed the line at hand shows nothing. -/
theorem shown_read_of_line {reader : LabelReader} {text : List Char}
    (ends : text.getLast? = some '\n') : (reader.read text).shown = some 0 := by
  obtain ⟨front, rfl⟩ := List.getLast?_eq_some_iff.mp ends
  rw [read_append]
  rfl

/-! ### Drafts -/

/-- Wherever a draft is carried out, the reader of the page goes on as with the text of the draft. -/
theorem read_run {Fault Note : Type} (draft : Draft Fault Note) {page : Page}
    (spaces : SpacesOnly page) :
    start.read (draft.run page).page.content.toList =
      (start.read page.content.toList).read draft.text.toList := by
  induction draft generalizing page with
  | append fragment =>
      -- At the start of a line nothing is shown, and spaces leave it so.
      have led : (start.read page.content.toList).read page.lead.toList =
          start.read page.content.toList := by
        by_cases line : page.atLineStart = true
        · apply read_spaces
          · exact shown_read_of_line (page.atLineStart_iff.mp line)
          · exact fun _ found => eq_space_of_mem_lead spaces found
        · rw [Page.lead, if_neg line]
          rfl
      rw [Draft.run, Page.toList_content_append, read_append, read_append, led, Draft.text]
  | write fragment =>
      rw [Draft.run, Page.write, String.toList_append, read_append, Draft.text]
  | newline =>
      rw [Draft.run, Page.newline, Page.write, String.toList_append, read_append, Draft.text]
  | indented inner ih => exact @ih (page.atLevel (page.level + 1)) spaces
  | atRoot inner ih => exact @ih (page.atLevel 0) spaces
  | andThen first second ihFirst ihSecond =>
      have unfolded : first.andThen second = first ++ second := rfl
      rw [unfolded]
      cases verdict : first.fault? with
      | some fault =>
          rw [Draft.page_run_append_of_halts verdict, Draft.text_append_of_halts verdict]
          exact ihFirst spaces
      | none =>
          have spacesLater : SpacesOnly (first.run page).page := by
            rw [SpacesOnly, (first.extends_run page).unit]
            exact spaces
          rw [Draft.page_run_append_of_ok verdict, Draft.text_append verdict, ihSecond spacesLater,
            ihFirst spaces, String.toList_append, read_append]
  | _ => rfl

end LabelReader

/-! ### Parts -/

/-- What a part says: a text as it is before it is escaped, and anything else as it is written. -/
def Part.said : Part → List Char
  | .literal text => text.toList
  | part => (part.interior .heredoc false).text.toList

/-- For the label lines a part is what it says. -/
theorem read_interiorPart (reader : LabelReader) (afterSplice : Bool) (part : Part) :
    reader.read (part.interior .heredoc afterSplice).text.toList = reader.read part.said := by
  cases part with
  | literal text =>
      rw [interior_literal_heredoc, Draft.text, Mode.toList_escape_heredoc,
        LabelReader.read_heredoc, Part.said]
  | _ => rfl

/-- The reader of the inside of a heredoc goes on as with what its parts say. -/
theorem read_interiorFrom {parts : List Part} (ok : parts.findSome? Part.fault? = none)
    (reader : LabelReader) (afterSplice : Bool) :
    reader.read (interiorFrom .heredoc afterSplice parts).text.toList =
      reader.read (parts.flatMap Part.said) := by
  induction parts generalizing reader afterSplice with
  | nil => rfl
  | cons part rest ih =>
      obtain ⟨okPart, okRest⟩ := ok_cons_iff.mp ok
      rw [text_interiorFrom_cons okPart, String.toList_append, LabelReader.read_append,
        read_interiorPart, ih okRest, List.flatMap_cons, LabelReader.read_append]

/-- What a part shows of itself: a text as it is, a nested string as it is written, and of a splice or
a name the `#` alone. -/
def Part.surface : Part → List Char
  | .literal text => text.toList
  | .nested parts => (Source.interior .quoted parts).text.toList
  | _ => ['#']

/-- And what it says comes to no more than what it shows of itself. -/
theorem read_said_ofNode {node : Node} (inLine : node.NamesInLine)
    (ok : (Part.ofNode node).fault? = none) (reader : LabelReader) :
    reader.read (Part.ofNode node).said = reader.read (Part.ofNode node).surface := by
  -- A hash is in no label line, and what is behind it ends none.
  have spoils : reader.read ['#'] = { reader with shown := none } := by
    rw [LabelReader.read_cons, LabelReader.step_of_notMem (by decide) rfl (by decide)]
    rfl
  have ofReference {code : Code} (single : '\n' ∉ code.text.toList) :
      reader.read (Part.reference code).said = reader.read ['#'] :=
    (read_reference single .heredoc false reader).trans spoils.symm
  have ofName {sort : NameSort} {text : String} (same : Node.name sort text = node) :
      '\n' ∉ (nameCode sort text).text.toList :=
    lineFeed_notMem_nameCode (same ▸ inLine node .here)
  cases node with
  | str text => rfl
  | dstr parts => rfl
  | begin statements =>
      have ofCode : EndsNoLabel (.separated "; " (Node.codes statements)) :=
        endsNoLabel_codes (by decide) fun member found =>
          (endsNoLabel_code_and_ofNode (inLine.member found)).1
      rw [Part.ofNode, fault?_splice] at ok
      exact (read_splice ofCode ok .heredoc false reader).trans spoils.symm
  | name sort text =>
      cases sort with
      | ivar => exact ofReference (ofName rfl)
      | cvar => exact ofReference (ofName rfl)
      | gvar => exact ofReference (ofName rfl)
      | _ => cases ok
  | nthRef group => exact ofReference (lineFeed_notMem_groupCode group)
  | _ => cases ok

/-- In a tree whose names hold no line feed, no line of a splice needs to be looked at. -/
theorem read_flatMap_said {nodes : List Node} (inLine : ∀ node ∈ nodes, node.NamesInLine)
    (ok : (Part.ofNodes nodes).findSome? Part.fault? = none) (reader : LabelReader) :
    reader.read ((Part.ofNodes nodes).flatMap Part.said) =
      reader.read ((Part.ofNodes nodes).flatMap Part.surface) := by
  induction nodes generalizing reader with
  | nil => rfl
  | cons node rest ih =>
      obtain ⟨own, inLineRest⟩ := List.forall_mem_cons.mp inLine
      rw [Part.ofNodes] at ok ⊢
      obtain ⟨okPart, okRest⟩ := ok_cons_iff.mp ok
      rw [List.flatMap_cons, List.flatMap_cons, LabelReader.read_append, LabelReader.read_append,
        read_said_ofNode own okPart, ih inLineRest okRest]

/-! ### The lines of a heredoc -/

namespace Heredoc

/-- A body is written on every page as on a page of its own with levels of the same text. -/
theorem textSince_body (doc : Heredoc) (page : Page) :
    (doc.body.run page).page.textSince page =
      ((interior .heredoc doc.parts).run
        ((Page.blank page.unit).newline.atLevel (doc.bodyLevel page.level))).page.content := by
  let level := doc.bodyLevel page.level
  let fresh := (Page.blank page.unit).newline.atLevel level
  have start := page.atLineStart_newline.trans (Page.blank page.unit).atLineStart_newline.symm
  have alike : (page.newline.atLevel level).Alike fresh :=
    { level := rfl, unit := rfl, start := start }
  obtain ⟨_, added, wrote, wroteFresh⟩ := (interior .heredoc doc.parts).alike_run alike
  have lineFeed : fresh.content = "\n" := String.empty_append
  rw [page_run_body, wroteFresh, lineFeed]
  apply Page.textSince_of_content_eq
  rw [← String.append_assoc]
  exact wrote

/-- A body has as many label lines as the text of its parts. -/
theorem countP_lines_body {doc : Heredoc} (ok : doc.parts.findSome? Part.fault? = none)
    {page : Page} (spaces : SpacesOnly page) :
    (lines ((doc.body.run page).page.textSince page).toList).countP isLabelLine =
      (lines (doc.parts.flatMap Part.said)).countP isLabelLine := by
  have lineFeed : (Page.blank page.unit).newline.content = "\n" := String.empty_append
  have fresh : LabelReader.start.read "\n".toList = LabelReader.start := rfl
  rw [countP_lines, countP_lines, textSince_body, LabelReader.read_run, interior,
    read_interiorFrom ok, Page.atLevel, lineFeed, fresh]
  exact spaces

/-- The label stands on a line of its own, where the body alone leaves an empty one. -/
theorem lines_remainder {doc : Heredoc} (ok : doc.parts.findSome? Part.fault? = none) {page : Page}
    (spaces : SpacesOnly page) :
    ∃ front,
      lines ((doc.body.run page).page.textSince page).toList = front ++ [[]] ∧
        lines (((doc.body ++ doc.footer).run page).page.textSince page).toList =
          front ++ [(page.indentation ++ Style.label).toList] := by
  have ends : ((doc.body.run page).page.textSince page).toList.getLast? = some '\n' := by
    rw [textSince_body, ← Page.atLineStart_iff]
    exact atLineStart_run_interior doc.eligible ok _
  have single : '\n' ∉ (page.indentation ++ Style.label).toList := by
    rw [String.toList_append, List.mem_append]
    rintro (indented | label)
    · exact absurd (eq_space_of_mem_indentation spaces indented) (by decide)
    · exact absurd label (by decide)
  have joined : ((doc.body ++ doc.footer).run page).page.textSince page =
      (doc.body.run page).page.textSince page ++ (page.indentation ++ Style.label) := by
    apply Page.textSince_of_content_eq
    rw [doc.page_run_footer ok, Page.write, (doc.body.extends_run page).content_eq,
      String.append_assoc]
  rw [joined, String.toList_append]
  exact lines_of_getLast ends single

end Heredoc

theorem isLabelLine_indented {page : Page} (spaces : SpacesOnly page) :
    isLabelLine (page.indentation ++ Style.label).toList = true := by
  have indented : ∀ character ∈ page.indentation.toList, isIndent character = true := by
    intro character found
    rw [eq_space_of_mem_indentation spaces found]
    rfl
  rw [isLabelLine, String.toList_append, List.dropWhile_append_of_pos indented]
  decide

/-- A label line behind other lines is the first if none of them is one. -/
theorem findIdx_concat_iff {front : List (List Char)} {last : List Char}
    (label : isLabelLine last = true) :
    (front ++ [last]).findIdx isLabelLine + 1 = (front ++ [last]).length ↔
      front.countP isLabelLine = 0 := by
  have here : [last].findIdx isLabelLine = 0 := by rw [List.findIdx_cons, label, cond_true]
  have earlier := @List.findIdx_lt_length _ isLabelLine front
  rw [List.findIdx_append, here, List.length_append, List.length_singleton, List.countP_eq_zero]
  by_cases found : front.findIdx isLabelLine < front.length
  · obtain ⟨line, member, isLabel⟩ := earlier.mp found
    rw [if_pos found]
    constructor
    · omega
    · exact fun none => absurd isLabel (none line member)
  · rw [if_neg found]
    constructor
    · exact fun _ line member isLabel => found (earlier.mpr ⟨line, member, isLabel⟩)
    · omega

/-- A heredoc ends with the label on a line of its own, and that is the first label line if and only if
the body holds none. Neither the escapes nor the indentation make a label line or spoil one: the body
holds as many as the text of its parts does. As long as no name holds a line feed, its splices hold
none, so that the text beside them settles the matter. -/
theorem first_labelLine_iff {nodes : List Node} (eligible : isHeredoc (Part.ofNodes nodes) = true)
    (settings : Settings) (content : String) (level : Nat) :
    let doc : Heredoc := { parts := Part.ofNodes nodes, eligible := eligible }
    let page : Page := { content := content, level := level, unit := settings.indentUnit }
    let body := lines ((doc.body.run page).page.textSince page).toList
    let remainder := lines (((doc.body ++ doc.footer).run page).page.textSince page).toList
    (doc.body.run page).fault? = none →
      remainder.getLast? = some (page.indentation ++ Style.label).toList ∧
        (remainder.findIdx isLabelLine + 1 = remainder.length ↔ body.countP isLabelLine = 0) ∧
        body.countP isLabelLine = (lines (doc.parts.flatMap Part.said)).countP isLabelLine ∧
        ((∀ node ∈ nodes, node.NamesInLine) →
          body.countP isLabelLine =
            (lines (doc.parts.flatMap Part.surface)).countP isLabelLine) := by
  intro doc page body remainder succeeds
  have ok : doc.parts.findSome? Part.fault? = none := by
    rw [← doc.fault?_body, ← succeeds, Draft.fault?_run]
  have spaces : SpacesOnly page := spacesOnly_of_settings rfl
  have said : body.countP isLabelLine = (lines (doc.parts.flatMap Part.said)).countP isLabelLine :=
    Heredoc.countP_lines_body ok spaces
  -- The body ends a line, so its last line is empty and the label stands on it.
  obtain ⟨front, ofBody, ofRemainder⟩ := Heredoc.lines_remainder ok spaces
  have inFront : body.countP isLabelLine = front.countP isLabelLine := by
    have blank : [([] : List Char)].countP isLabelLine = 0 := by decide
    rw [show body = _ from ofBody, List.countP_append, blank, Nat.add_zero]
  have ends : remainder = front ++ [(page.indentation ++ Style.label).toList] := ofRemainder
  refine ⟨?_, ?_, said, fun inLine => said.trans ?_⟩
  · rw [ends]
    exact List.getLast?_concat
  · rw [ends, inFront]
    exact findIdx_concat_iff (isLabelLine_indented spaces)
  · rw [countP_lines, countP_lines, read_flatMap_said inLine ok]

/-- A label that starts a line inside a splice, and one that a comment stands behind, do not end a
squiggly heredoc. -/
theorem first_labelLine_of_spoilt_labels :
    ∃ doc : Heredoc,
      doc.parts = Part.ofNodes [.str "", .begin [.dstr [.begin [], .str "\n", .str "HEREDOC"]],
        .str "\n", .str "HEREDOC#\n"] ∧
      let page : Page := { content := "x\n", level := 1, unit := Settings.standard.indentUnit }
      (doc.body.run page).fault? = none ∧
        let remainder := lines (((doc.body ++ doc.footer).run page).page.textSince page).toList
        remainder.getLast? = some (page.indentation ++ "HEREDOC").toList ∧
          remainder.findIdx isLabelLine + 1 = remainder.length := by
  let nodes : List Node := [.str "", .begin [.dstr [.begin [], .str "\n", .str "HEREDOC"]],
    .str "\n", .str "HEREDOC#\n"]
  have eligible : isHeredoc (Part.ofNodes nodes) = true := by cbv
  obtain ⟨last, first, said, _⟩ := first_labelLine_iff eligible Settings.standard "x\n" 1
    (Draft.fault?_run _ _)
  have none : (lines ((Part.ofNodes nodes).flatMap Part.said)).countP isLabelLine = 0 := by decide
  exact ⟨{ parts := Part.ofNodes nodes, eligible := eligible }, rfl, Draft.fault?_run _ _, last,
    first.mpr (said.trans none)⟩

theorem isHeredoc_of_label_line :
    isHeredoc (Part.ofNodes [.begin [], .str "\n", .str "HEREDOC\n"]) = true := by
  cbv

/-- A line of the text that is the label ends the heredoc, and what follows it is left outside. -/
theorem heredoc_body_holds_label_line :
    ∃ doc : Heredoc, doc.parts = Part.ofNodes [.begin [], .str "\n", .str "HEREDOC\n"] ∧
      (doc.body.run (Page.blank "  ")).page.content = "\n#\x7b\x7d\nHEREDOC\n" ∧
      "HEREDOC".toList ∈ lines "\n#\x7b\x7d\nHEREDOC\n".toList ∧
      isLabelLine "HEREDOC".toList = true := by
  let doc : Heredoc := { parts := _, eligible := isHeredoc_of_label_line }
  have plain : doc.style = .plain := by decide
  have written : doc.body.text = "\n#\x7b\x7d\nHEREDOC\n" := by decide
  have flush := staysFlush_ofNodes fun node (_ : node ∈ [Node.begin [], .str "\n",
    .str "HEREDOC\n"]) => (staysFlush_code_and_ofNode node).2
  refine ⟨doc, rfl, ?_, by decide, by decide⟩
  rw [doc.page_run_body_of_plain plain flush, written]
  exact String.empty_append

end StringForms.Source
