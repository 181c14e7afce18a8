/-
Module: StringForms.Proofs.Source.Indentation
Purpose: The lines of a squiggly heredoc whose parts each keep to one line: all of them are
  indented, each of them once.
Main exports: flatMap_lines, Part.KeepsLine, toList_content_opened_interiorFrom, Node.KeepsLine,
  run_body_of_keepsLine
-/
import StringForms.Proofs.Page.Opened
import StringForms.Proofs.Source.LabelLines
import StringForms.Proofs.Source.Layout

namespace StringForms

namespace Source

/-!
Indentation goes before fragments and not before lines. The two agree as long as a line feed is the
last character of its fragment: then each line begins with a fragment of its own, and the empty text
that makes a heredoc squiggly opens a line or adds nothing to it.
-/

/-! ### Lines -/

/-- The lines of a text, each with its indentation and its end, make the text with an indentation at
the start and behind each line feed. -/
theorem flatMap_lines (indentation text : List Char) :
    (lines text).flatMap (fun line => indentation ++ line ++ ['\n']) =
      indentation ++ indentLines indentation text ++ ['\n'] := by
  induction text with
  | nil => simp [lines, indentLines]
  | cons character rest ih =>
      by_cases lineFeed : character = '\n'
      · have split : lines (character :: rest) = [] :: lines rest := by
          rw [lineFeed]
          exact lines_append [] rest
        rw [split, List.flatMap_cons, ih]
        simp [indentLines, lineFeed]
      · have other : ¬ (character == '\n') = true := by simpa using lineFeed
        obtain ⟨line, later, split⟩ := List.exists_cons_of_ne_nil (List.splitOn_ne_nil '\n' rest)
        have joined : lines (character :: rest) = (character :: line) :: later := by
          rw [lines, List.splitOn_cons_eq_if_modifyHead, if_neg other, split]
          rfl
        have kept : indentLines indentation (character :: rest) =
            character :: indentLines indentation rest := by
          rw [indentLines, List.flatMap_cons, if_neg lineFeed]
          rfl
        rw [lines, split] at ih
        rw [joined, kept]
        simpa using ih

/-! ### Parts that keep to a line -/

/-- A part that a heredoc takes as one fragment with no line feed in it before its end. -/
structure Part.KeepsLine (part : Part) : Prop where
  ok : part.fault? = none
  whole : ∀ afterSplice, (part.interior .heredoc afterSplice).IsFragment
  atEnd : ∀ afterSplice, '\n' ∉ (part.interior .heredoc afterSplice).text.toList.dropLast

/-- The escapes of a heredoc add no line feed. -/
theorem lineFeed_notMem_heredoc {text : List Char} (single : '\n' ∉ text) :
    '\n' ∉ Literal.heredoc text := by
  intro found
  obtain ⟨character, member, inside⟩ := List.mem_flatMap.mp found
  have same : '\n' = character := by
    by_cases hash : character = '#'
    · simp [Literal.heredocChar, hash] at inside
    · simpa [Literal.heredocChar, hash] using inside
  exact single (same ▸ member)

/-- Escaping for a heredoc brings no line feed before the last character. -/
theorem lineFeed_notMem_dropLast_heredoc {text : List Char} (single : '\n' ∉ text.dropLast) :
    '\n' ∉ (Literal.heredoc text).dropLast := by
  cases last : text.getLast? with
  | none =>
      rw [List.getLast?_eq_none_iff.mp last]
      exact List.not_mem_nil
  | some character =>
      obtain ⟨front, rfl⟩ := List.getLast?_eq_some_iff.mp last
      rw [List.dropLast_concat] at single
      have inFront := lineFeed_notMem_heredoc single
      rw [Literal.heredoc] at inFront ⊢
      rw [List.flatMap_append, List.flatMap_singleton]
      by_cases hash : character = '#'
      · simpa [Literal.heredocChar, hash] using inFront
      · simpa [Literal.heredocChar, hash] using inFront

/-- A text with no line feed before its end keeps to its line, since a heredoc takes it as one
fragment. -/
theorem Part.keepsLine_literal {text : String} (single : '\n' ∉ text.toList.dropLast) :
    (Part.literal text).KeepsLine where
  ok := rfl
  whole afterSplice := by
    rw [interior_literal_heredoc]
    exact Draft.isFragment_append _
  atEnd afterSplice := by
    rw [interior_literal_heredoc, Draft.text, Mode.toList_escape_heredoc]
    exact lineFeed_notMem_dropLast_heredoc single

/-- What is opened in a line and stays in it keeps to that line. -/
theorem Part.keepsLine_of_opening {part : Part} {opening : String} {inner : Code}
    (closed : EndsMidLine opening)
    (shape : ∀ afterSplice, part.interior .heredoc afterSplice = .append opening ++ inner)
    (ok : part.fault? = none) (single : '\n' ∉ (part.interior .heredoc false).text.toList) :
    part.KeepsLine where
  ok := ok
  whole afterSplice := by
    have joined := Draft.text_append (Draft.fault?_fragment opening) inner
    rw [shape, joined, String.toList_append, List.mem_append, not_or] at single
    rw [shape]
    exact Draft.isFragment_opening closed single.2
  atEnd afterSplice := by
    rw [shape, ← shape false]
    exact fun found => single (List.mem_of_mem_dropLast found)

/-! ### Rows -/

/-- On a page with its line opened, a row of parts that each keep to a line leaves its text with an
indentation behind each line feed. -/
theorem toList_content_opened_interiorFrom {parts : List Part}
    (each : ∀ part ∈ parts, part.KeepsLine) (afterSplice : Bool) {page : Page}
    (inLine : '\n' ∉ page.indentation.toList) :
    ((interiorFrom .heredoc afterSplice parts).run page).page.opened.content.toList =
      page.opened.content.toList ++
        indentLines page.indentation.toList (interiorFrom .heredoc afterSplice parts).text.toList := by
  induction parts generalizing afterSplice page with
  | nil => simp [interiorFrom, Draft.run, Draft.text, indentLines]
  | cons part rest ih =>
      obtain ⟨keeps, keepsRest⟩ := List.forall_mem_cons.mp each
      let text := (part.interior .heredoc afterSplice).text
      have same : (page.append text).indentation = page.indentation := by
        rw [Page.append_eq_write]
        rfl
      have later := @ih keepsRest part.isSplice (page.append text) (same ▸ inLine)
      rw [page_run_interiorFrom_cons keeps.ok, keeps.whole, later, same,
        Page.toList_content_opened_append inLine (keeps.atEnd afterSplice),
        text_interiorFrom_cons keeps.ok, String.toList_append, indentLines_append,
        List.append_assoc]

end Source

open Source

/-! ### Bodies -/

/-- Writes a node as the only part of a heredoc, on a page of its own. -/
def Node.writeAlone (node : Node) : Outcome RenderError Event :=
  (interior .heredoc (Part.ofNodes [node])).run (Page.blank Settings.standard.indentUnit)

/-- A part of a string that keeps to one line: text with no line feed before its end, or a splice
or a name without braces that can be written and is written without a line feed. -/
inductive Node.KeepsLine : Node → Prop where
  | text {text : String} (single : '\n' ∉ text.toList.dropLast) : KeepsLine (.str text)
  | code {node : Node} (inserted : node.isBegin = true ∨ node.kind.isFlat = true)
      (ok : node.writeAlone.fault? = none)
      (single : '\n' ∉ node.writeAlone.page.content.toList) : KeepsLine node

namespace Source

theorem fault?_of_writeAlone {node : Node} (ok : node.writeAlone.fault? = none) :
    (Part.ofNode node).fault? = none := by
  rw [Node.writeAlone, Draft.fault?_run, fault?_interior] at ok
  exact (ok_cons_iff.mp ok).1

/-- Alone on a page, a node leaves there what it writes as a part of a heredoc. -/
theorem content_writeAlone {node : Node} (ok : node.writeAlone.fault? = none) :
    node.writeAlone.page.content = ((Part.ofNode node).interior .heredoc false).text := by
  have flush : ∀ part ∈ Part.ofNodes [node], part.StaysFlush :=
    staysFlush_ofNodes fun member _ => (staysFlush_code_and_ofNode member).2
  have nothing : (interiorFrom .heredoc (Part.ofNode node).isSplice []).text = "" := rfl
  rw [Node.writeAlone, content_run_interior_blank flush, interior, Part.ofNodes, Part.ofNodes,
    text_interiorFrom_cons (fault?_of_writeAlone ok), nothing, String.append_empty]

/-- A node that keeps to one line becomes a part that does. -/
theorem keepsLine_ofNode {node : Node} (keeps : node.KeepsLine) : (Part.ofNode node).KeepsLine := by
  cases keeps with
  | text single => exact Part.keepsLine_literal single
  | code inserted ok single =>
      rw [content_writeAlone ok] at single
      have okPart := fault?_of_writeAlone ok
      have hash : EndsMidLine "#" := ⟨'#', rfl, by decide⟩
      have braced : EndsMidLine "#\x7b" := ⟨'\x7b', rfl, by decide⟩
      cases node with
      | begin statements => exact Part.keepsLine_of_opening braced (fun _ => rfl) okPart single
      | name sort text =>
          cases sort with
          | ivar => exact Part.keepsLine_of_opening hash (fun _ => rfl) okPart single
          | cvar => exact Part.keepsLine_of_opening hash (fun _ => rfl) okPart single
          | gvar => exact Part.keepsLine_of_opening hash (fun _ => rfl) okPart single
          | _ => cases okPart
      | nthRef group => exact Part.keepsLine_of_opening hash (fun _ => rfl) okPart single
      | _ => simp [Node.isBegin, Node.kind, Kind.isFlat] at inserted

/-- The body of a squiggly heredoc of such parts indents each line that its inside ends. -/
theorem Heredoc.toList_content_body {doc : Heredoc} (squiggly : doc.style = .squiggly)
    (each : ∀ part ∈ doc.parts, part.KeepsLine) {page : Page} (spaces : SpacesOnly page)
    {front : List Char} (ends : (interior .heredoc doc.parts).text.toList = front ++ ['\n']) :
    (doc.body.run page).page.content.toList =
      page.content.toList ++ '\n' :: (lines front).flatMap fun line =>
        (page.atLevel (page.level + 1)).indentation.toList ++ line ++ ['\n'] := by
  -- The pages are compared with their lines opened. The indentation that this adds behind the last
  -- line feed is the same on both sides.
  let start := page.newline.atLevel (page.level + 1)
  let inner := ((interior .heredoc doc.parts).run start).page
  let indentation := start.indentation.toList
  have written : (doc.body.run page).page.content = inner.content := by
    rw [doc.page_run_body, Heredoc.bodyLevel, squiggly]
    rfl
  have inLine : '\n' ∉ indentation := by
    have spacesStart : SpacesOnly start := spaces
    exact fun found => absurd (eq_space_of_mem_indentation spacesStart found) (by decide)
  have begun : start.opened.content.toList = page.content.toList ++ '\n' :: indentation := by
    have atStart : start.atLineStart = true := page.atLineStart_newline
    have lineFeed : start.content.toList = page.content.toList ++ ['\n'] := String.toList_append
    rw [Page.opened_eq_write, Page.lead, if_pos atStart, Page.toList_content_write, lineFeed,
      List.append_assoc]
    rfl
  have ended : inner.opened.content.toList = inner.content.toList ++ indentation := by
    have ok : doc.parts.findSome? Part.fault? = none :=
      List.findSome?_eq_none_iff.mpr fun part found => (each part found).ok
    have atEnd : inner.atLineStart = true := atLineStart_run_interior doc.eligible ok start
    have grown : inner.Extends start := (interior .heredoc doc.parts).extends_run start
    have same : inner.indentation = start.indentation := by
      rw [Page.indentation, Page.indentation, grown.level, grown.unit]
    rw [Page.opened_eq_write, Page.lead, if_pos atEnd, Page.toList_content_write, same]
  have row : inner.opened.content.toList =
      start.opened.content.toList ++ indentLines indentation (front ++ ['\n']) := by
    rw [← ends]
    exact toList_content_opened_interiorFrom each false inLine
  have lineFeed : indentLines indentation ['\n'] = '\n' :: indentation := List.append_nil _
  rw [ended, begun, indentLines_append, lineFeed] at row
  have same : (page.atLevel (page.level + 1)).indentation.toList = indentation := rfl
  rw [written, flatMap_lines, same]
  apply List.append_cancel_right
  rw [row]
  simp only [List.append_assoc, List.cons_append, List.nil_append]

/-- A squiggly heredoc whose parts each keep to a line is written on every page. It starts a line,
and then holds the lines that its inside has on a page of its own, blank ones included, each with one
indentation before it. That inside ends a line, so that nothing stands behind the last of them. -/
theorem run_body_of_keepsLine {nodes : List Node} (eligible : isHeredoc (Part.ofNodes nodes) = true)
    (withEmpty : .str "" ∈ nodes) (keeps : ∀ node ∈ nodes, node.KeepsLine) (settings : Settings)
    (content : String) (level : Nat) :
    let doc : Heredoc := { parts := Part.ofNodes nodes, eligible := eligible }
    let page : Page := { content := content, level := level, unit := settings.indentUnit }
    let outcome := doc.body.run page
    let inside := (interior .heredoc doc.parts).run (Page.blank Settings.standard.indentUnit)
    let insideLines := lines inside.page.content.toList
    let indentation := (String.join (List.replicate (level + 1) settings.indentUnit)).toList
    outcome.fault? = none ∧ inside.fault? = none ∧ insideLines.getLast? = some [] ∧
      outcome.page.content.toList =
        content.toList ++ '\n' ::
          insideLines.dropLast.flatMap fun line => indentation ++ line ++ ['\n'] := by
  intro doc page outcome inside insideLines indentation
  have each : ∀ part ∈ doc.parts, part.KeepsLine :=
    forall_mem_ofNodes.mpr fun node found => keepsLine_ofNode (keeps node found)
  have ok : doc.parts.findSome? Part.fault? = none :=
    List.findSome?_eq_none_iff.mpr fun part found => (each part found).ok
  have squiggly : doc.style = .squiggly := by
    apply Heredoc.style_eq_squiggly
    rw [show doc.parts = nodes.map Part.ofNode from ofNodes_eq_map nodes]
    exact List.mem_map_of_mem withEmpty
  have flush : ∀ part ∈ doc.parts, part.StaysFlush :=
    staysFlush_ofNodes fun node _ => (staysFlush_code_and_ofNode node).2
  have text : inside.page.content = (interior .heredoc doc.parts).text :=
    content_run_interior_blank flush .heredoc _
  obtain ⟨front, ends⟩ : ∃ front, inside.page.content.toList = front ++ ['\n'] := by
    have start : inside.page.atLineStart = true := atLineStart_run_interior eligible ok _
    exact List.getLast?_eq_some_iff.mp (inside.page.atLineStart_iff.mp start)
  have split : insideLines = lines front ++ [[]] := by
    rw [show insideLines = lines (front ++ ['\n']) from congrArg lines ends]
    exact lines_append front []
  refine ⟨?_, ?_, ?_, ?_⟩
  · rw [Draft.fault?_run, Heredoc.fault?_body, ok]
  · rw [Draft.fault?_run, fault?_interior, ok]
  · rw [split, List.getLast?_concat]
  · have spaces : SpacesOnly page := spacesOnly_of_settings rfl
    rw [split, List.dropLast_concat]
    exact Heredoc.toList_content_body squiggly each spaces (text ▸ ends)

/-- The lines may be made of any number of parts, empty texts among them, and may be blank. -/
theorem run_body_of_blank_line :
    let nodes : List Node := [.str "", .begin [.name .lvar "x"], .str "a#\n", .str "\n", .str "",
      .name .ivar "@b", .str "", .str "\n"]
    let page : Page :=
      { content := "x\n", level := 1, unit := Settings.indentUnit { indentWidth := 3 } }
    (∀ node ∈ nodes, node.KeepsLine) ∧ .str "" ∈ nodes ∧
      ∃ doc : Heredoc, doc.parts = Part.ofNodes nodes ∧
        (doc.body.run page).page.content.toList =
          "x\n\n      #\x7bx\x7da\\#\n      \n      #@b\n".toList := by
  intro nodes page
  have eligible : isHeredoc (Part.ofNodes nodes) = true := by cbv
  have withEmpty : .str "" ∈ nodes := List.mem_cons_self
  have splice : (Node.begin [.name .lvar "x"]).KeepsLine := by
    have ok : (Node.begin [.name .lvar "x"]).writeAlone.fault? = none := Draft.fault?_run _ _
    refine .code (.inl rfl) ok ?_
    rw [content_writeAlone ok]
    decide
  have reference : (Node.name .ivar "@b").KeepsLine := by
    have ok : (Node.name .ivar "@b").writeAlone.fault? = none := Draft.fault?_run _ _
    refine .code (.inr rfl) ok ?_
    rw [content_writeAlone ok]
    decide
  have keeps : ∀ node ∈ nodes, node.KeepsLine := by
    simp only [nodes, List.forall_mem_cons]
    exact ⟨.text (by decide), splice, .text (by decide), .text (by decide), .text (by decide),
      reference, .text (by decide), .text (by decide), List.forall_mem_nil _⟩
  have flush : ∀ part ∈ Part.ofNodes nodes, part.StaysFlush :=
    staysFlush_ofNodes fun node _ => (staysFlush_code_and_ofNode node).2
  have text : (interior .heredoc (Part.ofNodes nodes)).text = "#\x7bx\x7da\\#\n\n#@b\n" := by
    decide
  obtain ⟨_, _, _, written⟩ :=
    run_body_of_keepsLine eligible withEmpty keeps { indentWidth := 3 } "x\n" 1
  refine ⟨keeps, withEmpty, { parts := Part.ofNodes nodes, eligible := eligible }, rfl, ?_⟩
  rw [written, content_run_interior_blank flush, text]
  decide

end Source

end StringForms
