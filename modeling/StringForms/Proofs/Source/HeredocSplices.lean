/-
Module: StringForms.Proofs.Source.HeredocSplices
Purpose: Where a reader finds interpolations in the body of a heredoc whose splices are empty, and
  when these are the splices.
Main exports: spliceOffsets, Heredoc.spliceOffsets, Reads, exists_reads, Heredoc.openings_body_iff,
  openings_body_eq_spliceOffsets_iff
-/
import Mathlib
import StringForms.Proofs.Page.Extends
import StringForms.Proofs.Source.HeredocText
import StringForms.Proofs.Source.Quoted

namespace StringForms.Source

/-!
The `#` of a splice is written bare, so a backslash that waits at the end of the text before it takes
it along. Indentation is put only behind a line feed, where no backslash waits, and holds nothing
that a reader looks for, so neither the level nor the width has a say in what the body means.
-/

/-! ### Where the splices are written -/

/-- The places in the content of a page at which the splices of a row of parts are opened, when the
parts are written on it one after the other. -/
def spliceOffsets (mode : Mode) (afterSplice : Bool) (page : Page) : List Part → List Nat
  | [] => []
  | part :: rest =>
      (if part.isSplice then [page.content.length + page.lead.length] else []) ++
        spliceOffsets mode part.isSplice ((part.interior mode afterSplice).run page).page rest

/-- The level that the body of a heredoc is written at. -/
def Heredoc.bodyLevel (doc : Heredoc) (level : Nat) : Nat :=
  match doc.style with
  | .squiggly => level + 1
  | .plain => 0

/-- The places in the content of a page at which the body of a heredoc opens its splices. -/
def Heredoc.spliceOffsets (doc : Heredoc) (page : Page) : List Nat :=
  Source.spliceOffsets .heredoc false (page.newline.atLevel (doc.bodyLevel page.level)) doc.parts

/-- Each splice is written in one place. -/
theorem length_spliceOffsets (mode : Mode) (afterSplice : Bool) (page : Page) (parts : List Part) :
    (spliceOffsets mode afterSplice page parts).length = parts.countP Part.isSplice := by
  induction parts generalizing afterSplice page with
  | nil => rfl
  | cons part rest ih =>
      rw [spliceOffsets, List.length_append, ih, List.countP_cons]
      cases part.isSplice with
      | true => exact Nat.add_comm _ _
      | false => exact Nat.zero_add _

/-- What is written lies behind what stood on the page before. -/
theorem le_of_mem_spliceOffsets {mode : Mode} {afterSplice : Bool} {page : Page} {parts : List Part}
    {found : Nat} (member : found ∈ spliceOffsets mode afterSplice page parts) :
    page.content.length ≤ found := by
  induction parts generalizing afterSplice page with
  | nil => cases member
  | cons part rest ih =>
      rw [spliceOffsets, List.mem_append] at member
      rcases member with here | later
      · cases splice : part.isSplice with
        | true =>
            rw [splice, if_pos rfl, List.mem_singleton] at here
            omega
        | false =>
            rw [splice] at here
            cases here
      · obtain ⟨added, wrote⟩ :=
          ((part.interior mode afterSplice).extends_run page).content
        have behind := ih later
        rw [wrote, String.length_append] at behind
        omega

/-! ### Indentation -/

/-- A page whose levels are made of spaces. -/
def SpacesOnly (page : Page) : Prop :=
  ∀ character ∈ page.unit.toList, character = ' '

/-- Indentation by any width is made of spaces. -/
theorem spacesOnly_of_settings {page : Page} {settings : Settings}
    (unit : page.unit = settings.indentUnit) : SpacesOnly page := by
  intro character found
  rw [unit, Settings.indentUnit, String.toList_ofList] at found
  exact List.eq_of_mem_replicate found

theorem eq_space_of_mem_indentation {page : Page} (spaces : SpacesOnly page) {character : Char}
    (found : character ∈ page.indentation.toList) : character = ' ' :=
  spaces character (Page.mem_unit_of_mem_indentation found)

theorem eq_space_of_mem_lead {page : Page} (spaces : SpacesOnly page) {character : Char}
    (found : character ∈ page.lead.toList) : character = ' ' := by
  rw [Page.lead] at found
  by_cases start : page.atLineStart = true
  · rw [if_pos start] at found
    exact eq_space_of_mem_indentation spaces found
  · rw [if_neg start] at found
    cases found

theorem openings_spaces {row : List Char} (spaces : ∀ character ∈ row, character = ' ')
    (place : Nat) (rest : List Char) :
    Scanner.lines.openings .inside place (row ++ rest) =
      Scanner.lines.openings .inside (place + row.length) rest := by
  induction row generalizing place with
  | nil => rfl
  | cons character others ih =>
      have inert : Scanner.lines.Inert character := by
        rw [spaces character (by simp)]
        exact inert_lines (by decide) (by decide)
      rw [List.cons_append, Scanner.openings_inert inert,
        ih (fun other found => spaces other (by simp [found])), List.length_cons]
      congr 1
      omega

/-- A reader passes the indentation, before which no backslash waits. -/
theorem openings_lead {page : Page} (spaces : SpacesOnly page) {pending : Bool}
    (fresh : page.atLineStart = true → pending = false) (place : Nat) (rest : List Char) :
    Scanner.lines.openings (insideSpot pending) place (page.lead.toList ++ rest) =
      Scanner.lines.openings (insideSpot pending) (place + page.lead.length) rest := by
  cases start : page.atLineStart with
  | true =>
      rw [fresh start, ← String.length_toList]
      exact openings_spaces (fun _ found => eq_space_of_mem_lead spaces found) place rest
  | false =>
      rw [Page.lead_of_midLine start]
      rfl

/-! ### The parts of a body -/

/-- What a reader makes of the text that a row of parts adds to a page: it starts with a brace if
the text in the parts does, and it opens interpolations at the splices alone if the backslashes in
the parts are paired. -/
structure Reads (pending afterSplice : Bool) (page : Page) (parts : List Part)
    (added : List Char) : Prop where
  wrote : ((interiorFrom .heredoc afterSplice parts).run page).page.content.toList =
    page.content.toList ++ added
  brace : page.atLineStart = false →
    (added.head? = some '{' ↔ (Part.marks parts).head? = some (some '{'))
  means : Scanner.lines.openings (insideSpot pending) page.content.length added =
      spliceOffsets .heredoc afterSplice page parts ↔
    PairedFrom pending (Part.marks parts)

/-- A lone line feed after a splice is written in a heredoc like any other text. -/
theorem interior_literal_heredoc (afterSplice : Bool) (text : String) :
    (Part.literal text).interior .heredoc afterSplice = .append (Mode.heredoc.escape text) := by
  rw [Part.interior]
  by_cases lone : (afterSplice && text == "\n") = true
  · rw [if_pos lone]
    rw [Bool.and_eq_true, beq_iff_eq] at lone
    rw [lone.2]
    rfl
  · rw [if_neg lone]

/-- Behind a line feed no backslash waits. -/
theorem fresh_append {page : Page} {pending : Bool} (spaces : SpacesOnly page)
    (fresh : page.atLineStart = true → pending = false) {text : List Char} {fragment : String}
    (written : fragment.toList = Literal.heredoc text)
    (start : (page.append fragment).atLineStart = true) :
    pendingAfter pending (text.map some) = false := by
  rw [Page.atLineStart_iff, Page.toList_content_append, written, List.getLast?_append, List.getLast?_append,
    getLast?_heredoc] at start
  cases last : text.getLast? with
  | some character =>
      rw [last] at start
      cases start
      obtain ⟨front, rfl⟩ := List.getLast?_eq_some_iff.mp last
      rw [List.map_append, List.map_singleton, pendingAfter_concat]
      rfl
  | none =>
      rw [List.getLast?_eq_none_iff.mp last]
      apply fresh
      rw [Page.atLineStart_iff]
      cases led : page.lead.toList.getLast? with
      | some character =>
          have space := eq_space_of_mem_lead spaces (List.mem_of_getLast? led)
          rw [last, led, space] at start
          cases start
      | none =>
          rw [last, led] at start
          exact start

/-- A literal is read as its escaped text, behind the indentation if a line starts there. -/
theorem reads_literal {pending afterSplice : Bool} {page : Page} {text : String}
    {rest : List Part} {added : List Char} (spaces : SpacesOnly page)
    (fresh : page.atLineStart = true → pending = false)
    (later : Reads (pendingAfter pending (text.toList.map some)) false
      (page.append (Mode.heredoc.escape text)) rest added) :
    Reads pending afterSplice page (.literal text :: rest)
      (page.lead.toList ++ (Literal.heredoc text.toList ++ added)) := by
  have marks : Part.marks (.literal text :: rest) = text.toList.map some ++ Part.marks rest := by
    rw [marks_cons, Part.leaves, List.flatMap_singleton, Leaf.marks]
  have width := Page.length_content_append page (Mode.heredoc.escape text)
  rw [Mode.toList_escape_heredoc] at width
  have offsets : spliceOffsets .heredoc afterSplice page (.literal text :: rest) =
      spliceOffsets .heredoc false (page.append (Mode.heredoc.escape text)) rest := by
    rw [spliceOffsets, interior_literal_heredoc]
    rfl
  constructor
  · rw [interiorFrom, interior_literal_heredoc, Draft.page_run_append_of_ok (Draft.fault?_fragment _)]
    have tail := later.wrote
    rw [Page.toList_content_append, Mode.toList_escape_heredoc, List.append_assoc, List.append_assoc] at tail
    exact tail
  · intro midLine
    rw [Page.lead_of_midLine midLine, marks]
    apply head?_heredoc_append
    intro none
    apply later.brace
    rw [← Bool.not_eq_true, Page.atLineStart_iff, Page.toList_content_append, Page.lead_of_midLine midLine,
      Mode.toList_escape_heredoc, none]
    rw [← Bool.not_eq_true, Page.atLineStart_iff] at midLine
    simpa [Literal.heredoc] using midLine
  · rw [openings_lead spaces fresh, marks, offsets]
    apply openings_heredoc
    · intro found member
      have bound := le_of_mem_spliceOffsets member
      rw [width] at bound
      exact bound
    · intro last
      -- Text that ends in a hash ends in mid-line, so the next part is not indented.
      have closed : EndsMidLine (Mode.heredoc.escape text) := by
        refine ⟨'#', ?_, by decide⟩
        rw [Mode.toList_escape_heredoc, getLast?_heredoc, last]
      exact later.brace (Page.atLineStart_append_eq_false closed page)
    · rw [← width]
      exact later.means

theorem isFragment_splice :
    (.append "#\x7b" ++ (.empty ++ .append "\x7d") : Code).IsFragment := by
  intro page
  have braced : EndsMidLine "#\x7b" := ⟨'\x7b', rfl, by decide⟩
  have written : (.append "#\x7b" ++ (.empty ++ .append "\x7d") : Code).text = "#\x7b" ++ "\x7d" := by
    decide
  rw [written, ← Page.append_append braced, Draft.page_run_append_of_ok (Draft.fault?_fragment _),
    Draft.page_run_append_of_ok Draft.fault?_empty]
  rfl

/-- An empty splice is read as one opening, at its own place. -/
theorem reads_splice {pending afterSplice : Bool} {page : Page} {rest : List Part}
    {added : List Char} (spaces : SpacesOnly page)
    (fresh : page.atLineStart = true → pending = false)
    (later : Reads false true (page.append "#\x7b\x7d") rest added) :
    Reads pending afterSplice page (.splice .empty :: rest)
      (page.lead.toList ++ ('#' :: '\x7b' :: '\x7d' :: added)) := by
  have marks : Part.marks (.splice .empty :: rest) = none :: Part.marks rest := by
    rw [marks_cons, Part.leaves, List.flatMap_singleton, Leaf.marks, List.singleton_append]
  have written : (.append "#\x7b" ++ (.empty ++ .append "\x7d") : Code).text = "#\x7b\x7d" := by
    decide
  have opened : (((Part.splice .empty).interior .heredoc afterSplice).run page).page =
      page.append "#\x7b\x7d" := by
    rw [Part.interior, isFragment_splice, written]
  have width : (page.append "#\x7b\x7d").content.length =
      page.content.length + page.lead.length + 3 := Page.length_content_append page "#\x7b\x7d"
  have offsets : spliceOffsets .heredoc afterSplice page (.splice .empty :: rest) =
      (page.content.length + page.lead.length) ::
        spliceOffsets .heredoc true (page.append "#\x7b\x7d") rest := by
    rw [spliceOffsets, opened]
    rfl
  constructor
  · have ok : ((Part.splice .empty).interior .heredoc afterSplice).fault? = none := by
      rw [Part.interior]
      rfl
    have tail := later.wrote
    rw [Page.toList_content_append, List.append_assoc, List.append_assoc] at tail
    rw [interiorFrom, Draft.page_run_append_of_ok ok, opened]
    exact tail
  · intro midLine
    rw [Page.lead_of_midLine midLine, marks]
    simp
  · rw [openings_lead spaces fresh, marks, offsets, PairedFrom, ← later.means, width]
    cases pending with
    | false =>
        have braced : Scanner.lines.Opens ('\x7b' :: '\x7d' :: added) = true := rfl
        have opening : Scanner.lines.Inert '\x7b' := inert_lines (by decide) (by decide)
        have closing : Scanner.lines.Inert '\x7d' := inert_lines (by decide) (by decide)
        rw [insideSpot, if_neg (by decide), openings_hash_in_lines, if_pos braced,
          Scanner.openings_inert opening, Scanner.openings_inert closing, List.singleton_append,
          List.cons_inj_right, and_iff_right rfl]
    | true =>
        -- The backslash takes the hash with it, so that what is found next lies behind it.
        constructor
        · intro same
          have hidden : page.content.length + page.lead.length ∈
              Scanner.lines.openings .inside (page.content.length + page.lead.length + 1)
                ('\x7b' :: '\x7d' :: added) := by
            rw [insideSpot, if_pos rfl, Scanner.openings_escaped] at same
            rw [same]
            exact List.mem_cons_self
          exact absurd (Scanner.le_of_mem_openings hidden) (by omega)
        · rintro ⟨free, _⟩
          cases free

/-- A text, or a splice with nothing in it. -/
def Part.IsFlat (part : Part) : Prop :=
  (∃ text, part = .literal text) ∨ part = .splice .empty

/-- Whatever page flat parts are written on, a reader who comes to them with no backslash waiting at
the start of a line reads them so. -/
theorem exists_reads {parts : List Part} (flat : ∀ part ∈ parts, part.IsFlat) (afterSplice : Bool)
    {page : Page} (spaces : SpacesOnly page) {pending : Bool}
    (fresh : page.atLineStart = true → pending = false) :
    ∃ added, Reads pending afterSplice page parts added := by
  induction parts generalizing afterSplice page pending with
  | nil =>
      refine ⟨[], ?_, fun _ => ?_, ?_⟩
      · rw [interiorFrom, List.append_nil]
        rfl
      · constructor
        · intro braced
          cases braced
        · intro braced
          cases braced
      · exact ⟨fun _ => trivial, fun _ => rfl⟩
  | cons part rest ih =>
      have flatRest := fun other found => flat other (List.mem_cons_of_mem part found)
      -- A text hands on whether a backslash is pending behind it, and behind a splice none is.
      rcases flat part (by simp) with ⟨text, rfl⟩ | rfl
      · have spacesLater : SpacesOnly (page.append (Mode.heredoc.escape text)) := by
          rw [Page.append_eq_write]
          exact spaces
        obtain ⟨added, later⟩ := ih flatRest false spacesLater
          (fresh_append spaces fresh (Mode.toList_escape_heredoc text))
        exact ⟨_, reads_literal spaces fresh later⟩
      · have spacesLater : SpacesOnly (page.append "#\x7b\x7d") := by
          rw [Page.append_eq_write]
          exact spaces
        obtain ⟨added, later⟩ := ih flatRest true spacesLater fun _ => rfl
        exact ⟨_, reads_splice spaces fresh later⟩

/-! ### The body -/

theorem isFlat_ofNode {node : Node} (flat : node.isStr = true ∨ node = .begin []) :
    (Part.ofNode node).IsFlat := by
  rcases flat with literal | rfl
  · cases node with
    | str text => exact .inl ⟨text, by rw [Part.ofNode]⟩
    | _ => cases literal
  · exact .inr (by rw [Part.ofNode]; rfl)

/-- The parts of plain texts and empty splices are flat. -/
theorem isFlat_of_mem_ofNodes {nodes : List Node}
    (flat : ∀ node ∈ nodes, node.isStr = true ∨ node = .begin []) :
    ∀ part ∈ Part.ofNodes nodes, part.IsFlat :=
  forall_mem_ofNodes.mpr fun node member => isFlat_ofNode (flat node member)

/-- There is a splice for each of the nodes that gives one. -/
theorem countP_isSplice_ofNodes {nodes : List Node}
    (flat : ∀ node ∈ nodes, node.isStr = true ∨ node = .begin []) :
    (Part.ofNodes nodes).countP Part.isSplice = nodes.countP Node.isBegin := by
  rw [ofNodes_eq_map, List.countP_map]
  apply List.countP_congr
  intro node found
  rcases flat node found with literal | rfl
  · cases node with
    | str text => exact Iff.rfl
    | _ => cases literal
  · exact Iff.rfl

/-- Neither a text nor an empty splice can fail. -/
theorem Heredoc.fault?_body_of_flat {doc : Heredoc} (flat : ∀ part ∈ doc.parts, part.IsFlat) :
    doc.body.fault? = none := by
  rw [fault?_body, List.findSome?_eq_none_iff]
  intro part found
  rcases flat part found with ⟨text, rfl⟩ | rfl
  · rfl
  · rfl

/-- The body starts a line, writes its parts at a level of its own, and leaves the level as it was.
-/
theorem Heredoc.page_run_body (doc : Heredoc) (page : Page) :
    (doc.body.run page).page =
      ((interior .heredoc doc.parts).run
        (page.newline.atLevel (doc.bodyLevel page.level))).page.atLevel page.level := by
  rw [body, Draft.page_run_append_of_ok Draft.fault?_newline, bodyLevel]
  cases doc.style with
  | squiggly => rfl
  | plain => rfl

/-- The text of a body is the same in both styles: only on a page are its lines indented. -/
theorem Heredoc.text_body (doc : Heredoc) :
    doc.body.text = "\n" ++ (interior .heredoc doc.parts).text := by
  rw [body, Draft.text_append Draft.fault?_newline]
  cases doc.style with
  | squiggly => rfl
  | plain => rfl

/-- The body of a plain heredoc stands at the margin on every page. -/
theorem Heredoc.page_run_body_of_plain {doc : Heredoc} (plain : doc.style = .plain)
    (flush : ∀ part ∈ doc.parts, part.StaysFlush) (page : Page) :
    (doc.body.run page).page = page.write doc.body.text := by
  have inside : (interior .heredoc doc.parts).StaysFlush :=
    staysFlush_interiorFrom .heredoc false fun part found => flush part found .heredoc
  have margin : (page.newline.atLevel 0).level = 0 := rfl
  rw [page_run_body, bodyLevel, plain]
  simp only
  rw [Draft.page_run_of_flush inside margin, text_body, ← Page.write_write]
  rfl

/-- What a reader makes of the body of a heredoc of flat parts. -/
theorem Heredoc.openings_body_iff {doc : Heredoc} (flat : ∀ part ∈ doc.parts, part.IsFlat)
    {page : Page} (spaces : SpacesOnly page) :
    Scanner.lines.openings .inside page.content.length
        ((doc.body.run page).page.textSince page).toList = doc.spliceOffsets page ↔
      BackslashesPaired (Part.marks doc.parts) := by
  let start := page.newline.atLevel (doc.bodyLevel page.level)
  have spacesStart : SpacesOnly start := spaces
  have started : start.content.toList = page.content.toList ++ ['\n'] := String.toList_append
  have width : start.content.length = page.content.length + 1 := by
    rw [← String.length_toList, started, List.length_append, String.length_toList]
    rfl
  obtain ⟨added, reads⟩ := exists_reads flat false spacesStart fun _ => rfl
  have wrote : (doc.body.run page).page.content.toList = page.content.toList ++ '\n' :: added := by
    have inside := reads.wrote
    rw [started, List.append_assoc] at inside
    rw [page_run_body]
    exact inside
  have since : ((doc.body.run page).page.textSince page).toList = '\n' :: added := by
    rw [(doc.body.extends_run page).content_eq, String.toList_append] at wrote
    exact List.append_cancel_left wrote
  have lineFeed : Scanner.lines.Inert '\n' := inert_lines (by decide) (by decide)
  rw [since, Scanner.openings_inert lineFeed, ← width, backslashesPaired_iff_pairedFrom]
  exact reads.means

/-- The body of a heredoc of literal text and empty splices is written on every page, and a reader
finds interpolations in it exactly where its splices are written, one for each, if and only if the
backslashes of its text stand in pairs before each splice and before each `#` with a brace behind
it. -/
theorem openings_body_eq_spliceOffsets_iff {nodes : List Node}
    (flat : ∀ node ∈ nodes, node.isStr = true ∨ node = .begin [])
    (eligible : isHeredoc (Part.ofNodes nodes) = true) (settings : Settings) (content : String)
    (level : Nat) :
    let doc : Heredoc := { parts := Part.ofNodes nodes, eligible := eligible }
    let page : Page := { content := content, level := level, unit := settings.indentUnit }
    let outcome := doc.body.run page
    outcome.fault? = none ∧
      (doc.spliceOffsets page).length = nodes.countP Node.isBegin ∧
      (Scanner.lines.openings .inside content.length (outcome.page.textSince page).toList =
          doc.spliceOffsets page ↔
        BackslashesPaired (Part.marks doc.parts)) := by
  intro doc page outcome
  have flatParts : ∀ part ∈ doc.parts, part.IsFlat := isFlat_of_mem_ofNodes flat
  have spaces : SpacesOnly page := by
    intro character found
    rw [show page.unit.toList = _ from String.toList_ofList] at found
    exact List.eq_of_mem_replicate found
  refine ⟨?_, ?_, doc.openings_body_iff flatParts spaces⟩
  · rw [Draft.fault?_run, Heredoc.fault?_body_of_flat flatParts]
  · rw [Heredoc.spliceOffsets, length_spliceOffsets]
    exact countP_isSplice_ofNodes flat

/-- A squiggly heredoc with pairs of backslashes before a `#` and before a splice, each pair from two
texts. -/
theorem openings_body_of_paired_texts :
    (∀ node ∈ [Node.str "", .begin [], .str "a\\", .str "\\#\x7bb\n", .str "\\", .str "\\",
        .begin [], .str "\n"], node.isStr = true ∨ node = .begin []) ∧
    ∃ doc : Heredoc,
      doc.parts = Part.ofNodes [.str "", .begin [], .str "a\\", .str "\\#\x7bb\n", .str "\\",
        .str "\\", .begin [], .str "\n"] ∧
      let page : Page := { content := "x\n", level := 1, unit := Settings.standard.indentUnit }
      Scanner.lines.openings .inside 2 ((doc.body.run page).page.textSince page).toList =
        doc.spliceOffsets page := by
  have flat : ∀ node ∈ [Node.str "", .begin [], .str "a\\", .str "\\#\x7bb\n", .str "\\", .str "\\",
      .begin [], .str "\n"], node.isStr = true ∨ node = .begin [] := by
    simp [Node.isStr]
  have eligible : isHeredoc (Part.ofNodes [.str "", .begin [], .str "a\\", .str "\\#\x7bb\n",
      .str "\\", .str "\\", .begin [], .str "\n"]) = true := by
    cbv
  have paired : BackslashesPaired (Part.marks (Part.ofNodes [.str "", .begin [], .str "a\\",
      .str "\\#\x7bb\n", .str "\\", .str "\\", .begin [], .str "\n"])) := by
    decide
  have reads := openings_body_eq_spliceOffsets_iff flat eligible Settings.standard "x\n" 1
  exact ⟨flat, _, rfl, reads.2.2.mpr paired⟩

/-- The text with a backslash before its hash is allowed in a heredoc. -/
theorem isHeredoc_of_freed_hash :
    isHeredoc (Part.ofNodes [.str "\\#\x7bx\x7d\n", .begin [], .str "\n"]) = true := by
  cbv

/-- A backslash at the end of an odd run frees the `#` of a text, which is then read as an
interpolation before the only splice. -/
theorem heredoc_body_opens_interpolation_in_text :
    ∃ doc : Heredoc, doc.parts = Part.ofNodes [.str "\\#\x7bx\x7d\n", .begin [], .str "\n"] ∧
      (doc.body.run (Page.blank "  ")).page.content = "\n\\\\#\x7bx\x7d\n#\x7b\x7d\n" ∧
      Scanner.lines.openings .inside 0 "\n\\\\#\x7bx\x7d\n#\x7b\x7d\n".toList = [3, 8] ∧
      (doc.spliceOffsets (Page.blank "  ")).length = 1 := by
  let doc : Heredoc := { parts := _, eligible := isHeredoc_of_freed_hash }
  have plain : doc.style = .plain := by decide
  have written : doc.body.text = "\n\\\\#\x7bx\x7d\n#\x7b\x7d\n" := by decide
  have flush := staysFlush_ofNodes fun node (_ : node ∈ [Node.str "\\#\x7bx\x7d\n", .begin [],
    .str "\n"]) => (staysFlush_code_and_ofNode node).2
  refine ⟨doc, rfl, ?_, by decide, ?_⟩
  · rw [doc.page_run_body_of_plain plain flush, written]
    exact String.empty_append
  · rw [Heredoc.spliceOffsets, length_spliceOffsets]
    decide

end StringForms.Source
