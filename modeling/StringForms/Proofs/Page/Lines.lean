/-
Module: StringForms.Proofs.Page.Lines
Purpose: What stands on each line of a page after a script of fragments, ends of lines and scopes: a
  line behind a line feed is indented once, at the level of the first text on it.
Main exports: Piece, joined, indentedLine, indentedLine_concat, Draft.IsScript, Draft.rows,
  Page.Bears, Page.Bears.run, splitOn_content_run
-/
import StringForms.Proofs.Page.Extends
import StringForms.Settings.Basic

namespace StringForms

/-!
A page does not know whether the line at hand has been indented: it looks at its last character
alone. What a script means for its lines is told here without a page. The pieces that it appends
are sorted into rows, one for each line, and each row is a line by a rule of its own. The two agree
because a page with any text on the line at hand, if only an indentation, does not end in a line
feed, and behind a line feed one without such text does.
-/

/-! ### Rows -/

/-- A fragment as it is appended: with the level in force there. -/
structure Piece where
  level : Nat
  fragment : String
deriving Repr, Inhabited, DecidableEq

namespace Piece

/-- The indentation of the level, in a given unit. -/
def indentation (unit : String) (piece : Piece) : List Char :=
  (String.join (List.replicate piece.level unit)).toList

theorem mem_unit_of_mem_indentation {unit : String} {piece : Piece} {character : Char}
    (found : character ∈ piece.indentation unit) : character ∈ unit.toList := by
  let page := (Page.blank unit).atLevel piece.level
  have onPage : character ∈ page.indentation.toList := found
  exact Page.mem_unit_of_mem_indentation onPage

/-- Whether a piece adds text to a line on which nothing stands yet. There it is indented, so that
an empty fragment adds text as well if its level has some. -/
def adds (unit : String) (piece : Piece) : Bool :=
  !(piece.indentation unit ++ piece.fragment.toList).isEmpty

end Piece

/-- The fragments of a row, one behind the other. -/
def joined (row : List Piece) : List Char :=
  row.flatMap fun piece => piece.fragment.toList

/-- The line that a row makes behind a line feed: the fragments, indented at the level of the first
piece that adds any text. If there is no such piece the line is empty. -/
def indentedLine (unit : String) (row : List Piece) : List Char :=
  match row.find? (Piece.adds unit) with
  | none => []
  | some first => first.indentation unit ++ joined row

/-- The rows of the lines that have ended, and the row of the line at hand. -/
structure Rows where
  ended : List (List Piece)
  current : List Piece
deriving Repr, Inhabited, DecidableEq

namespace Draft

variable {Fault Note : Type}

/-- A script appends fragments without a line feed, ends lines and opens scopes. -/
def IsScript : Draft Fault Note → Prop
  | .append fragment => '\n' ∉ fragment.toList
  | .write _ => False
  | .halt _ => False
  | .indented inner => inner.IsScript
  | .atRoot inner => inner.IsScript
  | .andThen first second => first.IsScript ∧ second.IsScript
  | .empty => True
  | .newline => True
  | .note _ => True

/-- Rows with the pieces of a script that starts at a given level. -/
def rowsFrom (level : Nat) (rows : Rows) : Draft Fault Note → Rows
  | .append fragment =>
      { rows with current := rows.current ++ [{ level := level, fragment := fragment }] }
  | .newline => { ended := rows.ended ++ [rows.current], current := [] }
  | .indented inner => inner.rowsFrom (level + 1) rows
  | .atRoot inner => inner.rowsFrom 0 rows
  | .andThen first second => second.rowsFrom level (first.rowsFrom level rows)
  | _ => rows

/-- The rows of a script, one for each of its lines. -/
def rows (script : Draft Fault Note) : List (List Piece) :=
  let rows := script.rowsFrom 0 { ended := [], current := [] }
  rows.ended ++ [rows.current]

/-- A script has nothing in it that could fail. -/
theorem fault?_of_isScript {script : Draft Fault Note} (isScript : script.IsScript) :
    script.fault? = none := by
  induction script with
  | halt fault => exact isScript.elim
  | indented inner ih => exact ih isScript
  | atRoot inner ih => exact ih isScript
  | andThen first second ihFirst ihSecond =>
      rw [fault?, ihFirst isScript.1, ihSecond isScript.2]
      rfl
  | _ => rfl

end Draft

/-! ### How a line grows -/

theorem joined_concat (row : List Piece) (piece : Piece) :
    joined (row ++ [piece]) = joined row ++ piece.fragment.toList := by
  simp [joined]

/-- A piece is indented exactly if nothing stands on its line yet. -/
theorem indentedLine_concat (unit : String) (row : List Piece) (piece : Piece) :
    indentedLine unit (row ++ [piece]) = indentedLine unit row ++
      ((if indentedLine unit row = [] then piece.indentation unit else []) ++
        piece.fragment.toList) := by
  cases found : row.find? (Piece.adds unit) with
  | none =>
      -- No piece has added anything yet, so that the new one may be the first.
      have nothing : indentedLine unit row = [] := by simp only [indentedLine, found]
      have blank : joined row = [] := by
        rw [joined, List.flatMap_eq_nil_iff]
        intro other member
        have addsNothing := List.find?_eq_none.mp found other member
        simp only [Piece.adds, Bool.not_eq_true', Bool.not_eq_false, List.isEmpty_iff]
          at addsNothing
        exact (List.append_eq_nil_iff.mp addsNothing).2
      rw [nothing, if_pos rfl, List.nil_append, indentedLine, List.find?_append, found,
        Option.none_or, List.find?_singleton]
      cases adds : piece.adds unit with
      | true =>
          rw [if_pos rfl]
          simp only [joined_concat, blank, List.nil_append]
      | false =>
          have silent : piece.indentation unit ++ piece.fragment.toList = [] := by
            simpa [Piece.adds] using adds
          rw [if_neg Bool.false_ne_true, silent]
  | some first =>
      have line : indentedLine unit row = first.indentation unit ++ joined row := by
        simp only [indentedLine, found]
      have filled : indentedLine unit row ≠ [] := by
        intro empty
        rw [line, List.append_eq_nil_iff, joined, List.flatMap_eq_nil_iff] at empty
        have adds := List.find?_some found
        rw [Piece.adds, empty.1, empty.2 first (List.mem_of_find?_eq_some found)] at adds
        cases adds
      rw [if_neg filled, List.nil_append, line, indentedLine, List.find?_append, found,
        Option.some_or]
      simp only [joined_concat, List.append_assoc]

/-! ### Lines of rows -/

/-- The line of a row behind rows whose lines have ended: the first line is never indented. -/
def lineBehind (unit : String) (ended : List (List Piece)) (row : List Piece) : List Char :=
  if ended = [] then joined row else indentedLine unit row

/-- The lines of rows. -/
def linesOf (unit : String) : List (List Piece) → List (List Char)
  | [] => []
  | first :: later => joined first :: later.map (indentedLine unit)

/-- One more row makes one more line and leaves the lines before it. -/
theorem linesOf_concat (unit : String) (ended : List (List Piece)) (row : List Piece) :
    linesOf unit (ended ++ [row]) = linesOf unit ended ++ [lineBehind unit ended row] := by
  cases ended <;> simp [linesOf, lineBehind]

theorem lineFeed_notMem_joined {row : List Piece}
    (single : ∀ piece ∈ row, '\n' ∉ piece.fragment.toList) : '\n' ∉ joined row := by
  intro found
  obtain ⟨piece, member, inside⟩ := List.mem_flatMap.mp found
  exact single piece member inside

/-- A line has no line feed if neither its fragments nor the unit has one. -/
theorem lineFeed_notMem_indentedLine {unit : String} (inLine : '\n' ∉ unit.toList)
    {row : List Piece} (single : ∀ piece ∈ row, '\n' ∉ piece.fragment.toList) :
    '\n' ∉ indentedLine unit row := by
  unfold indentedLine
  split
  · exact List.not_mem_nil
  · rw [List.mem_append, not_or]
    exact ⟨mt Piece.mem_unit_of_mem_indentation inLine, lineFeed_notMem_joined single⟩

/-- The same of all lines at once, the first of which is not indented. -/
theorem lineFeed_notMem_linesOf {unit : String} (inLine : '\n' ∉ unit.toList)
    {rows : List (List Piece)}
    (single : ∀ row ∈ rows, ∀ piece ∈ row, '\n' ∉ piece.fragment.toList) :
    ∀ line ∈ linesOf unit rows, '\n' ∉ line := by
  cases rows with
  | nil => exact List.forall_mem_nil _
  | cons first later =>
      obtain ⟨singleFirst, singleLater⟩ := List.forall_mem_cons.mp single
      refine List.forall_mem_cons.mpr ⟨lineFeed_notMem_joined singleFirst, ?_⟩
      intro line found
      obtain ⟨row, member, rfl⟩ := List.mem_map.mp found
      exact lineFeed_notMem_indentedLine inLine (singleLater row member)

/-- Lines that have ended, with one behind them, are the lines of the text that they make. -/
theorem splitOn_flatMap_append {closed : List (List Char)} {line : List Char}
    (single : ∀ other ∈ closed, '\n' ∉ other) (singleLine : '\n' ∉ line) :
    (closed.flatMap (· ++ ['\n']) ++ line).splitOn '\n' = closed ++ [line] := by
  induction closed with
  | nil => exact List.splitOn_eq_singleton singleLine
  | cons first later ih =>
      obtain ⟨singleFirst, singleLater⟩ := List.forall_mem_cons.mp single
      have split : (first :: later).flatMap (· ++ ['\n']) ++ line =
          first ++ '\n' :: (later.flatMap (· ++ ['\n']) ++ line) := by simp
      rw [split, List.splitOn_append_cons_self_of_not_mem singleFirst, ih singleLater,
        List.cons_append]

/-! ### Pages -/

namespace Page

/-- The page holds the lines of the rows and nothing else, and no piece of a row nor the unit has a
line feed in it. -/
structure Bears (page : Page) (rows : Rows) : Prop where
  content : page.content.toList =
    (linesOf page.unit rows.ended).flatMap (· ++ ['\n']) ++
      lineBehind page.unit rows.ended rows.current
  inLine : '\n' ∉ page.unit.toList
  single : ∀ row ∈ rows.ended ++ [rows.current], ∀ piece ∈ row, '\n' ∉ piece.fragment.toList

namespace Bears

variable {page : Page} {rows : Rows}

/-- A blank page bears no line that has ended and an empty row. -/
theorem blank {unit : String} (inLine : '\n' ∉ unit.toList) :
    (Page.blank unit).Bears { ended := [], current := [] } where
  content := rfl
  inLine := inLine
  single := by simp

/-- The lines do not depend on the level that the page is at. -/
theorem atLevel (bears : page.Bears rows) (level : Nat) : (page.atLevel level).Bears rows where
  content := bears.content
  inLine := bears.inLine
  single := bears.single

theorem newline (bears : page.Bears rows) :
    page.newline.Bears { ended := rows.ended ++ [rows.current], current := [] } where
  content := by
    have ended : rows.ended ++ [rows.current] ≠ [] := by simp
    have fresh : lineBehind page.unit (rows.ended ++ [rows.current]) [] = [] := if_neg ended
    have wrote : page.newline.content.toList = page.content.toList ++ ['\n'] := String.toList_append
    have unit : page.newline.unit = page.unit := rfl
    rw [wrote, unit, fresh, bears.content, linesOf_concat]
    simp
  inLine := bears.inLine
  single := by
    intro row found
    rcases List.mem_append.mp found with before | same
    · exact bears.single row before
    · rw [List.mem_singleton.mp same]
      exact List.forall_mem_nil _

/-- On a page that bears rows, the line at hand has no line feed in it. -/
theorem lineFeed_notMem_lineBehind (bears : page.Bears rows) :
    '\n' ∉ lineBehind page.unit rows.ended rows.current := by
  have single : ∀ piece ∈ rows.current, '\n' ∉ piece.fragment.toList :=
    bears.single rows.current (by simp)
  unfold lineBehind
  split
  · exact lineFeed_notMem_joined single
  · exact lineFeed_notMem_indentedLine bears.inLine single

/-- The page is at the start of a line where a line feed stands last, and that is where a line has
ended and the one at hand is empty. -/
theorem atLineStart_iff (bears : page.Bears rows) :
    page.atLineStart = true ↔
      rows.ended ≠ [] ∧ lineBehind page.unit rows.ended rows.current = [] := by
  rw [Page.atLineStart_iff, bears.content, List.getLast?_append]
  have single := bears.lineFeed_notMem_lineBehind
  generalize lineBehind page.unit rows.ended rows.current = line at single
  cases last : line.getLast? with
  | some character =>
      have filled : line ≠ [] := by
        rintro rfl
        cases last
      have other : character ≠ '\n' := by
        rintro rfl
        exact single (List.mem_of_getLast? last)
      simp [filled, other]
  | none =>
      have empty : line = [] := List.getLast?_eq_none_iff.mp last
      rcases List.eq_nil_or_concat rows.ended with none | ⟨front, row, some⟩
      · simp [none, linesOf]
      · simp [some, empty, linesOf_concat]

/-- What a piece adds to the line at hand is what the page writes. -/
theorem lineBehind_concat (bears : page.Bears rows) (fragment : String) :
    lineBehind page.unit rows.ended
        (rows.current ++ [{ level := page.level, fragment := fragment }]) =
      lineBehind page.unit rows.ended rows.current ++ (page.lead.toList ++ fragment.toList) := by
  have start := bears.atLineStart_iff
  by_cases first : rows.ended = []
  · have midLine : page.atLineStart = false := by
      rw [← Bool.not_eq_true, start]
      exact fun both => both.1 first
    rw [lineBehind, lineBehind, if_pos first, if_pos first, joined_concat, lead_of_midLine midLine]
    rfl
  · have same : ({ level := page.level, fragment := fragment } : Piece).indentation page.unit =
        page.indentation.toList := rfl
    rw [lineBehind, if_neg first] at start
    rw [lineBehind, lineBehind, if_neg first, if_neg first, indentedLine_concat, same, lead]
    by_cases empty : indentedLine page.unit rows.current = []
    · rw [if_pos empty, if_pos (start.mpr ⟨first, empty⟩)]
    · rw [if_neg empty, if_neg fun begun => empty (start.mp begun).2]
      rfl

/-- A fragment joins the row at hand. Behind a line feed it is indented as long as the row has added
no text. -/
theorem append (bears : page.Bears rows) {fragment : String} (single : '\n' ∉ fragment.toList) :
    (page.append fragment).Bears
      { rows with current := rows.current ++ [{ level := page.level, fragment := fragment }] } where
  content := by
    have unit : (page.append fragment).unit = page.unit := by rw [append_eq_write, write]
    rw [toList_content_append, unit, bears.lineBehind_concat, bears.content, List.append_assoc]
  inLine := by
    rw [append_eq_write]
    exact bears.inLine
  single := by
    intro row found piece member
    rcases List.mem_append.mp found with before | same
    · exact bears.single row (List.mem_append_left _ before) piece member
    · rw [List.mem_singleton.mp same] at member
      rcases List.mem_append.mp member with earlier | last
      · exact bears.single rows.current (by simp) piece earlier
      · rw [List.mem_singleton.mp last]
        exact single

/-- A script adds its pieces to the rows that a page bears. -/
theorem run {Fault Note : Type} {script : Draft Fault Note} (isScript : script.IsScript)
    (bears : page.Bears rows) :
    (script.run page).page.Bears (script.rowsFrom page.level rows) := by
  induction script generalizing page rows with
  | append fragment => exact bears.append isScript
  | write fragment => exact isScript.elim
  | newline => exact bears.newline
  | halt fault => exact isScript.elim
  | indented inner ih => exact (ih isScript (bears.atLevel (page.level + 1))).atLevel page.level
  | atRoot inner ih => exact (ih isScript (bears.atLevel 0)).atLevel page.level
  | andThen first second ihFirst ihSecond =>
      have unfolded : first.andThen second = first ++ second := rfl
      have ok := Draft.fault?_of_isScript isScript.1
      have level := (first.extends_run page).level
      have later := ihSecond isScript.2 (ihFirst isScript.1 bears)
      rw [level] at later
      rw [unfolded, Draft.page_run_append_of_ok ok]
      exact later
  | empty => exact bears
  | note entry => exact bears

/-- Cut at its line feeds, a page that bears rows gives their lines. -/
theorem splitOn_content (bears : page.Bears rows) :
    page.content.toList.splitOn '\n' = linesOf page.unit (rows.ended ++ [rows.current]) := by
  have ended : ∀ row ∈ rows.ended, ∀ piece ∈ row, '\n' ∉ piece.fragment.toList :=
    fun row found => bears.single row (List.mem_append_left _ found)
  rw [bears.content, linesOf_concat]
  exact splitOn_flatMap_append (lineFeed_notMem_linesOf bears.inLine ended)
    bears.lineFeed_notMem_lineBehind

end Bears

end Page

/-! ### Scripts -/

/-- A script on a page of its own writes a line for each of its rows. The first holds the fragments
of its row as they are. Every later one holds those of its row behind one indentation, that of the
first piece with which text came onto the line, be it no more than the indentation; without such a
piece it is empty. -/
theorem splitOn_content_run {Fault Note : Type} {script : Draft Fault Note}
    (isScript : script.IsScript) (settings : Settings) :
    let outcome := script.run (Page.blank settings.indentUnit)
    outcome.fault? = none ∧
      ∃ first later, script.rows = first :: later ∧
        outcome.page.content.toList.splitOn '\n' =
          joined first :: later.map (indentedLine settings.indentUnit) := by
  intro outcome
  have inLine : '\n' ∉ settings.indentUnit.toList := by
    rw [Settings.indentUnit, String.toList_ofList]
    exact fun found => absurd (List.eq_of_mem_replicate found) (by decide)
  have bears := Page.Bears.run isScript (.blank inLine)
  have lines := bears.splitOn_content
  have unit : outcome.page.unit = settings.indentUnit := (script.extends_run _).unit
  refine ⟨(Draft.fault?_run _ _).trans (Draft.fault?_of_isScript isScript), ?_⟩
  obtain ⟨first, later, rows⟩ : ∃ first later, script.rows = first :: later :=
    List.exists_cons_of_ne_nil (by simp [Draft.rows])
  refine ⟨first, later, rows, ?_⟩
  rw [unit] at lines
  rw [lines]
  exact congrArg (linesOf settings.indentUnit) rows

/-- An empty fragment indents the second line only where its level has text. What is appended behind
it stands at other levels, and the lines that are ended at once are empty. -/
theorem splitOn_content_run_of_late_indentation :
    let script : Draft Empty Empty :=
      .indented (.append "a") ++ (.append "b" ++ (.newline ++ (.append "" ++
        (.indented (.append "" ++ .atRoot (.append "c")) ++ (.append "d" ++
          .indented (.newline ++ .newline))))))
    let outcome := script.run (Page.blank (Settings.indentUnit { indentWidth := 3 }))
    script.IsScript ∧ outcome.fault? = none ∧
      outcome.page.content.toList.splitOn '\n' = ["ab".toList, "   cd".toList, [], []] := by
  intro script outcome
  have isScript : script.IsScript := by
    simp [script, Draft.IsScript, HAppend.hAppend, Append.append]
  obtain ⟨ok, first, later, rows, lines⟩ := splitOn_content_run isScript { indentWidth := 3 }
  have known : script.rows =
      [[⟨1, "a"⟩, ⟨0, "b"⟩], [⟨0, ""⟩, ⟨1, ""⟩, ⟨0, "c"⟩, ⟨0, "d"⟩], [], []] := rfl
  rw [known] at rows
  obtain ⟨rfl, rfl⟩ := List.cons.inj rows
  exact ⟨isScript, ok, lines.trans (by decide)⟩

end StringForms
