/-
Module: StringForms.Proofs.Source.LabelLines
Purpose: Which lines end a heredoc, and a reader that counts them one character at a time.
Main exports: isIndent, lines, isLabelLine, LabelReader, countP_lines
-/
import StringForms.Source.Style

namespace StringForms.Source

/-!
Lines say what ends a heredoc, but text is put together from fragments that begin and end anywhere in
a line. The reader remembers of a line only how much of the label it has shown so far, so what a
fragment does to it can be told without the rest of the line.
-/

/-- Whether a character may stand before the label. -/
def isIndent (character : Char) : Bool :=
  character == ' ' || character == '\t'

/-- The lines of a text, without the line feeds between them. -/
def lines (text : List Char) : List (List Char) :=
  text.splitOn '\n'

/-- Whether a line ends the heredoc: it holds the label and nothing else behind its indentation. -/
def isLabelLine (line : List Char) : Bool :=
  line.dropWhile isIndent == Style.label.toList

/-- A line feed parts the lines before it from those behind it. -/
theorem lines_append (first second : List Char) :
    lines (first ++ '\n' :: second) = lines first ++ lines second :=
  List.splitOn_append_cons_self first second

theorem lines_of_notMem {line : List Char} (single : '\n' ∉ line) : lines line = [line] :=
  List.splitOn_eq_singleton single

/-- A line behind a text that ends a line is a line of its own, in place of the empty one that
stands there else. -/
theorem lines_of_getLast {text line : List Char} (ends : text.getLast? = some '\n')
    (single : '\n' ∉ line) :
    ∃ front, lines text = front ++ [[]] ∧ lines (text ++ line) = front ++ [line] := by
  obtain ⟨front, rfl⟩ := List.getLast?_eq_some_iff.mp ends
  refine ⟨lines front, lines_append front [], ?_⟩
  rw [List.append_assoc, List.singleton_append, lines_append, lines_of_notMem single]

/-! ### One line -/

/-- How much of the label a line shows with one character more. A line that cannot be a label line
any more shows none. -/
def progress (shown : Option Nat) (character : Char) : Option Nat :=
  shown.bind fun count =>
    if count = 0 ∧ isIndent character then some 0
    else if Style.label.toList[count]? = some character then some (count + 1)
    else none

/-- A line that cannot be a label line does not become one. -/
theorem foldl_progress_none (line : List Char) : line.foldl progress none = none := by
  induction line with
  | nil => rfl
  | cons character rest ih => exact ih

/-- A character that is neither indentation nor in the label spoils the line. -/
theorem progress_of_notMem {character : Char} (outside : character ∉ Style.label.toList)
    (unindented : isIndent character = false) (shown : Option Nat) :
    progress shown character = none := by
  cases shown with
  | none => rfl
  | some count =>
      have other : Style.label.toList[count]? ≠ some character :=
        fun found => outside (List.mem_of_getElem? found)
      rw [progress, Option.bind_some, unindented, if_neg (fun both => Bool.noConfusion both.2),
        if_neg other]

/-- Once the label has begun, the line must go on with the rest of it and end there. -/
theorem foldl_progress_of_pos {line : List Char} {count : Nat} (begun : 0 < count)
    (within : count ≤ Style.label.toList.length) :
    line.foldl progress (some count) = some Style.label.toList.length ↔
      line = Style.label.toList.drop count := by
  induction line generalizing count with
  | nil =>
      rw [List.foldl_nil, Option.some.injEq, eq_comm (a := []), List.drop_eq_nil_iff]
      omega
  | cons character rest ih =>
      have unindented : ¬ (count = 0 ∧ isIndent character = true) := by
        rintro ⟨rfl, _⟩
        exact absurd begun (Nat.lt_irrefl 0)
      rw [List.foldl_cons, progress, Option.bind_some, if_neg unindented]
      by_cases next : Style.label.toList[count]? = some character
      · obtain ⟨inside, same⟩ := List.getElem?_eq_some_iff.mp next
        rw [if_pos next, ih (Nat.succ_pos count) inside, List.drop_eq_getElem_cons inside, same,
          List.cons.injEq, and_iff_right rfl]
      · rw [if_neg next, foldl_progress_none]
        constructor
        · exact nofun
        · intro same
          apply absurd _ next
          rw [← List.head?_drop, ← same, List.head?_cons]

/-- A line that has shown nothing but indentation yet is a label line if what is left of it is. -/
theorem foldl_progress_eq_iff (line : List Char) :
    line.foldl progress (some 0) = some Style.label.toList.length ↔ isLabelLine line = true := by
  rw [isLabelLine, beq_iff_eq]
  induction line with
  | nil => decide
  | cons character rest ih =>
      rw [List.foldl_cons, progress, Option.bind_some, List.dropWhile_cons]
      by_cases indent : isIndent character = true
      · rw [if_pos ⟨rfl, indent⟩, if_pos indent]
        exact ih
      · have label : Style.label.toList = 'H' :: Style.label.toList.drop 1 := by decide
        rw [if_neg (fun both => indent both.2), if_neg indent]
        by_cases next : Style.label.toList[0]? = some character
        · have first : character = 'H' := (Option.some.inj next).symm
          rw [if_pos next, foldl_progress_of_pos Nat.one_pos (by decide), first, label,
            List.cons.injEq, and_iff_right rfl]
          rfl
        · rw [if_neg next, foldl_progress_none]
          constructor
          · exact nofun
          · intro same
            apply absurd _ next
            rw [← same]
            rfl

/-! ### A text -/

/-- A reader who counts label lines: how many have ended, and how much of the label the line at hand
shows. -/
structure LabelReader where
  ended : Nat
  shown : Option Nat

namespace LabelReader

/-- Before anything is read. -/
def start : LabelReader :=
  { ended := 0, shown := some 0 }

/-- The label lines that there are if the line at hand ends here. -/
def count (reader : LabelReader) : Nat :=
  reader.ended + if reader.shown = some Style.label.toList.length then 1 else 0

/-- Reads one character. -/
def step (reader : LabelReader) (character : Char) : LabelReader :=
  if character = '\n' then { ended := reader.count, shown := some 0 }
  else { reader with shown := progress reader.shown character }

/-- Reads a text. -/
def read (reader : LabelReader) (text : List Char) : LabelReader :=
  text.foldl step reader

theorem read_cons (reader : LabelReader) (character : Char) (text : List Char) :
    reader.read (character :: text) = (reader.step character).read text :=
  rfl

theorem read_append (reader : LabelReader) (first second : List Char) :
    reader.read (first ++ second) = (reader.read first).read second :=
  List.foldl_append

/-- A character that neither the label nor an indentation has spoils the line at hand. -/
theorem step_of_notMem {character : Char} (outside : character ∉ Style.label.toList)
    (unindented : isIndent character = false) (inLine : character ≠ '\n')
    (reader : LabelReader) : reader.step character = { reader with shown := none } := by
  rw [step, if_neg inLine, progress_of_notMem outside unindented]

/-- Within a line no label line ends. -/
theorem read_of_notMem {line : List Char} (single : '\n' ∉ line) (reader : LabelReader) :
    reader.read line = { reader with shown := line.foldl progress reader.shown } := by
  induction line generalizing reader with
  | nil => rfl
  | cons character rest ih =>
      obtain ⟨other, singleRest⟩ := not_or.mp (mt List.mem_cons.mpr single)
      have stepped : reader.step character =
          { reader with shown := progress reader.shown character } := if_neg (Ne.symm other)
      rw [read_cons, stepped, ih singleRest]
      rfl

/-- A whole line counts if it is a label line. -/
theorem count_line (ended : Nat) (line : List Char) :
    count { ended := ended, shown := line.foldl progress (some 0) } =
      ended + if isLabelLine line then 1 else 0 := by
  rw [count]
  simp only [foldl_progress_eq_iff]

/-- The line at hand is a label line if the line that it goes on with completes the label, and the
lines behind that one are judged as they are. -/
theorem count_read (ended : Nat) (shown : Option Nat) (text : List Char) :
    ∃ line rest, lines text = line :: rest ∧
      (read { ended := ended, shown := shown } text).count =
        count { ended := ended, shown := line.foldl progress shown } +
          rest.countP isLabelLine := by
  induction text generalizing ended shown with
  | nil => exact ⟨[], [], rfl, rfl⟩
  | cons character text ih =>
      rw [read_cons, step]
      by_cases lineFeed : character = '\n'
      · rw [if_pos lineFeed]
        obtain ⟨line, rest, split, counted⟩ :=
          ih (count { ended := ended, shown := shown }) (some 0)
        refine ⟨[], line :: rest, ?_, ?_⟩
        · rw [lineFeed, ← split]
          exact lines_append [] text
        · rw [counted, count_line, List.countP_cons, List.foldl_nil]
          omega
      · rw [if_neg lineFeed]
        obtain ⟨line, rest, split, counted⟩ := ih ended (progress shown character)
        refine ⟨character :: line, rest, ?_, counted⟩
        have other : ¬ (character == '\n') = true := by rwa [beq_iff_eq]
        rw [lines, List.splitOn_cons_eq_if_modifyHead, if_neg other, ← lines, split]
        rfl

end LabelReader

/-- What the reader counts in a text are its label lines. -/
theorem countP_lines (text : List Char) :
    (lines text).countP isLabelLine = (LabelReader.start.read text).count := by
  obtain ⟨line, rest, split, counted⟩ := LabelReader.count_read 0 (some 0) text
  rw [split, LabelReader.start, counted, LabelReader.count_line, List.countP_cons]
  omega

end StringForms.Source
