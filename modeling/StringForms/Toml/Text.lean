/-
Module: StringForms.Toml.Text
Purpose: The four ways to write a text: with or without escapes, on one line or on several.
Main exports: escape?, basicText?, literalText?, longBasicText?, longLiteralText?, text?
-/
import StringForms.Text.Hex
import StringForms.Toml.Space

namespace StringForms.Toml

open StringForms.Text

/-!
Each function takes what follows the opening quotes and answers the text with what follows the
closing ones. A long text may end in one or two quotes of its own, so up to five stand at its end.
-/

/-- A character written with a given number of hexadecimal digits after one letter. -/
def codedEscape? (digits : Nat) (following : List Char) : Option (Char × Nat) :=
  let run := Hex.run digits following
  if run.length = digits then (·, digits + 1) <$> scalar? (Hex.value run) else none

/-- The character that a backslash and the text after it stand for, and how many characters of that
text spell it. -/
def escape? : List Char → Option (Char × Nat)
  | 'b' :: _ => some ('\x08', 1)
  | 't' :: _ => some ('\t', 1)
  | 'n' :: _ => some ('\n', 1)
  | 'f' :: _ => some ('\x0c', 1)
  | 'r' :: _ => some ('\r', 1)
  | 'e' :: _ => some ('\x1b', 1)
  | '"' :: _ => some ('"', 1)
  | '\\' :: _ => some ('\\', 1)
  | 'x' :: rest => codedEscape? 2 rest
  | 'u' :: rest => codedEscape? 4 rest
  | 'U' :: rest => codedEscape? 8 rest
  | _ => none

/-- Puts a character before a text that has been read. -/
def consText (character : Char) (read : List Char × List Char) : List Char × List Char :=
  (character :: read.1, read.2)

/-- Text on one line with escapes. -/
def basicText? : List Char → Option (List Char × List Char)
  | [] => none
  | character :: rest =>
      if character = '"' then some ([], rest)
      else if character = '\\' then
        match escape? rest with
        | none => none
        | some (decoded, length) => consText decoded <$> basicText? (rest.drop length)
      else if isTextChar character then consText character <$> basicText? rest
      else none
termination_by input => input.length
decreasing_by all_goals (simp; try omega)

/-- Text on one line without escapes. -/
def literalText? (input : List Char) : Option (List Char × List Char) :=
  let content := input.takeWhile fun character => isTextChar character && character != '\''
  match input.drop content.length with
  | '\'' :: rest => some (content, rest)
  | _ => none

/-- The quotes that a row of quotes adds to the text it ends: what it has over three, at most two.
With it comes the number of quotes that are taken. A row of less than three ends nothing. -/
def closingQuotes? (quote : Char) (input : List Char) : Option (List Char × Nat) :=
  let row := (input.take 5).takeWhile (· == quote)
  if row.length < 3 then none else some (row.drop 3, row.length)

/-- Whether a backslash before this text joins the present line to the next. -/
def joinsLines (input : List Char) : Bool :=
  (newline? (skipBlanks input)).isSome

/-- Text on several lines with escapes. While `joining`, blanks and line ends are left out. -/
def longBasicText? (joining : Bool) : List Char → Option (List Char × List Char)
  | [] => none
  | character :: rest =>
      if character = '\n' || (character = '\r' && rest.head? = some '\n') then
        if joining then longBasicText? true rest
        else consText character <$> longBasicText? false rest
      else if joining && (isBlank character) then longBasicText? true rest
      else if character = '"' then
        match closingQuotes? '"' (character :: rest) with
        | some (content, length) => some (content, rest.drop (length - 1))
        | none => consText character <$> longBasicText? false rest
      else if character = '\\' then
        if joinsLines rest then longBasicText? true rest
        else
          match escape? rest with
          | none => none
          | some (decoded, length) => consText decoded <$> longBasicText? false (rest.drop length)
      else if isTextChar character then consText character <$> longBasicText? false rest
      else none
termination_by input => input.length
decreasing_by all_goals (simp; try omega)

/-- Text on several lines without escapes. -/
def longLiteralText? : List Char → Option (List Char × List Char)
  | [] => none
  | character :: rest =>
      if character = '\'' then
        match closingQuotes? '\'' (character :: rest) with
        | some (content, length) => some (content, rest.drop (length - 1))
        | none => consText character <$> longLiteralText? rest
      else if isTextChar character || character = '\n' ||
          (character = '\r' && rest.head? = some '\n') then
        consText character <$> longLiteralText? rest
      else none

/-- A long text leaves out a line end right after its opening quotes. -/
def skipFirstLineEnd (input : List Char) : List Char :=
  (newline? input).getD input

/-- Text in quotes of any kind, from its opening quotes on. -/
def text? : List Char → Option (List Char × List Char)
  | '"' :: '"' :: '"' :: rest => longBasicText? false (skipFirstLineEnd rest)
  | '"' :: rest => basicText? rest
  | '\'' :: '\'' :: '\'' :: rest => longLiteralText? (skipFirstLineEnd rest)
  | '\'' :: rest => literalText? rest
  | _ => none

end StringForms.Toml
