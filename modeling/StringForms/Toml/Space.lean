/-
Module: StringForms.Toml.Space
Purpose: Blanks, comments and line ends.
Main exports: isBlank, isTextChar, skipBlanks, newline?, lineEnd?, skipLines?
-/

namespace StringForms.Toml

/-- Spaces and tabs stand freely between the words of a line. -/
def isBlank (character : Char) : Bool :=
  character == ' ' || character == '\t'

/-- The characters of comments and of text on one line: all but the control characters, of which only
the tab is allowed. -/
def isTextChar (character : Char) : Bool :=
  character == '\t' || (decide (0x20 ≤ character.toNat) && character.toNat != 0x7F)

/-- A text from its first character on that is no blank. -/
def skipBlanks (input : List Char) : List Char :=
  input.dropWhile isBlank

/-- A text from its second line on, if it starts with a line end. A carriage return ends a line only
together with a line feed. -/
def newline? : List Char → Option (List Char)
  | '\n' :: rest => some rest
  | '\r' :: '\n' :: rest => some rest
  | _ => none

/-- The lines after the present one, which may hold blanks and a comment but nothing else. -/
def lineEnd? (input : List Char) : Option (List Char) :=
  let remaining :=
    match skipBlanks input with
    | '#' :: comment => comment.dropWhile isTextChar
    | other => other
  if remaining.isEmpty then some [] else newline? remaining

/-- A text from its first character on that belongs to no blank, line end or comment. There is none
if a comment holds a character that it must not. -/
def skipLinesFrom (inComment : Bool) : List Char → Option (List Char)
  | [] => some []
  | '\n' :: rest => skipLinesFrom false rest
  | '\r' :: '\n' :: rest => skipLinesFrom false rest
  | character :: rest =>
      if inComment then
        if isTextChar character then skipLinesFrom true rest else none
      else if isBlank character then skipLinesFrom false rest
      else if character = '#' then skipLinesFrom true rest
      else some (character :: rest)

/-- Skips blanks, line ends and comments. -/
def skipLines? (input : List Char) : Option (List Char) :=
  skipLinesFrom false input

end StringForms.Toml
