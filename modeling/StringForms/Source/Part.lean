/-
Module: StringForms.Source.Part
Purpose: The parts of an interpolated string as the writer of the string sees them.
Main exports: Code, Part, Category, Part.category, Category.tag
-/
import StringForms.Page.Draft
import StringForms.Source.Event

namespace StringForms.Source

/-- A draft of source text. -/
abbrev Code := Draft RenderError Event

/-- A part of an interpolated string. A splice holds the code between its braces, a reference the
name that follows a `#` without braces. A bare part is an expression that can stand only in a
splice. -/
inductive Part where
  | literal (text : String)
  | splice (code : Code)
  | reference (code : Code)
  | nested (parts : List Part)
  | bare (kind : Kind)
deriving Repr, Inhabited

namespace Part

/-- Whether a part is literal text. -/
def isLiteral : Part → Bool
  | .literal _ => true
  | _ => false

/-- Whether a part is a splice. -/
def isSplice : Part → Bool
  | .splice _ => true
  | _ => false

/-- Whether a part is a string of its own. -/
def isNested : Part → Bool
  | .nested _ => true
  | _ => false

end Part

/-- What the choice of a form looks at in a part. -/
inductive Category where
  | emptyText
  | newline
  | line
  | blanks
  | splice
  | other
deriving Repr, Inhabited, DecidableEq

namespace Category

/-- The word for a category. -/
def tag : Category → String
  | .emptyText => "str_empty"
  | .newline => "str_nl"
  | .line => "str_nl_eol"
  | .blanks => "str_ws"
  | .splice => "begin"
  | .other => "other"

/-- The category of literal text. A lone line feed is not a line, and blanks are spaces and tabs, at
least one. -/
def ofText (text : List Char) : Category :=
  if text = ['\n'] then .newline
  else if text.getLast? = some '\n' then .line
  else if text.isEmpty then .emptyText
  else if text.all fun character => character == ' ' || character == '\t' then .blanks
  else .other

end Category

/-- The category of a part. -/
def Part.category : Part → Category
  | .literal text => .ofText text.toList
  | .splice _ => .splice
  | _ => .other

end StringForms.Source
