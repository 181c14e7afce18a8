/-
Module: StringForms.Source.Interior
Purpose: What stands between the delimiters of a string, in either form.
Main exports: Mode, Mode.escape, Part.interior, interiorFrom, interior
-/
import StringForms.Source.Literal
import StringForms.Source.Part

namespace StringForms.Source

/-- Where literal text stands, which settles how it is escaped. -/
inductive Mode where
  | heredoc
  | quoted
deriving Repr, Inhabited, DecidableEq

/-- Literal text as it is written in a mode. -/
def Mode.escape (mode : Mode) (text : String) : String :=
  match mode with
  | .heredoc => String.ofList (Literal.heredoc text.toList)
  | .quoted => String.ofList (Literal.quoted text.toList)

theorem Mode.toList_escape_quoted (text : String) :
    (Mode.quoted.escape text).toList = Literal.quoted text.toList :=
  String.toList_ofList

theorem Mode.toList_escape_heredoc (text : String) :
    (Mode.heredoc.escape text).toList = Literal.heredoc text.toList :=
  String.toList_ofList

mutual

/-- One part inside a string. A lone line feed after a splice starts the next line of the source and
is not escaped. A nested string is dissolved: its parts are written as between quotes and are never
indented. -/
def Part.interior (mode : Mode) (afterSplice : Bool) : Part → Code
  | .literal text =>
      if afterSplice && text == "\n" then .append "\n" else .append (mode.escape text)
  | .splice code => .append "#\x7b" ++ (code ++ .append "\x7d")
  | .reference code => .append "#" ++ code
  | .nested parts => .atRoot (interiorFrom .quoted false parts)
  | .bare kind => .halt (.bareExpression kind)

/-- The parts inside a string, where `afterSplice` says whether a splice stands just before. -/
def interiorFrom (mode : Mode) (afterSplice : Bool) : List Part → Code
  | [] => .empty
  | part :: rest => part.interior mode afterSplice ++ interiorFrom mode part.isSplice rest

end

/-- The inside of a string. -/
def interior (mode : Mode) (parts : List Part) : Code :=
  interiorFrom mode false parts

end StringForms.Source
