/-
Module: StringForms.Source.Code
Purpose: The source text of an expression, and the parts of a string read off its nodes.
Main exports: isPlainName, symbolText, Node.code, Node.codes, Part.ofNode, Part.ofNodes
-/
import StringForms.Text.Decimal
import StringForms.Node.Basic
import StringForms.Source.Quoted

namespace StringForms

namespace Source

open Text

/-!
Calls are always written with a dot, so that no precedence has to be known. A string inside an
expression always takes the quoted form: the body of a heredoc would have to follow the line that
the splice stands on.
-/

/-- A name that a symbol literal shows without quotes: an identifier, which may end in one of `?`,
`!` and `=`. -/
def isPlainName : List Char → Bool
  | [] => false
  | first :: rest =>
      let word :=
        match rest.getLast? with
        | some '?' | some '!' | some '=' => rest.dropLast
        | _ => rest
      isWordStart first && word.all isWordPart

/-- The literal of a symbol. -/
def symbolText (name : List Char) : List Char :=
  if isPlainName name then ':' :: name else [':', '"'] ++ Literal.quoted name ++ ['"']

/-- The source text of a named node: a symbol as a literal, and any variable as its name. -/
def nameCode (sort : NameSort) (text : String) : Code :=
  match sort with
  | .sym => .append (String.ofList (symbolText text.toList))
  | _ => .append text

/-- The source text of a numbered group. -/
def groupCode (group : UInt32) : Code :=
  .append (String.ofList ('$' :: Decimal.digits group.toNat))

/-- The source text of a literal that is no part of a longer string. -/
def literalCode (text : String) : Code :=
  .append "\"" ++ (.append (Mode.quoted.escape text) ++ .append "\"")

/-- A name or group that follows a `#` without braces if its kind allows that, and otherwise an
expression that a string cannot hold there. -/
def referencePart (kind : Kind) (code : Code) : Part :=
  if kind.isFlat then .reference code else .bare kind

end Source

open Text Source

mutual

/-- The source text of an expression. -/
def Node.code : Node → Code
  | .str text => literalCode text
  | .dstr parts => quoted (Source.Part.ofNodes parts)
  | .begin statements => .append "(" ++ (.separated "; " (Node.codes statements) ++ .append ")")
  | .name sort text => nameCode sort text
  | .nthRef group => groupCode group
  | .int value => .append (String.ofList (Decimal.ofInt value.toInt))
  | .word which => .append which.text
  | .const scope label => Node.qualifier "::" scope ++ .append label
  | .send receiver method arguments =>
      Node.qualifier "." receiver ++ (.append method ++
        if arguments.isEmpty then .empty
        else .append "(" ++ (.separated ", " (Node.codes arguments) ++ .append ")"))

/-- The source texts of a list of expressions. -/
def Node.codes : List Node → List Code
  | [] => []
  | node :: rest => Node.code node :: Node.codes rest

/-- What a name is qualified by, with the mark that joins the two, if anything. -/
def Node.qualifier (mark : String) : Option Node → Code
  | none => .empty
  | some node => Node.code node ++ .append mark

/-- One node as a part of a string. -/
def Source.Part.ofNode : Node → Part
  | .str text => .literal text
  | .dstr parts => .nested (Source.Part.ofNodes parts)
  | .begin statements => .splice (.separated "; " (Node.codes statements))
  | .name sort text => referencePart (.name sort) (nameCode sort text)
  | .nthRef group => referencePart .nthRef (groupCode group)
  | .int _ => .bare .int
  | .word which => .bare (.word which)
  | .const _ _ => .bare .const
  | .send _ _ _ => .bare .send

/-- The parts of a string. -/
def Source.Part.ofNodes : List Node → List Part
  | [] => []
  | node :: rest => Source.Part.ofNode node :: Source.Part.ofNodes rest

end

end StringForms
