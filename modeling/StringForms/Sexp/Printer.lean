/-
Module: StringForms.Sexp.Printer
Purpose: The written form of a node.
Main exports: isBareName, spellSymbol, spellText, Node.spell, Node.display
-/
import StringForms.Text.Decimal
import StringForms.Node.Basic
import StringForms.Sexp.Quoted
import StringForms.Sexp.Lexeme

namespace StringForms

open Text Sexp

namespace Sexp

/-- A text between quotes. -/
def spellText (text : List Char) : List Char :=
  '"' :: (Quoted.encode text ++ ['"'])

/-- A name that a bare symbol can hold: it is not empty, and no character of it ends a symbol. -/
def isBareName (name : List Char) : Bool :=
  !name.isEmpty && name.all isSymbolPart

/-- A symbol, bare if its name allows it and quoted otherwise. -/
def spellSymbol (name : List Char) : List Char :=
  ':' :: (if isBareName name then name else spellText name)

/-- A node of one kind, given the written forms of its children. -/
def spellForm (kind : Kind) (children : List (List Char)) : List Char :=
  ['s', '(', ':'] ++ kind.tag.toList ++ children.flatMap ([',', ' '] ++ ·) ++ [')']

end Sexp

namespace Node

mutual

/-- The characters of the written form of a node. -/
def spell : Node → List Char
  | .str text => spellForm .str [spellText text.toList]
  | .dstr parts => spellForm .dstr (spellAll parts)
  | .begin statements => spellForm .begin (spellAll statements)
  | .name sort text => spellForm (.name sort) [spellSymbol text.toList]
  | .nthRef group => spellForm .nthRef [Decimal.digits group.toNat]
  | .int value => spellForm .int [Decimal.ofInt value.toInt]
  | .word which => spellForm (.word which) []
  | .const scope label => spellForm .const [spellOptional scope, spellSymbol label.toList]
  | .send receiver method arguments =>
      spellForm .send
        (spellOptional receiver :: spellSymbol method.toList :: spellAll arguments)

/-- The written forms of a list of nodes. -/
def spellAll : List Node → List (List Char)
  | [] => []
  | node :: rest => spell node :: spellAll rest

/-- The written form of a node that may be left out. -/
def spellOptional : Option Node → List Char
  | none => ['n', 'i', 'l']
  | some node => spell node

end

/-- The written form of a node. -/
def display (node : Node) : String :=
  String.ofList node.spell

end Node

end StringForms
