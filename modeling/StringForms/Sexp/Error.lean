/-
Module: StringForms.Sexp.Error
Purpose: Why the written form of a node is refused, and the wording of each reason.
Main exports: Expectation, ChildProblem, ReadError, ReadError.message
-/
import StringForms.Node.Kind

namespace StringForms.Sexp

/-- What may stand at a place of the input. -/
inductive Expectation where
  | nodeStart
  | openParenthesis
  | nodeKind
  | atom
  | separator
  | described (text : String)
deriving Repr, Inhabited, DecidableEq

/-- The words for an expectation. -/
def Expectation.text : Expectation → String
  | .nodeStart => "`s(`"
  | .openParenthesis => "`(`"
  | .nodeKind => "node kind"
  | .atom => "node, symbol, string, integer or nil"
  | .separator => "`,` or `)`"
  | .described text => text

/-- How the children of a node fail to fit its kind. -/
inductive ChildProblem where
  | count
  | notText
  | notSymbol
  | notNumber
  | notPositive
  | notInteger
  | notScopeAndName
  | notReceiverAndMethod
  | notNodeOrNil
  | notNodes
deriving Repr, Inhabited, DecidableEq

/-- The words for a problem with children. -/
def ChildProblem.text : ChildProblem → String
  | .count => "wrong number of children"
  | .notText => "expected a string payload"
  | .notSymbol => "expected a symbol"
  | .notNumber => "expected a group number"
  | .notPositive => "expected a positive group number"
  | .notInteger => "expected an integer"
  | .notScopeAndName => "expected a scope and a name"
  | .notReceiverAndMethod => "expected a receiver and a method name"
  | .notNodeOrNil => "expected a node or nil"
  | .notNodes => "expected only child nodes"

/-- Why an input is not the written form of a node. Offsets count bytes of the input. -/
inductive ReadError where
  | invalidCharacter (offset : Nat)
  | unexpectedToken (expected : Expectation) (found : String) (offset : Nat)
  | unexpectedEnd (expected : Expectation)
  | unknownKind (tag : String) (offset : Nat)
  | invalidChildren (kind : Kind) (offset : Nat) (problem : ChildProblem)
  | invalidEscape (escape : String) (offset : Nat)
  | integerOutOfRange (text : String) (offset : Nat)
  | trailingInput (offset : Nat)
deriving Repr, Inhabited, DecidableEq

/-- The report of an error. -/
def ReadError.message : ReadError → String
  | .invalidCharacter offset => s!"Unrecognised input at byte {offset}"
  | .unexpectedToken expected found offset =>
      let wanted := expected.text
      s!"Expected {wanted} at byte {offset}, found `{found}`"
  | .unexpectedEnd expected =>
      let wanted := expected.text
      s!"Unexpected end of input, expected {wanted}"
  | .unknownKind tag offset => s!"Unknown node kind `{tag}` at byte {offset}"
  | .invalidChildren kind offset problem =>
      let tag := kind.tag
      let words := problem.text
      s!"Invalid children for `{tag}` node at byte {offset}: {words}"
  | .invalidEscape escape offset => s!"Invalid escape `{escape}` at byte {offset}"
  | .integerOutOfRange text offset => s!"Integer `{text}` at byte {offset} is out of range"
  | .trailingInput offset => s!"Unexpected trailing input at byte {offset}"

end StringForms.Sexp
