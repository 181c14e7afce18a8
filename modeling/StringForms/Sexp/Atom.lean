/-
Module: StringForms.Sexp.Atom
Purpose: Children of a node before they are checked against its kind, and that check.
Main exports: Atom, Atom.ofToken, groupNumber?, Node.ofAtoms, Node.build
-/
import StringForms.Text.Decimal
import StringForms.Node.Basic
import StringForms.Sexp.Quoted
import StringForms.Sexp.Token

namespace StringForms

open Text

namespace Sexp

/-- A child as it is written: a node, or one of the values that a single token holds. -/
inductive Atom where
  | node (node : Node)
  | symbol (name : String)
  | text (value : String)
  | integer (value : Int64)
  | nil
deriving Repr, Inhabited

/-- The name in a bare symbol: all of it but the colon. -/
def Token.symbolName (token : Token) : String :=
  String.ofList (token.text.toList.drop 1)

/-- The inside of a quoted token: what stands after its first `lead` characters, the last of which
is the opening quote, and before the closing quote. -/
def Token.quotedBody (token : Token) (lead : Nat) : String :=
  String.ofList (token.text.toList.drop lead).dropLast

/-- The machine integer of a given value, if there is one. -/
def integerOfInt? (value : Int) : Option Int64 :=
  if Int64.minValue.toInt ≤ value ∧ value ≤ Int64.maxValue.toInt then some (Int64.ofInt value)
  else none

/-- The atom that a single token stands for. -/
def Atom.ofToken (token : Token) : Except ReadError Atom :=
  match token.kind with
  | .symbol => .ok (.symbol token.symbolName)
  | .quotedSymbol => Atom.symbol <$> unescape (token.quotedBody 2) (token.offset + 2)
  | .string => Atom.text <$> unescape (token.quotedBody 1) (token.offset + 1)
  | .integer =>
      match integerOfInt? (Decimal.intValue token.text.toList) with
      | some value => .ok (.integer value)
      | none => .error (.integerOutOfRange token.text token.offset)
  | .identifier =>
      if token.text = "nil" then .ok .nil else .error (token.unexpected .atom)
  | .leftParenthesis | .rightParenthesis | .comma => .error (token.unexpected .atom)

/-- The group that an integer numbers: groups count from one and fit 32 bits. -/
def groupNumber? (value : Int64) : Option UInt32 :=
  if 0 < value.toInt ∧ value.toInt < Int.ofNat UInt32.size then some (UInt32.ofNat value.toInt.toNat) else none

/-- A list of children that are all nodes. -/
def childNodes : List Atom → Except ChildProblem (List Node)
  | [] => .ok []
  | .node node :: rest => (node :: ·) <$> childNodes rest
  | _ :: _ => .error .notNodes

/-- A child that is a node or is left out. -/
def optionalNode : Atom → Except ChildProblem (Option Node)
  | .nil => .ok none
  | .node node => .ok (some node)
  | _ => .error .notNodeOrNil

end Sexp

open Sexp

/-- The node of one kind with given children. Their number is judged before their sort. -/
def Node.ofAtoms (kind : Kind) (atoms : List Atom) : Except ChildProblem Node :=
  match kind with
  | .str =>
      match atoms with
      | [.text value] => .ok (.str value)
      | [_] => .error .notText
      | _ => .error .count
  | .dstr => Node.dstr <$> childNodes atoms
  | .begin => Node.begin <$> childNodes atoms
  | .name sort =>
      match atoms with
      | [.symbol text] => .ok (.name sort text)
      | [_] => .error .notSymbol
      | _ => .error .count
  | .nthRef =>
      match atoms with
      | [.integer value] =>
          match groupNumber? value with
          | some group => .ok (.nthRef group)
          | none => .error .notPositive
      | [_] => .error .notNumber
      | _ => .error .count
  | .int =>
      match atoms with
      | [.integer value] => .ok (.int value)
      | [_] => .error .notInteger
      | _ => .error .count
  | .word which =>
      match atoms with
      | [] => .ok (.word which)
      | _ => .error .count
  | .const =>
      match atoms with
      | [scope, .symbol label] => (Node.const · label) <$> optionalNode scope
      | [_, _] => .error .notScopeAndName
      | _ => .error .count
  | .send =>
      match atoms with
      | receiver :: .symbol method :: arguments => do
          let receiver ← optionalNode receiver
          let arguments ← childNodes arguments
          pure (.send receiver method arguments)
      | _ => .error .notReceiverAndMethod

/-- The finished node of a kind whose tag stands at a given byte, if the children fit the kind. -/
def Node.build (kind : Kind) (offset : Nat) (atoms : List Atom) : Except ReadError Node :=
  match Node.ofAtoms kind atoms with
  | .ok node => .ok node
  | .error problem => .error (.invalidChildren kind offset problem)

end StringForms
