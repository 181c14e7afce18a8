/-
Module: StringForms.Sexp.Token
Purpose: Tokens of the written form, and the tests that a reader makes on them.
Main exports: TokenKind, Token, Token.unexpected, Token.require, Token.startsNode
-/
import StringForms.Sexp.Error

namespace StringForms.Sexp

/-- The kinds of token. -/
inductive TokenKind where
  | leftParenthesis
  | rightParenthesis
  | comma
  | symbol
  | quotedSymbol
  | string
  | integer
  | identifier
deriving Repr, Inhabited, DecidableEq

/-- A piece of the input: its kind, its characters as they stand there, and the byte at which it
starts. -/
structure Token where
  kind : TokenKind
  text : String
  offset : Nat
deriving Repr, Inhabited, DecidableEq

namespace Token

/-- The error for a token that stands where something else may stand. -/
def unexpected (token : Token) (expected : Expectation) : ReadError :=
  .unexpectedToken expected token.text token.offset

/-- Accepts a token of one kind and refuses every other. -/
def require (token : Token) (kind : TokenKind) (expected : Expectation) : Except ReadError Token :=
  if token.kind = kind then .ok token else .error (token.unexpected expected)

/-- Whether a token is the `s` that every node starts with. -/
def startsNode (token : Token) : Bool :=
  token.kind == .identifier && token.text == "s"

end Token

end StringForms.Sexp
