/-
Module: StringForms.Sexp.Lexeme
Purpose: Cutting an input into tokens by the longest match.
Main exports: isBlank, quotedLength?, scan?, tokensFrom, lex
-/
import StringForms.Text.CharClass
import StringForms.Text.Bytes
import StringForms.Sexp.Token

namespace StringForms.Sexp

open Text

/-!
The first character of a token, for a colon the first two, settles its kind, so the longest match
is the longest match of one rule. A rule answers how many characters follow the first; the
characters themselves are then taken from the input and not built anew.
-/

/-- The characters that may stand between tokens. -/
def isBlank (character : Char) : Bool :=
  character == ' ' || character == '\t' || character == '\r' || character == '\n'

/-- The characters of a bare symbol after its colon. -/
def isSymbolPart (character : Char) : Bool :=
  !(isWhiteSpace character || character == ',' || character == '(' || character == ')' ||
    character == '"' || character == ':')

/-- How many characters a quoted text takes after its opening quote, the closing quote included.
A backslash takes the next character with it, but never a line feed; without a closing quote there
is no answer. -/
def quotedLength? : List Char → Option Nat
  | [] => none
  | '"' :: _ => some 1
  | '\\' :: [] => none
  | '\\' :: '\n' :: _ => none
  | '\\' :: _ :: rest => (· + 2) <$> quotedLength? rest
  | _ :: rest => (· + 1) <$> quotedLength? rest

/-- How many characters at the start of a text belong to a class. -/
def runLength (belongs : Char → Bool) (text : List Char) : Nat :=
  (text.takeWhile belongs).length

/-- Accepts a run that holds at least one character. -/
def nonemptyRun? (kind : TokenKind) (length : Nat) : Option (TokenKind × Nat) :=
  if length = 0 then none else some (kind, length)

/-- The token that starts with `first`: its kind, and how many characters of the text that follows
belong to it. -/
def scan? (first : Char) (following : List Char) : Option (TokenKind × Nat) :=
  if first = '(' then some (.leftParenthesis, 0)
  else if first = ')' then some (.rightParenthesis, 0)
  else if first = ',' then some (.comma, 0)
  else if first = '"' then (.string, ·) <$> quotedLength? following
  else if first = ':' then
    match following with
    | '"' :: body => (.quotedSymbol, · + 1) <$> quotedLength? body
    | _ => nonemptyRun? .symbol (runLength isSymbolPart following)
  else if first = '-' then nonemptyRun? .integer (runLength Char.isDigit following)
  else if first.isDigit then some (.integer, runLength Char.isDigit following)
  else if isWordStart first then some (.identifier, runLength isWordPart following)
  else none

/-- The tokens of an input that starts at a given byte. -/
def tokensFrom (offset : Nat) : List Char → Except ReadError (List Token)
  | [] => .ok []
  | first :: following =>
      if isBlank first then tokensFrom (offset + first.utf8Size) following
      else
        match scan? first following with
        | none => .error (.invalidCharacter offset)
        | some (kind, length) => do
            let text := first :: following.take length
            let later ← tokensFrom (offset + byteSize text) (following.drop length)
            pure ({ kind := kind, text := String.ofList text, offset := offset } :: later)
termination_by text => text.length
decreasing_by all_goals (simp; try omega)

/-- The tokens of an input, or the byte at which no token starts. -/
def lex (source : String) : Except ReadError (List Token) :=
  tokensFrom 0 source.toList

end StringForms.Sexp
