/-
Module: StringForms.Source.Heredoc
Purpose: Which strings can be heredocs, and how a heredoc is written.
Main exports: matchesPattern, isHeredoc, Style.ofParts, Heredoc, Heredoc.detect?, Heredoc.header,
  Heredoc.body, Heredoc.footer, Heredoc.whole
-/
import StringForms.Source.Interior

namespace StringForms.Source

/-!
A heredoc is chosen only where a splice stands beside blank text or a line, in one of five
arrangements of neighbouring parts, and where the last part ends its line, since a heredoc has no
way to end without one.
-/

/-- The two arrangements of two neighbours. -/
def isPair (first second : Category) : Bool :=
  match first, second with
  | .emptyText, .splice => true
  | .splice, .newline => true
  | _, _ => false

/-- The three arrangements of three neighbours. -/
def isTriple (first second third : Category) : Bool :=
  match first, second, third with
  | .splice, .line, .line => true
  | .line, .splice, .line => true
  | .blanks, .splice, .line => true
  | _, _, _ => false

/-- Whether one of the five arrangements starts a row of categories. -/
def startsPattern : List Category → Bool
  | first :: second :: third :: _ => isPair first second || isTriple first second third
  | [first, second] => isPair first second
  | _ => false

/-- Whether one of the five arrangements stands anywhere in a row of categories. -/
def matchesPattern : List Category → Bool
  | [] => false
  | category :: rest => startsPattern (category :: rest) || matchesPattern rest

/-- Whether the last part is text that ends a line. -/
def endsLine (parts : List Part) : Bool :=
  match parts.getLast? with
  | some (.literal text) => text.endsWith '\n'
  | _ => false

/-- Whether a string can be a heredoc. -/
def isHeredoc (parts : List Part) : Bool :=
  endsLine parts && matchesPattern (parts.map Part.category)

/-- Whether a part is text with nothing in it. -/
def Part.isEmptyText : Part → Bool
  | .literal text => text == ""
  | _ => false

/-- A heredoc is squiggly exactly if one of its own parts is empty text. -/
def Style.ofParts (parts : List Part) : Style :=
  if parts.any Part.isEmptyText then .squiggly else .plain

/-- A string that can be a heredoc. -/
structure Heredoc where
  parts : List Part
  eligible : isHeredoc parts = true

namespace Heredoc

/-- The heredoc of a list of parts, if it can be one. -/
def detect? (parts : List Part) : Option Heredoc :=
  if eligible : isHeredoc parts = true then some { parts := parts, eligible := eligible } else none

/-- The style of a heredoc. -/
def style (doc : Heredoc) : Style :=
  .ofParts doc.parts

/-- The opener, which stands where the string stands. -/
def header (doc : Heredoc) : Code :=
  .append doc.style.opener

/-- The lines of the heredoc from the end of the opener's line on: one level deeper if it is
squiggly, at the margin if it is plain. -/
def body (doc : Heredoc) : Code :=
  .newline ++
    match doc.style with
    | .squiggly => .indented (interior .heredoc doc.parts)
    | .plain => .atRoot (interior .heredoc doc.parts)

/-- The line that ends the heredoc. -/
def footer (_doc : Heredoc) : Code :=
  .append Style.label

/-- Header, body and footer in a row. -/
def whole (doc : Heredoc) : Code :=
  doc.header ++ (doc.body ++ doc.footer)

end Heredoc

end StringForms.Source
