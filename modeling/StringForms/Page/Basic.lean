/-
Module: StringForms.Page.Basic
Purpose: A page of text that is written from its start to its end and indents its lines.
Main exports: Page, Page.blank, Page.append, Page.write, Page.newline, Page.atLevel,
  Page.textSince
-/

namespace StringForms

/-- Text written so far, the indentation level in force, and the text of one level. -/
structure Page where
  content : String
  level : Nat
  unit : String
deriving Repr, Inhabited, DecidableEq

namespace Page

/-!
Only the start of a fragment is ever indented. A line feed inside a fragment starts a line that the
next fragment will indent, but the rest of the same fragment is written as it is.
-/

/-- A page with nothing on it. -/
def blank (unit : String) : Page :=
  { content := "", level := 0, unit := unit }

/-- Whether the last thing written was a line feed. -/
def atLineStart (page : Page) : Bool :=
  page.content.endsWith '\n'

/-- The text of the level in force. -/
def indentation (page : Page) : String :=
  String.join (List.replicate page.level page.unit)

/-- Writes a fragment as it is. -/
def write (page : Page) (fragment : String) : Page :=
  { page with content := page.content ++ fragment }

/-- Writes a fragment, after the indentation if the page is at the start of a line. An empty
fragment is indented as well. -/
def append (page : Page) (fragment : String) : Page :=
  if page.atLineStart then (page.write page.indentation).write fragment else page.write fragment

/-- Ends the line. -/
def newline (page : Page) : Page :=
  page.write "\n"

/-- The page at another level. -/
def atLevel (page : Page) (level : Nat) : Page :=
  { page with level := level }

/-- What a page holds that an earlier state of it did not. -/
def textSince (page earlier : Page) : String :=
  String.ofList (page.content.toList.drop earlier.content.length)

end Page

end StringForms
