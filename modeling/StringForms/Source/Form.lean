/-
Module: StringForms.Source.Form
Purpose: The choice between the two forms of a string, and writing a whole string.
Main exports: Form, Form.choose, Form.ofNode, Form.opening, Form.remainder, Form.whole,
  Form.decision, Rendering, render
-/
import StringForms.Source.Code
import StringForms.Source.Heredoc

namespace StringForms.Source

/-- The form of a string. -/
inductive Form where
  | quoted (parts : List Part)
  | heredoc (doc : Heredoc)

namespace Form

/-- A string is a heredoc whenever it can be one. -/
def choose (parts : List Part) : Form :=
  match Heredoc.detect? parts with
  | some doc => .heredoc doc
  | none => .quoted parts

/-- The form of a node, which must be an interpolated string. -/
def ofNode (node : Node) : Except RenderError Form :=
  match node with
  | .dstr parts => .ok (choose (Part.ofNodes parts))
  | other => .error (.notDynamicString other.kind)

/-- The parts of the string. -/
def parts : Form → List Part
  | .quoted parts => parts
  | .heredoc doc => doc.parts

/-- The heredoc that the form is, if it is one. -/
def heredoc? : Form → Option Heredoc
  | .quoted _ => none
  | .heredoc doc => some doc

/-- What is logged about the choice. -/
def decision (form : Form) : Event :=
  .formChosen form.parts.length (form.heredoc?.map Heredoc.style)

/-- What stands where the string stands: the whole quoted form, or the opener of a heredoc, whose
lines must wait for the end of the line. -/
def opening : Form → Code
  | .quoted parts => Source.quoted parts
  | .heredoc doc => doc.header

/-- What is left to write once the line with the opening has ended. -/
def remainder : Form → Code
  | .quoted _ => .empty
  | .heredoc doc => doc.body ++ doc.footer

/-- Opening and remainder in a row. -/
def whole (form : Form) : Code :=
  form.opening ++ form.remainder

end Form

/-- What writing a string gives: its text or an error, and the log. -/
structure Rendering where
  result : Except RenderError String
  events : List Event

/-- Writes an interpolated string on a page of its own, whose level has a given text. -/
def render (unit : String) (node : Node) : Rendering :=
  match Form.ofNode node with
  | .error error => { result := .error error, events := [] }
  | .ok form =>
      let outcome := form.whole.run (Page.blank unit)
      { result :=
          match outcome.fault? with
          | some fault => .error fault
          | none => .ok outcome.page.content
        events := form.decision :: outcome.notes }

end StringForms.Source
