/-
Module: StringForms.Source.Event
Purpose: Why a string cannot be written, and what is worth a line in a log while it is.
Main exports: RenderError, RenderError.message, Event, Event.message
-/
import StringForms.Node.Kind
import StringForms.Source.Style

namespace StringForms.Source

/-- Why a node has no source text: it is no interpolated string, or a part of a string is an
expression outside a splice that no string can hold there. -/
inductive RenderError where
  | notDynamicString (kind : Kind)
  | bareExpression (kind : Kind)
deriving Repr, Inhabited, DecidableEq

/-- The report of an error. -/
def RenderError.message : RenderError → String
  | .notDynamicString kind =>
      let tag := kind.tag
      s!"Expected a dynamic string node, found `{tag}`"
  | .bareExpression kind =>
      let tag := kind.tag
      s!"`{tag}` node cannot be interpolated without a `begin` wrapper"

/-- What is logged: the form chosen for the outermost string, and each split of the parts of a
quoted string into runs. -/
inductive Event where
  | formChosen (parts : Nat) (style : Option Style)
  | split (parts runs : Nat)
deriving Repr, Inhabited, DecidableEq

/-- The line for an event, with its level. -/
def Event.message : Event → String
  | .formChosen parts (some style) =>
      let name := style.name
      s!"DEBUG dynamic string with {parts} parts uses {name} heredoc"
  | .formChosen parts none => s!"DEBUG dynamic string with {parts} parts uses inline form"
  | .split parts runs => s!"TRACE split {parts} parts into {runs} segments"

end StringForms.Source
