/-
Module: StringForms.Source.Style
Purpose: The two styles of heredoc.
Main exports: Style, Style.opener, Style.label
-/

namespace StringForms.Source

/-- A squiggly heredoc strips the common indentation of its body, a plain one keeps the body. -/
inductive Style where
  | squiggly
  | plain
deriving Repr, Inhabited, DecidableEq

namespace Style

/-- The line that ends every heredoc. -/
def label : String := "HEREDOC"

/-- What opens a heredoc of each style. -/
def opener : Style → String
  | .squiggly => "<<~HEREDOC"
  | .plain => "<<-HEREDOC"

/-- The word for a style. -/
def name : Style → String
  | .squiggly => "Squiggly"
  | .plain => "Plain"

end Style

end StringForms.Source
