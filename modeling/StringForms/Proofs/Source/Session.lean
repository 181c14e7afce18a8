/-
Module: StringForms.Proofs.Source.Session
Purpose: What any number of calls that write on one page leave of its state.
Main exports: Call, Call.code, Step, Step.runAll, extends_of_calls
-/
import StringForms.Proofs.Page.Extends
import StringForms.Source.Form

namespace StringForms.Source

/-- The calls by which a program writes on a page: plain text, an expression, the parts of a string
in either form or without delimiters, a heredoc or a stage of it, and a whole string or one of its
two halves. -/
inductive Call where
  | append (fragment : String)
  | write (fragment : String)
  | newline
  | expression (node : Node)
  | quoted (nodes : List Node)
  | interior (mode : Mode) (nodes : List Node)
  | header (doc : Heredoc)
  | body (doc : Heredoc)
  | footer (doc : Heredoc)
  | heredoc (doc : Heredoc)
  | opening (form : Form)
  | remainder (form : Form)
  | whole (form : Form)

/-- What a call writes. -/
def Call.code : Call → Code
  | .append fragment => .append fragment
  | .write fragment => .write fragment
  | .newline => .newline
  | .expression node => node.code
  | .quoted nodes => Source.quoted (Part.ofNodes nodes)
  | .interior mode nodes => Source.interior mode (Part.ofNodes nodes)
  | .header doc => doc.header
  | .body doc => doc.body
  | .footer doc => doc.footer
  | .heredoc doc => doc.whole
  | .opening form => form.opening
  | .remainder form => form.remainder
  | .whole form => form.whole

/-- A call, or a scope one level deeper or at the root with steps of its own. -/
inductive Step where
  | call (writing : Call)
  | indented (steps : List Step)
  | atRoot (steps : List Step)

namespace Step

mutual

/-- The page after a step. A call that fails leaves what it wrote up to there. -/
def run : Step → Page → Page
  | .call writing, page => (writing.code.run page).page
  | .indented steps, page => (runAll steps (page.atLevel (page.level + 1))).atLevel page.level
  | .atRoot steps, page => (runAll steps (page.atLevel 0)).atLevel page.level

/-- The page after a session: steps in a row, each of which is taken whether or not the calls before
it failed. -/
def runAll : List Step → Page → Page
  | [], page => page
  | step :: rest, page => runAll rest (step.run page)

end

mutual

/-- A step extends the page. A nested scope starts at a level of its own, and puts the level back
when it ends. -/
theorem extends_run : ∀ (step : Step) (page : Page), (step.run page).Extends page
  | .call writing, page => writing.code.extends_run page
  | .indented steps, page => (extends_runAll steps (page.atLevel (page.level + 1))).scope
  | .atRoot steps, page => (extends_runAll steps (page.atLevel 0)).scope

/-- Steps in a row extend the page, by induction on the row and together with the steps inside them.
-/
theorem extends_runAll : ∀ (steps : List Step) (page : Page), (runAll steps page).Extends page
  | [], page => .refl page
  | step :: rest, page => (extends_runAll rest (step.run page)).trans (extends_run step page)

end

end Step

/-- After each call, failed or not, the page has its level and its unit back and all its text still
at its start. So has it after every session, however its scopes are nested and whichever of its calls
fail. -/
theorem extends_of_calls (page : Page) :
    (∀ call : Call, (call.code.run page).page.Extends page) ∧
      ∀ steps : List Step, (Step.runAll steps page).Extends page := by
  constructor
  · intro call
    exact call.code.extends_run page
  · intro steps
    exact Step.extends_runAll steps page

end StringForms.Source
