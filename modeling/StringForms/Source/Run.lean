/-
Module: StringForms.Source.Run
Purpose: Splitting the parts of a string into runs, each of which is one quoted literal.
Main exports: breaksAfter, runs
-/
import StringForms.Source.Part

namespace StringForms.Source

/-- Whether a part opens a new run after the run so far. Two literals stay together only if a splice
came before them in the run, and a nested string is a run of its own. -/
def breaksAfter (current : List Part) (part : Part) : Bool :=
  match current.getLast? with
  | none => false
  | some last =>
      (part.isLiteral && last.isLiteral && !current.any Part.isSplice) || last.isNested ||
        part.isNested

/-- The runs of a string whose first run already holds `current`. -/
def runsFrom (current : List Part) : List Part → List (List Part)
  | [] => [current]
  | part :: rest =>
      if breaksAfter current part then current :: runsFrom [part] rest
      else runsFrom (current ++ [part]) rest

/-- The runs of a string, in order. No parts make one empty run. -/
def runs (parts : List Part) : List (List Part) :=
  runsFrom [] parts

/-- Splitting loses no part and keeps the order. -/
theorem flatten_runsFrom (current parts : List Part) :
    (runsFrom current parts).flatten = current ++ parts := by
  induction parts generalizing current with
  | nil => simp [runsFrom]
  | cons part rest ih =>
      simp only [runsFrom]
      split <;> simp [ih]

end StringForms.Source
