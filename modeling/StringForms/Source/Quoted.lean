/-
Module: StringForms.Source.Quoted
Purpose: The quoted form of a string: one double-quoted literal for each run of its parts.
Main exports: quotedRun, quoted
-/
import StringForms.Source.Interior
import StringForms.Source.Run

namespace StringForms.Source

/-- One run as a literal. The closing quote is written at the root level like the inside, so that a
line feed at the end of the inside does not indent it. -/
def quotedRun (run : List Part) : Code :=
  .append "\"" ++ .atRoot (interior .quoted run ++ .append "\"")

/-- The quoted form of a string: its runs as literals with single spaces between them, or an empty
percent literal if it has no parts. -/
def quoted (parts : List Part) : Code :=
  if parts.isEmpty then .append "%()"
  else
    .note (.split parts.length (runs parts).length) ++
      .separated " " ((runs parts).map quotedRun)

end StringForms.Source
