/-
Module: StringForms.Proofs.Source.Deferral
Purpose: What is left of a string once its opening is written does not depend on what is written in
  between.
Main exports: Form.exists_added_remainder, run_remainder_after_any_text
-/
import StringForms.Proofs.Page.Alike
import StringForms.Proofs.Source.Layout

namespace StringForms.Source

/-!
The lines of a heredoc begin with a line feed of their own. Behind it every page of one level and
unit is at the start of a line, so nothing that stands on the page earlier has a say in them, and
text may come between the opener and the lines.
-/

namespace Heredoc

/-- The lines of a heredoc and its label are the same on all pages of one level and unit. -/
theorem grownAlike_remainder (doc : Heredoc) {page other : Page} (level : page.level = other.level)
    (unit : page.unit = other.unit) :
    page.GrownAlike other ((doc.body ++ doc.footer).run page).page
      ((doc.body ++ doc.footer).run other).page := by
  have lines : page.GrownAlike other (doc.body.run page).page (doc.body.run other).page :=
    Draft.grownAlike_newline _ level unit
  cases verdict : doc.body.fault? with
  | some fault =>
      rw [Draft.page_run_append_of_halts verdict, Draft.page_run_append_of_halts verdict]
      exact lines
  | none =>
      rw [Draft.page_run_append_of_ok verdict, Draft.page_run_append_of_ok verdict]
      exact lines.trans (doc.footer.alike_run lines.1)

end Heredoc

namespace Form

/-- A form leaves one text behind its opening on all pages of one level and unit. -/
theorem exists_added_remainder (form : Form) (level : Nat) (unit : String) :
    ∃ added, ∀ page : Page, page.level = level → page.unit = unit →
      (form.remainder.run page).page.content = page.content ++ added := by
  cases form with
  | quoted parts => exact ⟨"", fun page _ _ => String.append_empty.symm⟩
  | heredoc doc =>
      let empty : Page := { content := "", level := level, unit := unit }
      refine ⟨((doc.body ++ doc.footer).run empty).page.content, fun page sameLevel sameUnit => ?_⟩
      have grown : page.GrownAlike empty _ _ := doc.grownAlike_remainder sameLevel sameUnit
      obtain ⟨_, added, wrote, wroteEmpty⟩ := grown
      rw [String.empty_append] at wroteEmpty
      rw [wroteEmpty]
      exact wrote

/-- A form without a fault has none in its opening and none in what is left for later. -/
theorem fault?_opening_and_remainder {form : Form} (ok : form.whole.fault? = none) :
    form.opening.fault? = none ∧ form.remainder.fault? = none := by
  rw [whole, Draft.fault?_append] at ok
  exact Option.or_eq_none_iff.mp ok

end Form

/-- Once a string is opened, the rest of it is one text that the string, the level and the unit
settle, and so is whether it can be written: what stands on the page has no say in it, and a quoted
string has no rest. So if a string can be written at all, any text may be written between its opening
and its rest, and leaves both as they are. -/
theorem run_remainder_after_any_text (form : Form) (level : Nat) (unit : String) :
    ∃ (added : String) (verdict : Option RenderError),
      (∀ content : String,
        let outcome := form.remainder.run { content := content, level := level, unit := unit }
        outcome.page.content = content ++ added ∧ outcome.fault? = verdict) ∧
      (form.heredoc? = none → added = "" ∧ verdict = none) ∧
      ∀ content : String,
        let page : Page := { content := content, level := level, unit := unit }
        let opened := form.opening.run page
        (form.whole.run page).fault? = none →
          ∃ opening : String,
            opened.fault? = none ∧ opened.page.content = content ++ opening ∧
              (form.whole.run page).page.content = content ++ opening ++ added ∧
              ∀ between : String,
                let outcome := form.remainder.run (opened.page.write between)
                outcome.fault? = none ∧
                  outcome.page.content = content ++ opening ++ between ++ added := by
  obtain ⟨added, adds⟩ := form.exists_added_remainder level unit
  refine ⟨added, form.remainder.fault?, ?_, ?_, ?_⟩
  · intro content outcome
    exact ⟨adds _ rfl rfl, Draft.fault?_run _ _⟩
  · intro inline
    cases form with
    | heredoc doc => cases inline
    | quoted parts =>
        have nothing := adds { content := "", level := level, unit := unit } rfl rfl
        rw [String.empty_append] at nothing
        exact ⟨nothing.symm, rfl⟩
  · intro content page opened succeeds
    -- The opening leaves the level and the unit, and the remainder looks at nothing else.
    have grown : opened.page.Extends page := form.opening.extends_run page
    obtain ⟨opening, wrote⟩ := grown.content
    obtain ⟨okOpening, okRemainder⟩ :=
      Form.fault?_opening_and_remainder ((Draft.fault?_run _ page).symm.trans succeeds)
    refine ⟨opening, ?_, wrote, ?_, fun between => ⟨?_, ?_⟩⟩
    · exact (Draft.fault?_run _ page).trans okOpening
    · rw [Form.whole, Draft.page_run_append_of_ok okOpening, adds _ grown.level grown.unit, wrote]
    · exact (Draft.fault?_run _ _).trans okRemainder
    · have level' : (opened.page.write between).level = level := grown.level
      rw [adds _ level' grown.unit, Page.write, wrote]

/-- The line of a call is ended before the lines of the heredoc in it. -/
theorem run_remainder_after_closed_call :
    let parts := Part.ofNodes [.begin [.name .lvar "x"], .str "\n"]
    let page : Page := { content := "f(", level := 1, unit := "  " }
    ∃ doc : Heredoc, doc.parts = parts ∧
      let form := Form.heredoc doc
      (form.whole.run page).fault? = none ∧
        (form.whole.run page).page.content = "f(<<-HEREDOC\n#\x7bx\x7d\n  HEREDOC" ∧
        (form.remainder.run ((form.opening.run page).page.write ")\n")).page.content =
          "f(<<-HEREDOC)\n\n#\x7bx\x7d\n  HEREDOC" := by
  intro parts page
  let doc : Heredoc := { parts := parts, eligible := by cbv }
  have ok : doc.parts.findSome? Part.fault? = none := by decide
  have flush : ∀ part ∈ doc.parts, part.StaysFlush :=
    staysFlush_ofNodes fun node _ => (staysFlush_code_and_ofNode node).2
  have succeeds : ((Form.heredoc doc).whole.run page).fault? = none := by
    rw [Draft.fault?_run, Form.fault?_whole]
    exact ok
  have midLine : page.atLineStart = false := by cbv
  have header : ((Form.heredoc doc).opening.run page).page = page.write "<<-HEREDOC" := by
    have opened : page.append doc.style.opener = page.write (page.lead ++ "<<-HEREDOC") :=
      page.append_eq_write _
    rw [Page.lead_of_midLine midLine, String.empty_append] at opened
    exact opened
  have text : doc.body.text = "\n#\x7bx\x7d\n" := by decide
  have together : ((Form.heredoc doc).whole.run page).page.content =
      "f(<<-HEREDOC" ++ "\n#\x7bx\x7d\n  HEREDOC" := by
    have opened : page.append doc.style.opener = page.write "<<-HEREDOC" := header
    rw [doc.page_run_whole ok, opened, doc.page_run_body_of_plain rfl flush, text]
    decide
  obtain ⟨added, _, _, _, deferred⟩ := run_remainder_after_any_text (.heredoc doc) 1 "  "
  obtain ⟨opening, _, opened, whole, later⟩ := deferred "f(" succeeds
  have start : "f(" ++ opening = "f(<<-HEREDOC" :=
    opened.symm.trans (congrArg Page.content header)
  have rest : added = "\n#\x7bx\x7d\n  HEREDOC" := by
    rw [start] at whole
    exact (String.append_right_inj _).mp (whole.symm.trans together)
  refine ⟨doc, rfl, succeeds, together, ?_⟩
  rw [(later ")\n").2, start, rest]
  decide

end StringForms.Source
