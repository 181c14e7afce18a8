/-
Module: StringForms.Proofs.Page.Alike
Purpose: What a draft adds to a page depends on the level, the unit and whether a line starts there,
  and on nothing else that stands on the page.
Main exports: Page.Alike, Draft.alike_run, Draft.grownAlike_newline
-/
import StringForms.Proofs.Page.Extends

namespace StringForms

namespace Page

/-- Two pages at the same level and in the same unit, both at the start of a line or neither. -/
structure Alike (page other : Page) : Prop where
  level : page.level = other.level
  unit : page.unit = other.unit
  start : page.atLineStart = other.atLineStart

namespace Alike

variable {page other : Page}

theorem atLevel (alike : page.Alike other) (level : Nat) :
    (page.atLevel level).Alike (other.atLevel level) where
  level := rfl
  unit := alike.unit
  start := alike.start

/-- Alike pages indent the next fragment in the same way. -/
theorem lead_eq (alike : page.Alike other) : page.lead = other.lead := by
  rw [lead, lead, indentation, indentation, alike.level, alike.unit, alike.start]

/-- The same fragment leaves them alike: it ends a line on both, or it does on neither, or it is
empty. -/
theorem write (alike : page.Alike other) (fragment : String) :
    (page.write fragment).Alike (other.write fragment) where
  level := alike.level
  unit := alike.unit
  start := by
    have before := alike.start
    rw [Bool.eq_iff_iff, atLineStart_iff, atLineStart_iff] at before ⊢
    simp only [Page.write, String.toList_append, List.getLast?_append]
    cases fragment.toList.getLast? with
    | none => exact before
    | some last => exact Iff.rfl

theorem append (alike : page.Alike other) (fragment : String) :
    (page.append fragment).Alike (other.append fragment) := by
  rw [append_eq_write, append_eq_write, alike.lead_eq]
  exact alike.write _

end Alike

/-- Both pages have grown by the same text and are still alike. -/
def GrownAlike (page other later otherLater : Page) : Prop :=
  later.Alike otherLater ∧
    ∃ added, later.content = page.content ++ added ∧ otherLater.content = other.content ++ added

theorem GrownAlike.refl {page other : Page} (alike : page.Alike other) :
    GrownAlike page other page other :=
  ⟨alike, "", String.append_empty.symm, String.append_empty.symm⟩

/-- Growing alike in two steps is growing alike: the added texts are joined. -/
theorem GrownAlike.trans {page other next otherNext last otherLast : Page}
    (first : GrownAlike page other next otherNext)
    (second : GrownAlike next otherNext last otherLast) : GrownAlike page other last otherLast := by
  obtain ⟨_, front, wroteFront, otherFront⟩ := first
  obtain ⟨alike, back, wroteBack, otherBack⟩ := second
  refine ⟨alike, front ++ back, ?_, ?_⟩
  · rw [wroteBack, wroteFront, String.append_assoc]
  · rw [otherBack, otherFront, String.append_assoc]

/-- A scope ends at the level that it began at, on both pages. -/
theorem GrownAlike.scope {page other inner otherInner : Page} (alike : page.Alike other)
    {level : Nat}
    (inside : GrownAlike (page.atLevel level) (other.atLevel level) inner otherInner) :
    GrownAlike page other (inner.atLevel page.level) (otherInner.atLevel other.level) :=
  ⟨{ level := alike.level, unit := inside.1.unit, start := inside.1.start }, inside.2⟩

end Page

/-- A draft adds the same text to pages that are alike, and leaves them alike. -/
theorem Draft.alike_run {Fault Note : Type} (draft : Draft Fault Note) {page other : Page}
    (alike : page.Alike other) :
    Page.GrownAlike page other (draft.run page).page (draft.run other).page := by
  induction draft generalizing page other with
  | append fragment =>
      refine ⟨alike.append fragment, page.lead ++ fragment, ?_, ?_⟩
      · exact congrArg Page.content (page.append_eq_write fragment)
      · rw [alike.lead_eq]
        exact congrArg Page.content (other.append_eq_write fragment)
  | write fragment => exact ⟨alike.write fragment, fragment, rfl, rfl⟩
  | newline => exact ⟨alike.write "\n", "\n", rfl, rfl⟩
  | indented inner ih =>
      have deeper : other.atLevel (other.level + 1) = other.atLevel (page.level + 1) := by
        rw [alike.level]
      rw [run, run, deeper]
      exact (ih (alike.atLevel (page.level + 1))).scope alike
  | atRoot inner ih => exact (ih (alike.atLevel 0)).scope alike
  | andThen first second ihFirst ihSecond =>
      have unfolded : first.andThen second = first ++ second := rfl
      rw [unfolded]
      cases verdict : first.fault? with
      | some fault =>
          rw [page_run_append_of_halts verdict, page_run_append_of_halts verdict]
          exact ihFirst alike
      | none =>
          have grown := ihFirst alike
          rw [page_run_append_of_ok verdict, page_run_append_of_ok verdict]
          exact grown.trans (ihSecond grown.1)
  | _ => exact .refl alike

/-- Behind a line feed of its own, a draft adds the same text to all pages of one level and unit,
whatever stands on them. -/
theorem Draft.grownAlike_newline {Fault Note : Type} (rest : Draft Fault Note) {page other : Page}
    (level : page.level = other.level) (unit : page.unit = other.unit) :
    Page.GrownAlike page other ((.newline ++ rest).run page).page
      ((.newline ++ rest).run other).page := by
  have alike : page.newline.Alike other.newline :=
    { level := level
      unit := unit
      start := page.atLineStart_newline.trans other.atLineStart_newline.symm }
  have ended : Page.GrownAlike page other page.newline other.newline := ⟨alike, "\n", rfl, rfl⟩
  rw [page_run_append_of_ok (fault?_newline), page_run_append_of_ok (fault?_newline)]
  exact ended.trans (rest.alike_run alike)

end StringForms
