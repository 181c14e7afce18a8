/-
Module: StringForms.Proofs.Page.Extends
Purpose: Carrying out a draft adds to a page and changes nothing else about it.
Main exports: Page.Extends, Page.Extends.scope, Draft.extends_run, Page.Extends.content_eq
-/
import StringForms.Proofs.Page.Fragment

namespace StringForms

namespace Page

/-- `later` is `page` with more text on it: at the same level, in the same unit, and with all that
was there before still at its start. -/
structure Extends (later page : Page) : Prop where
  level : later.level = page.level
  unit : later.unit = page.unit
  content : ∃ added, later.content = page.content ++ added

/-- The text since an earlier page is what was added to it. -/
theorem textSince_of_content_eq {page later : Page} {added : String}
    (wrote : later.content = page.content ++ added) : later.textSince page = added := by
  have count : page.content.length = page.content.toList.length := String.length_toList.symm
  rw [textSince, wrote, String.toList_append, count, List.drop_left, String.ofList_toList]

namespace Extends

theorem refl (page : Page) : page.Extends page where
  level := rfl
  unit := rfl
  content := ⟨"", String.append_empty.symm⟩

theorem trans {first second third : Page} (later : third.Extends second)
    (earlier : second.Extends first) : third.Extends first where
  level := later.level.trans earlier.level
  unit := later.unit.trans earlier.unit
  content := by
    obtain ⟨front, wroteFront⟩ := earlier.content
    obtain ⟨back, wroteBack⟩ := later.content
    exact ⟨front ++ back, by rw [wroteBack, wroteFront, String.append_assoc]⟩

theorem write (page : Page) (fragment : String) : (page.write fragment).Extends page where
  level := rfl
  unit := rfl
  content := ⟨fragment, rfl⟩

/-- A fragment adds its indentation and itself, and leaves the level and the unit. -/
theorem append (page : Page) (fragment : String) : (page.append fragment).Extends page := by
  rw [append_eq_write]
  exact write page (page.lead ++ fragment)

/-- A scope hides its own level: whatever it was, the one before the scope is back behind it. -/
theorem scope {page inner : Page} {level : Nat} (inside : inner.Extends (page.atLevel level)) :
    (inner.atLevel page.level).Extends page where
  level := rfl
  unit := inside.unit
  content := inside.content

/-- The text that a page has more is the text since the earlier state of it. -/
theorem content_eq {page later : Page} (grown : later.Extends page) :
    later.content = page.content ++ later.textSince page := by
  obtain ⟨added, wrote⟩ := grown.content
  rw [textSince_of_content_eq wrote]
  exact wrote

end Extends

end Page

/-- Drafts only ever add to a page, also where they halt: at each fault the scopes around it end, and
the levels that they stood at with them. -/
theorem Draft.extends_run {Fault Note : Type} (draft : Draft Fault Note) (page : Page) :
    (draft.run page).page.Extends page := by
  induction draft generalizing page with
  | append fragment => exact .append page fragment
  | write fragment => exact .write page fragment
  | newline => exact .write page "\n"
  | indented inner ih => exact (ih (page.atLevel (page.level + 1))).scope
  | atRoot inner ih => exact (ih (page.atLevel 0)).scope
  | andThen first second ihFirst ihSecond =>
      have unfolded : first.andThen second = first ++ second := rfl
      rw [unfolded]
      cases verdict : first.fault? with
      | some fault =>
          rw [page_run_append_of_halts verdict]
          exact ihFirst page
      | none =>
          rw [page_run_append_of_ok verdict]
          exact (ihSecond (first.run page).page).trans (ihFirst page)
  | _ => exact .refl page

end StringForms
