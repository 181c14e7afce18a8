/-
Module: StringForms.Proofs.Source.HeredocText
Purpose: How a reader of a heredoc takes literal text as it is escaped there.
Main exports: insideSpot, openings_escapedHash, openings_heredocChar, openings_heredoc
-/
import StringForms.Proofs.Source.Backslashes
import StringForms.Proofs.Source.Scanner

namespace StringForms.Source

/-!
In a heredoc each `#` of a text is escaped and a backslash is left alone. Where a backslash at the end
of an odd run stands before a `#`, it takes along the one that was meant for the `#`.
-/

/-- The spot of a reader inside, behind a backslash that waits or behind none. -/
def insideSpot (pending : Bool) : Spot :=
  if pending then .escaped else .inside

theorem inert_lines {character : Char} (notBackslash : character ≠ '\\') (notHash : character ≠ '#') :
    Scanner.lines.Inert character :=
  ⟨notBackslash, notHash, by simp [Scanner.lines]⟩

/-- A reader passes a character other than a `#` and then waits for a partner of it or not. -/
theorem openings_pass {character : Char} (notHash : character ≠ '#') (pending : Bool) (place : Nat)
    (rest : List Char) :
    Scanner.lines.openings (insideSpot pending) place (character :: rest) =
      Scanner.lines.openings (insideSpot (pendingAfterMark pending (some character))) (place + 1)
        rest := by
  cases pending with
  | true =>
      have alone : pendingAfterMark true (some character) = false := Bool.and_false _
      rw [alone]
      exact Scanner.openings_escaped place character rest
  | false =>
      by_cases backslash : character = '\\'
      · subst backslash
        rfl
      · have alone : pendingAfterMark false (some character) = false := by
          simp [pendingAfterMark, backslash]
        rw [alone]
        exact Scanner.openings_inert (inert_lines backslash notHash) place rest

/-- A hash opens something or nothing by what stands behind it, and takes no backslash with it. -/
theorem openings_hash_in_lines (place : Nat) (rest : List Char) :
    Scanner.lines.openings .inside place ('#' :: rest) =
      (if Scanner.lines.Opens rest then [place] else []) ++
        Scanner.lines.openings .inside (place + 1) rest :=
  Scanner.openings_hash (by simp [Scanner.lines]) place rest

/-- An escaped `#` opens nothing unless a backslash before it takes its own along. -/
theorem openings_escapedHash (pending : Bool) (place : Nat) (rest : List Char) :
    Scanner.lines.openings (insideSpot pending) place ('\\' :: '#' :: rest) =
      (if pending && Scanner.lines.Opens rest then [place + 1] else []) ++
        Scanner.lines.openings .inside (place + 2) rest := by
  cases pending with
  | true =>
      rw [Bool.true_and, ← openings_hash_in_lines]
      exact Scanner.openings_escaped place '\\' ('#' :: rest)
  | false => exact Scanner.openings_escape place '#' rest

/-- In a heredoc only a brace behind a hash opens an interpolation here. -/
theorem opens_lines_iff (rest : List Char) :
    Scanner.lines.Opens rest = true ↔ rest.head? = some '{' := by
  cases rest with
  | nil => simp [Scanner.Opens]
  | cons character later => simp [Scanner.Opens, Scanner.lines]

/-- A character and what follows it are read as they are meant if what follows is, and if the
character is no `#` that a backslash before it sets free. -/
theorem openings_heredocChar {character : Char} {rest : List Char} {row : List (Option Char)}
    {offsets : List Nat} {pending : Bool} {place : Nat}
    (later : ∀ found ∈ offsets, place + (Literal.heredocChar character).length ≤ found)
    (brace : character = '#' → (rest.head? = some '{' ↔ row.head? = some (some '{')))
    (means : Scanner.lines.openings (insideSpot (pendingAfterMark pending (some character)))
        (place + (Literal.heredocChar character).length) rest = offsets ↔
      PairedFrom (pendingAfterMark pending (some character)) row) :
    Scanner.lines.openings (insideSpot pending) place (Literal.heredocChar character ++ rest) =
        offsets ↔
      PairedFrom pending (some character :: row) := by
  rw [PairedFrom]
  by_cases hash : character = '#'
  · subst hash
    have written : Literal.heredocChar '#' = ['\\', '#'] := rfl
    have alone : pendingAfterMark pending (some '#') = false := rfl
    rw [written] at later means ⊢
    rw [alone] at means ⊢
    rw [List.cons_append, List.singleton_append, openings_escapedHash]
    -- With a backslash pending, the one that escapes the hash is escaped itself.
    by_cases leaks : (pending && Scanner.lines.Opens rest) = true
    · rw [if_pos leaks]
      rw [Bool.and_eq_true, opens_lines_iff] at leaks
      constructor
      · intro same
        have bound := later (place + 1) (by simp [← same])
        exact absurd bound (by simp)
      · intro paired
        exact absurd ⟨leaks.1, rfl, (brace rfl).mp leaks.2⟩ paired.1
    · have free : ¬ (pending = true ∧ '#' = '#' ∧ row.head? = some (some '{')) := by
        rintro ⟨waits, _, braced⟩
        rw [Bool.and_eq_true, opens_lines_iff] at leaks
        exact leaks ⟨waits, (brace rfl).mpr braced⟩
      rw [if_neg leaks, List.nil_append, and_iff_right free]
      exact means
  · have written : Literal.heredocChar character = [character] := if_neg hash
    have free : ¬ (pending = true ∧ character = '#' ∧ row.head? = some (some '{')) :=
      fun found => hash found.2.1
    rw [written] at means ⊢
    rw [List.singleton_append, openings_pass hash, and_iff_right free]
    exact means

theorem heredoc_cons (character : Char) (later : List Char) :
    Literal.heredoc (character :: later) =
      Literal.heredocChar character ++ Literal.heredoc later :=
  List.flatMap_cons

/-- The escapes of a heredoc leave the last character of a text. -/
theorem getLast?_heredoc (text : List Char) : (Literal.heredoc text).getLast? = text.getLast? := by
  induction text using List.reverseRecOn with
  | nil => rfl
  | append_singleton text last _ =>
      have ends : (Literal.heredocChar last).getLast? = some last := by
        by_cases hash : last = '#'
        · subst hash
          rfl
        · rw [Literal.heredocChar, if_neg hash]
          rfl
      rw [Literal.heredoc, List.flatMap_append, List.flatMap_singleton, List.getLast?_append, ends,
        List.getLast?_concat]
      rfl

/-- What is written of a text starts with a brace exactly if the text does. -/
theorem head?_heredoc_append {text rest : List Char} {row : List (Option Char)}
    (tail : text = [] → (rest.head? = some '{' ↔ row.head? = some (some '{'))) :
    (Literal.heredoc text ++ rest).head? = some '{' ↔
      (text.map some ++ row).head? = some (some '{') := by
  cases text with
  | nil => exact tail rfl
  | cons character later =>
      by_cases hash : character = '#'
      · subst hash
        simp [heredoc_cons, Literal.heredocChar]
      · simp [heredoc_cons, Literal.heredocChar, hash]

/-- A text and what follows it are read as they are meant if what follows is and the backslashes in
the text are paired. -/
theorem openings_heredoc {text rest : List Char} {row : List (Option Char)} {offsets : List Nat}
    {pending : Bool} {place : Nat}
    (later : ∀ found ∈ offsets, place + (Literal.heredoc text).length ≤ found)
    (brace : text.getLast? = some '#' → (rest.head? = some '{' ↔ row.head? = some (some '{')))
    (means : Scanner.lines.openings (insideSpot (pendingAfter pending (text.map some)))
        (place + (Literal.heredoc text).length) rest = offsets ↔
      PairedFrom (pendingAfter pending (text.map some)) row) :
    Scanner.lines.openings (insideSpot pending) place (Literal.heredoc text ++ rest) = offsets ↔
      PairedFrom pending (text.map some ++ row) := by
  induction text generalizing pending place with
  | nil => exact means
  | cons character others ih =>
      rw [heredoc_cons, List.length_append, ← Nat.add_assoc] at means later
      rw [heredoc_cons, List.append_assoc, List.map_cons, List.cons_append]
      apply openings_heredocChar
      · exact fun found member => Nat.le_trans (Nat.le_add_right _ _) (later found member)
      · rintro rfl
        apply head?_heredoc_append
        rintro rfl
        exact brace rfl
      · apply ih later _ means
        intro last
        apply brace
        cases others with
        | nil => cases last
        | cons next more => exact last

end StringForms.Source
