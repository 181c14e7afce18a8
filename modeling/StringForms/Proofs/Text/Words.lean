/-
Module: StringForms.Proofs.Text.Words
Purpose: How the character classes of words, digits, blanks and controls lie to each other.
Main exports: toNat_of_isWordPart, isWordPart_of_isWordStart, isDigit_eq_false_of_isWordStart,
  isWhiteSpace_eq_false_of_isWordPart
-/
import Mathlib
import StringForms.Text.CharClass

namespace StringForms.Text

variable {character : Char}

/-- The characters of a word are printable ASCII, above all blanks. -/
theorem toNat_of_isWordPart (part : isWordPart character = true) :
    0x30 ≤ character.toNat ∧ character.toNat < 0x7F := by
  simp only [isWordPart, Char.isAlphanum, Char.isAlpha, Char.isUpper, Char.isLower, Char.isDigit,
    Bool.or_eq_true, Bool.and_eq_true, decide_eq_true_eq, beq_iff_eq, UInt32.le_iff_toNat_le,
    Char.toNat] at part ⊢
  rcases part with part | rfl
  · grind
  · decide

theorem isWordPart_of_isWordStart (start : isWordStart character = true) :
    isWordPart character = true := by
  rw [isWordStart, Bool.or_eq_true] at start
  rw [isWordPart, Char.isAlphanum, Bool.or_eq_true, Bool.or_eq_true]
  exact start.imp_left .inl

theorem isWordPart_of_isDigit (digit : character.isDigit = true) : isWordPart character = true := by
  simp [isWordPart, Char.isAlphanum, digit]

theorem isDigit_eq_false_of_isWordStart (start : isWordStart character = true) :
    character.isDigit = false := by
  simp only [isWordStart, Bool.or_eq_true, beq_iff_eq] at start
  rcases start with alpha | rfl
  · simp only [Char.isAlpha, Char.isUpper, Char.isLower, Bool.or_eq_true, Bool.and_eq_true,
      decide_eq_true_eq, Char.isDigit] at alpha ⊢
    grind
  · decide

theorem isWordPart_eq_false_of_isControl (control : isControl character = true) :
    isWordPart character = false := by
  rw [← Bool.not_eq_true]
  intro part
  have bounds := toNat_of_isWordPart part
  simp only [isControl, Bool.or_eq_true, Bool.and_eq_true, decide_eq_true_eq] at control
  omega

/-- No part of a word is white space, in ASCII or beyond. -/
theorem isWhiteSpace_eq_false_of_isWordPart (part : isWordPart character = true) :
    isWhiteSpace character = false := by
  have bounds := toNat_of_isWordPart part
  rw [isWhiteSpace, List.any_eq_false]
  simp only [whiteSpaceRanges, List.forall_mem_cons, Bool.and_eq_true, decide_eq_true_eq]
  simp only [List.not_mem_nil, false_implies, implies_true, and_true]
  omega

end StringForms.Text
