/-
Module: StringForms.Proofs.Text.Decimal
Purpose: The decimal digits of a number: that they are digits, and that they start with a zero only
  where they end with it.
Main exports: Decimal.isDigit_of_mem_digits, Decimal.exists_digits_cons, Decimal.notMem_digits,
  Decimal.eq_nil_of_digits_eq
-/
import StringForms.Text.Decimal

namespace StringForms.Text.Decimal

variable {number : Nat} {character : Char}

theorem isDigit_of_mem_digits (found : character ∈ digits number) : character.isDigit = true :=
  Nat.isDigit_of_mem_toDigits (by decide) (by decide) found

/-- Every number has a first digit. -/
theorem exists_digits_cons (number : Nat) :
    ∃ first more, digits number = first :: more ∧ first.isDigit = true := by
  obtain ⟨first, more, split⟩ : ∃ first more, digits number = first :: more :=
    List.exists_cons_of_ne_nil Nat.toDigits_ne_nil
  have found : first ∈ digits number := by simp [split]
  exact ⟨first, more, split, isDigit_of_mem_digits found⟩

theorem notMem_digits (outside : character.isDigit = false) : character ∉ digits number := by
  intro found
  rw [isDigit_of_mem_digits found] at outside
  cases outside

/-- The digits of ten times a number and a digit are those of the number, and the digit. -/
theorem digits_append {digit : Nat} (positive : 0 < number) (small : digit < 10) :
    digits (10 * number + digit) = digits number ++ [Nat.digitChar digit] := by
  rw [digits, ← Nat.toDigits_append_toDigits (by decide) positive small,
    Nat.toDigits_of_lt_base small, digits]

/-- No digit follows a leading zero. -/
theorem eq_nil_of_digits_eq {rest : List Char} (leads : digits number = '0' :: rest) : rest = [] := by
  induction number using Nat.base_induction 10 (by decide) generalizing rest with
  | single digit small =>
      rw [digits, Nat.toDigits_of_lt_base small] at leads
      exact (List.cons.inj leads).2.symm
  | digit number digit small positive ih =>
      -- The digits before the last would be a zero alone, and there would be no number.
      rw [digits_append positive small] at leads
      obtain ⟨first, earlier, split, -⟩ := exists_digits_cons number
      rw [split, List.cons_append, List.cons.injEq] at leads
      obtain ⟨rfl, rfl⟩ := leads
      have alone : digits number = ['0'] := by rw [split, ih split]
      have none : number = 0 := by rw [← value_digits number, alone]; rfl
      exact absurd none (Nat.ne_of_gt positive)

end StringForms.Text.Decimal
