/-
Module: StringForms.Proofs.Text.Hex
Purpose: Hexadecimal digits that are written and read back, also among other characters.
Main exports: Hex.value_upperDigits, Hex.run_append, Hex.exists_run_append, Hex.value_leftpad,
  Hex.value_lt, Hex.byteSize_of_isDigit, scalar?_toNat, scalar?_eq_none
-/
import Mathlib
import StringForms.Proofs.Text.Runs
import StringForms.Text.Bytes
import StringForms.Text.Hex

namespace StringForms.Text

namespace Hex

theorem digitValue?_toUpper_digitChar {digit : Nat} (small : digit < 16) :
    digitValue? (Nat.digitChar digit).toUpper = some digit := by
  have all : ∀ digit : Fin 16, digitValue? (Nat.digitChar digit).toUpper = some digit.val := by
    decide
  exact all ⟨digit, small⟩

/-- More digits shift the value of those before them. -/
theorem value_append (first second : List Char) :
    value (first ++ second) =
      second.foldl (fun total digit => 16 * total + (digitValue? digit).getD 0) (value first) := by
  simp [value]

/-- Reading the digits of a number gives the number. -/
@[simp] theorem value_upperDigits (number : Nat) : value (upperDigits number) = number := by
  induction number using Nat.base_induction 16 (by decide) with
  | single digit small =>
      simp [upperDigits, Nat.toDigits_of_lt_base small, value, digitValue?_toUpper_digitChar small]
  | digit number digit small positive ih =>
      have split : upperDigits (16 * number + digit) =
          upperDigits number ++ [(Nat.digitChar digit).toUpper] := by
        simp [upperDigits, ← Nat.toDigits_append_toDigits (by decide) positive small,
          Nat.toDigits_of_lt_base small]
      rw [split, value_append, ih]
      simp [digitValue?_toUpper_digitChar small]

theorem isDigit_of_mem_upperDigits {number : Nat} {character : Char}
    (found : character ∈ upperDigits number) : isDigit character = true := by
  induction number using Nat.base_induction 16 (by decide) with
  | single digit small =>
      have only : character = (Nat.digitChar digit).toUpper := by
        simpa [upperDigits, Nat.toDigits_of_lt_base small] using found
      rw [only, isDigit, digitValue?_toUpper_digitChar small]
      rfl
  | digit number digit small positive ih =>
      rw [upperDigits, ← Nat.toDigits_append_toDigits (by decide) positive small,
        Nat.toDigits_of_lt_base small, List.map_append, List.mem_append] at found
      rcases found with found | found
      · exact ih found
      · have only : character = (Nat.digitChar digit).toUpper := by simpa using found
        rw [only, isDigit, digitValue?_toUpper_digitChar small]
        rfl

theorem upperDigits_ne_nil (number : Nat) : upperDigits number ≠ [] := by
  simp [upperDigits]

/-- A number below a power of sixteen has no more digits than the power says. -/
theorem length_upperDigits_le {number limit : Nat} (some : 0 < limit) (small : number < 16 ^ limit) :
    (upperDigits number).length ≤ limit := by
  rw [upperDigits, List.length_map]
  exact (Nat.length_toDigits_le_iff (by decide) some).mpr small

theorem digitValue?_lt (character : Char) : (digitValue? character).getD 0 < 16 := by
  unfold digitValue?
  split
  next decimal =>
    simp only [Char.isDigit, Bool.and_eq_true, decide_eq_true_eq] at decimal
    have atMost : character.toNat ≤ '9'.toNat := decimal.2
    have distance : '9'.toNat - '0'.toNat = 9 := rfl
    simp only [Option.getD_some]
    omega
  split
  next lower =>
    have atMost : character.toNat ≤ 'f'.toNat := lower.2
    have distance : 'f'.toNat - 'a'.toNat = 5 := rfl
    simp only [Option.getD_some]
    omega
  split
  next upper =>
    have atMost : character.toNat ≤ 'F'.toNat := upper.2
    have distance : 'F'.toNat - 'A'.toNat = 5 := rfl
    simp only [Option.getD_some]
    omega
  next => decide

/-- A row of digits stays below the power of sixteen that its length gives. -/
theorem value_lt (digits : List Char) : value digits < 16 ^ digits.length := by
  induction digits using List.reverseRecOn with
  | nil => decide
  | append_singleton digits digit ih =>
      have small := digitValue?_lt digit
      rw [value_append, List.length_append]
      simp only [List.foldl_cons, List.foldl_nil, List.length_singleton, Nat.pow_succ]
      omega

/-- Zeros in front of digits do not change the number. -/
@[simp] theorem value_leftpad (width : Nat) (digits : List Char) :
    value (digits.leftpad width '0') = value digits := by
  have zeros (count : Nat) : value (List.replicate count '0') = 0 := by
    induction count with
    | zero => rfl
    | succ count ih =>
        rw [List.replicate_succ', value_append, ih]
        decide
  rw [List.leftpad, value_append, zeros]
  rfl

theorem isDigit_of_mem_leftpad {width : Nat} {digits : List Char} {character : Char}
    (inside : ∀ digit ∈ digits, isDigit digit = true)
    (found : character ∈ digits.leftpad width '0') : isDigit character = true := by
  rw [List.leftpad, List.mem_append] at found
  rcases found with found | found
  · rw [List.eq_of_mem_replicate found]
    decide
  · exact inside character found

/-- A run of digits is taken whole if it is not too long and cannot go on. -/
theorem run_append {limit : Nat} {digits rest : List Char}
    (inside : ∀ digit ∈ digits, isDigit digit = true)
    (ends : digits.length = limit ∨ digits.length ≤ limit ∧ Stops isDigit rest) :
    run limit (digits ++ rest) = digits := by
  rcases ends with full | ⟨short, stops⟩
  · rw [run, List.take_left' full]
    simpa using @List.takeWhile_append_of_pos _ isDigit digits [] inside
  · have stopsEarlier : Stops isDigit (rest.take (limit - digits.length)) := by
      intro character found
      apply stops character
      cases rest with
      | nil => simp at found
      | cons next later =>
          cases room : limit - digits.length with
          | zero => simp [room] at found
          | succ more => simpa [room] using found
    rw [run, List.take_append, List.take_of_length_le short]
    exact takeWhile_append_of_stops inside stopsEarlier

/-- The run at the start of a text ends at the limit or where no digit stands. -/
theorem exists_run_append (limit : Nat) (text : List Char) :
    ∃ rest, text = run limit text ++ rest ∧ (∀ digit ∈ run limit text, isDigit digit = true) ∧
      ((run limit text).length = limit ∨
        (run limit text).length ≤ limit ∧ Stops isDigit rest) := by
  induction limit generalizing text with
  | zero => exact ⟨text, rfl, by simp [run], .inl rfl⟩
  | succ limit ih =>
      cases text with
      | nil => exact ⟨[], rfl, by simp [run], .inr ⟨Nat.zero_le _, by simp [Stops]⟩⟩
      | cons first later =>
          cases digit : isDigit first with
          | false =>
              have nothing : run (limit + 1) (first :: later) = [] := by simp [run, digit]
              rw [nothing]
              exact ⟨_, rfl, by simp, .inr ⟨Nat.zero_le _, by simp [Stops, digit]⟩⟩
          | true =>
              have taken : run (limit + 1) (first :: later) = first :: run limit later := by
                simp [run, digit]
              obtain ⟨rest, split, inside, ends⟩ := ih later
              rw [taken]
              refine ⟨rest, congrArg (first :: ·) split, ?_, ?_⟩
              · exact List.forall_mem_cons.mpr ⟨digit, inside⟩
              · simpa using ends

/-! ### Bytes of digits -/

/-- A digit takes one byte. -/
theorem utf8Size_of_isDigit {digit : Char} (inside : isDigit digit = true) :
    digit.utf8Size = 1 := by
  have within : digit.isDigit = true ∨ ('a' ≤ digit ∧ digit ≤ 'f') ∨
      ('A' ≤ digit ∧ digit ≤ 'F') := by
    unfold isDigit digitValue? at inside
    grind
  rw [Char.utf8Size_eq_one_iff]
  simp only [Char.isDigit, Bool.and_eq_true, decide_eq_true_eq, Char.le_def,
    UInt32.le_iff_toNat_le] at within ⊢
  rcases within with ⟨_, small⟩ | ⟨_, small⟩ | ⟨_, small⟩
  · exact Nat.le_trans small (by decide)
  · exact Nat.le_trans small (by decide)
  · exact Nat.le_trans small (by decide)

/-- So digits take as many bytes as there are digits. -/
theorem byteSize_of_isDigit {digits : List Char}
    (inside : ∀ digit ∈ digits, isDigit digit = true) : byteSize digits = digits.length := by
  induction digits with
  | nil => rfl
  | cons digit rest ih =>
      obtain ⟨insideDigit, insideRest⟩ := List.forall_mem_cons.mp inside
      rw [byteSize, utf8Size_of_isDigit insideDigit, ih insideRest, List.length_cons, Nat.add_comm]

end Hex

/-- The code point of a character names that character. -/
@[simp] theorem scalar?_toNat (character : Char) : scalar? character.toNat = some character := by
  have valid : character.toNat.isValidChar := character.valid
  rw [scalar?, if_pos valid, Char.ofNat_toNat]

/-- A number that is no character's code point names none. -/
theorem scalar?_eq_none {codePoint : Nat} (uncoded : ∀ character : Char, codePoint ≠ character.toNat) :
    scalar? codePoint = none := by
  refine if_neg fun valid => uncoded (Char.ofNat codePoint) ?_
  rw [Char.toNat_ofNat, if_pos valid]

/-- Below the surrogates every code point is the one of a character. -/
theorem exists_toNat_eq {codePoint : Nat} (small : codePoint < 0xD800) :
    ∃ character : Char, codePoint = character.toNat := by
  have valid : codePoint.isValidChar := .inl small
  exact ⟨Char.ofNat codePoint, by rw [Char.toNat_ofNat, if_pos valid]⟩

end StringForms.Text
