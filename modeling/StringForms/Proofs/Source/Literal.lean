/-
Module: StringForms.Proofs.Source.Literal
Purpose: What is written between the quotes of a source literal is a spelling that the reader of the
  written form decodes to the text of the literal.
Main exports: Literal.spells_quotedChar, Literal.spells_quoted, Literal.Written,
  Literal.written_quotedChar, Literal.Unescaped, Literal.any_head?_quotedChar
-/
import StringForms.Proofs.Sexp.Spelling
import StringForms.Source.Literal

namespace StringForms.Source.Literal

open Text Sexp

/-!
The two sides escape differently: source text names more characters by a letter, writes other
control characters with four digits and not in braces, and escapes a `#` depending on what follows.
-/

/-- The digits of a control character fill exactly four places. -/
theorem spells_control {character : Char} (control : isControl character = true) :
    Spells ('\\' :: 'u' :: (Hex.upperDigits character.toNat).leftpad 4 '0') [character] := by
  have small := toNat_lt_of_isControl control
  have short : (Hex.upperDigits character.toNat).length ≤ 4 :=
    Hex.length_upperDigits_le (by decide) (by omega)
  have inside : ∀ digit ∈ (Hex.upperDigits character.toNat).leftpad 4 '0',
      Hex.isDigit digit = true :=
    fun _ => Hex.isDigit_of_mem_leftpad fun _ => Hex.isDigit_of_mem_upperDigits
  apply Spells.fourDigits inside
  · rw [List.length_leftpad]
    exact Nat.max_eq_left short
  · rw [Hex.value_leftpad, Hex.value_upperDigits]

/-- A hash is spelled with a backslash and without. -/
theorem spells_hash (next : Option Char) :
    Spells (if next.any startsInterpolation then ['\\', '#'] else ['#']) ['#'] := by
  by_cases starts : next.any startsInterpolation = true
  · rw [if_pos starts]
    exact .simple rfl
  · rw [if_neg starts]
    exact .plain (by decide) (by decide)

/-- Each character is read back whatever follows it. -/
theorem spells_quotedChar (character : Char) (next : Option Char) :
    Spells (quotedChar character next) [character] := by
  unfold quotedChar
  refine .named rfl fun notQuote => .named rfl fun notBackslash => ?_
  by_cases hash : character = '#'
  · rw [if_pos hash, hash]
    exact spells_hash next
  rw [if_neg hash]
  refine .named rfl fun _ => .named rfl fun _ => .named rfl fun _ => .named rfl fun _ =>
    .named rfl fun _ => .named rfl fun _ => .named rfl fun _ => .named rfl fun _ => ?_
  by_cases control : isControl character = true
  · rw [if_pos control]
    exact spells_control control
  · rw [if_neg control]
    exact .plain notQuote notBackslash

/-- A literal is read back as its text. -/
theorem spells_quoted (text : List Char) : Spells (quoted text) text := by
  induction text with
  | nil => exact .nil
  | cons character rest ih => exact (spells_quotedChar character rest.head?).append ih

/-! ### The shapes of escapes -/

/-- The ways in which a character is written between quotes. -/
inductive Written (character : Char) : List Char → Prop where
  | escape (letter : Char) : Written character ['\\', letter]
  | hash (same : character = '#') : Written character ['#']
  | control : Written character ('\\' :: 'u' :: (Hex.upperDigits character.toNat).leftpad 4 '0')
  | plain (notQuote : character ≠ '"') (notBackslash : character ≠ '\\')
      (notHash : character ≠ '#') : Written character [character]

/-- One line of the table of escapes. -/
theorem Written.named {character letter special : Char} {otherwise : List Char}
    (other : character ≠ special → Written character otherwise) :
    Written character (if character = special then ['\\', letter] else otherwise) := by
  by_cases same : character = special
  · rw [if_pos same]
    exact .escape letter
  · rw [if_neg same]
    exact other same

/-- Every character between quotes is written in one of the ways that there are. -/
theorem written_quotedChar (character : Char) (next : Option Char) :
    Written character (quotedChar character next) := by
  unfold quotedChar
  refine .named fun notQuote => .named fun notBackslash => ?_
  by_cases hash : character = '#'
  · rw [if_pos hash]
    split
    · exact .escape '#'
    · exact .hash hash
  rw [if_neg hash]
  refine .named fun _ => .named fun _ => .named fun _ => .named fun _ => .named fun _ =>
    .named fun _ => .named fun _ => .named fun _ => ?_
  split
  · exact .control
  · exact .plain notQuote notBackslash hash

/-! ### The first character of an escape -/

/-- A class of characters that are written between quotes as they are. -/
structure Unescaped (belongs : Char → Bool) : Prop where
  quote : belongs '"' = false
  backslash : belongs '\\' = false
  hash : belongs '#' = false
  control : ∀ character, isControl character = true → belongs character = false

/-- A character of a class that is not escaped is written as it is. -/
theorem Unescaped.quotedChar_eq {belongs : Char → Bool} (unescaped : Unescaped belongs)
    {character : Char} (inside : belongs character = true) (next : Option Char) :
    quotedChar character next = [character] := by
  have differs : ∀ {special}, isControl special = true → character ≠ special :=
    fun control => ne_of_belongs inside (unescaped.control _ control)
  have noControl : ¬ isControl character = true :=
    fun control => differs control rfl
  simp only [quotedChar, ne_of_belongs inside unescaped.quote,
    ne_of_belongs inside unescaped.backslash, ne_of_belongs inside unescaped.hash,
    differs (by decide : isControl '\n' = true), differs (by decide : isControl '\t' = true),
    differs (by decide : isControl '\r' = true), differs (by decide : isControl '\x0c' = true),
    differs (by decide : isControl '\x0b' = true), differs (by decide : isControl '\x08' = true),
    differs (by decide : isControl '\x07' = true), differs (by decide : isControl '\x1b' = true),
    noControl, Bool.false_eq_true, if_false]

/-- What is written of a character starts with one of the class exactly if the character is one. -/
theorem Unescaped.any_head?_quotedChar {belongs : Char → Bool} (unescaped : Unescaped belongs)
    (character : Char) (next : Option Char) (rest : List Char) :
    (quotedChar character next ++ rest).head?.any belongs = belongs character := by
  cases inside : belongs character with
  | true =>
      rw [unescaped.quotedChar_eq inside]
      exact inside
  | false =>
      generalize written : quotedChar character next = body
      cases written ▸ written_quotedChar character next with
      | escape letter => exact unescaped.backslash
      | hash same => exact unescaped.hash
      | control => exact unescaped.backslash
      | plain => exact inside

/-- So does what is written of a text, and of what follows it if the text is empty. -/
theorem Unescaped.any_head?_quoted {belongs : Char → Bool} (unescaped : Unescaped belongs)
    (text rest : List Char) :
    (quoted text ++ rest).head?.any belongs = (text ++ rest).head?.any belongs := by
  cases text with
  | nil => rfl
  | cons character later =>
      rw [quoted, List.append_assoc, unescaped.any_head?_quotedChar]
      rfl

end StringForms.Source.Literal
