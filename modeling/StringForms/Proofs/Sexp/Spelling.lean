/-
Module: StringForms.Proofs.Sexp.Spelling
Purpose: Ways to spell a text between quotes that are read back as that text and keep the quotes
  closed.
Main exports: Spells, Spells.append, spells_encode, Spells.unescape_eq, Spells.quotedLength?_eq
-/
import StringForms.Proofs.Sexp.Unescaping
import StringForms.Sexp.Lexeme
import StringForms.Sexp.Printer

namespace StringForms.Sexp

open Text Quoted

/-!
Two scanners go over the inside of a quoted atom: one looks for the closing quote, the other decodes
the escapes. A spelling is good if both pass over it as over one block, whatever stands behind it.
Good spellings can be put in a row, so it is enough to look at those of single characters.
-/

/-- `body` spells `text`, whatever follows it inside the quotes. -/
structure Spells (body text : List Char) : Prop where
  decodes : ∀ (offset : Nat) (rest : List Char),
    decode offset (body ++ rest) = (text ++ ·) <$> decode (offset + byteSize body) rest
  passes : ∀ rest : List Char,
    quotedLength? (body ++ rest) = (· + body.length) <$> quotedLength? rest

namespace Spells

theorem nil : Spells [] [] where
  decodes offset rest := by
    simp only [List.nil_append, byteSize, Nat.add_zero]
    cases decode offset rest <;> rfl
  passes rest := by
    simp only [List.nil_append, List.length_nil, Nat.add_zero]
    cases quotedLength? rest <;> rfl

theorem append {body body' text text' : List Char} (first : Spells body text)
    (second : Spells body' text') : Spells (body ++ body') (text ++ text') where
  decodes offset rest := by
    rw [List.append_assoc, first.decodes, second.decodes, byteSize_append, Nat.add_assoc]
    cases decode (offset + (byteSize body + byteSize body')) rest with
    | error problem => rfl
    | ok later => simp
  passes rest := by
    rw [List.append_assoc, first.passes, second.passes]
    cases quotedLength? rest with
    | none => rfl
    | some length => simp [Nat.add_comm, Nat.add_left_comm]

theorem flatMap {Unit : Type} {body text : Unit → List Char} (units : List Unit)
    (each : ∀ unit ∈ units, Spells (body unit) (text unit)) :
    Spells (units.flatMap body) (units.flatMap text) := by
  induction units with
  | nil => exact nil
  | cons unit rest ih =>
      have first := each unit (by simp)
      have later := ih fun unit found => each unit (by simp [found])
      simpa using first.append later

/-- What a body spells is what it decodes to, at any place of an input. -/
theorem unescape_eq {body text : List Char} (spells : Spells body text) (offset : Nat) :
    unescape (String.ofList body) offset = .ok (String.ofList text) := by
  have decoded := spells.decodes offset []
  rw [List.append_nil, decode] at decoded
  rw [unescape, String.toList_ofList, decoded]
  simp

/-- The closing quote after a body is found. -/
theorem quotedLength?_eq {body text : List Char} (spells : Spells body text) (rest : List Char) :
    quotedLength? (body ++ '"' :: rest) = some (body.length + 1) := by
  rw [spells.passes, quotedLength?]
  simp [Nat.add_comm]

/-! ### Units -/

/-- Any character but a quote and a backslash spells itself. -/
theorem plain {character : Char} (notQuote : character ≠ '"') (notBackslash : character ≠ '\\') :
    Spells [character] [character] where
  decodes offset _ := (Codes.plain notBackslash).decode_eq offset
  passes rest := by
    rw [List.singleton_append, quotedLength?]
    · rfl
    · exact notQuote
    · exact fun backslash _ => notBackslash backslash
    · exact fun _ backslash _ => notBackslash backslash
    · exact fun _ _ backslash _ => notBackslash backslash

theorem plainRun {run : List Char}
    (inside : ∀ character ∈ run, character ≠ '"' ∧ character ≠ '\\') : Spells run run := by
  induction run with
  | nil => exact nil
  | cons character rest ih =>
      obtain ⟨notQuote, notBackslash⟩ := inside character (by simp)
      have later := ih fun character found => inside character (by simp [found])
      exact (plain notQuote notBackslash).append later

theorem ofDigits {digits : List Char} (inside : ∀ digit ∈ digits, Hex.isDigit digit = true) :
    Spells digits digits := by
  apply plainRun
  intro character found
  have digit := inside character found
  exact ⟨ne_of_belongs digit rfl, ne_of_belongs digit rfl⟩

/-- A backslash and what it governs, whatever follows, are one unit if the scanner for the closing quote
takes them as one. -/
theorem escaped {piece : List Char} {character : Char}
    (governs : ∀ rest, Governs piece character rest)
    (passes : ∀ rest, quotedLength? ('\\' :: (piece ++ rest)) =
      (· + (piece.length + 1)) <$> quotedLength? rest) :
    Spells ('\\' :: piece) [character] where
  decodes offset rest := (Codes.escape (governs rest)).decode_eq offset
  passes rest := passes rest

/-- A letter of the table spells its character behind a backslash. -/
theorem simple {letter character : Char} (known : simpleEscape? letter = some character) :
    Spells ['\\', letter] [character] := by
  refine escaped (fun _ => .letter (simpleEscape?_eq_some_iff.mp known)) fun rest => ?_
  unfold simpleEscape? at known
  split at known <;> cases known <;> rfl

/-- One line of a table of escapes: a special character by its letter, any other one elsewhere. -/
theorem named {letter special character : Char} {otherwise : List Char}
    (known : simpleEscape? letter = some special)
    (other : character ≠ special → Spells otherwise [character]) :
    Spells (if character = special then ['\\', letter] else otherwise) [character] := by
  by_cases same : character = special
  · rw [if_pos same, same]
    exact simple known
  · rw [if_neg same]
    exact other same

/-- What stands after a backslash and a `u` is passed over like plain characters. -/
theorem passes_unicode {run : List Char} (spelled : Spells run run) (rest : List Char) :
    quotedLength? ('\\' :: ('u' :: run ++ rest)) =
      (· + (('u' :: run).length + 1)) <$> quotedLength? rest := by
  have two : quotedLength? ('\\' :: 'u' :: (run ++ rest)) =
      (· + 2) <$> quotedLength? (run ++ rest) := rfl
  rw [List.cons_append, two, spelled.passes]
  cases quotedLength? rest with
  | none => rfl
  | some length => simp [Nat.add_assoc]

/-- The digits of a code point in braces spell its character. -/
theorem braced {digits : List Char} {character : Char}
    (inside : ∀ digit ∈ digits, Hex.isDigit digit = true) (some : digits ≠ [])
    (short : digits.length ≤ 6) (spelled : Hex.value digits = character.toNat) :
    Spells ('\\' :: 'u' :: '{' :: (digits ++ ['}'])) [character] := by
  refine escaped (fun _ => .braced inside some short spelled) (passes_unicode ?_)
  have opening : Spells ['{'] ['{'] := plain (by decide) (by decide)
  have closing : Spells ['}'] ['}'] := plain (by decide) (by decide)
  exact opening.append ((ofDigits inside).append closing)

/-- Four digits of a code point spell its character, also before further digits. -/
theorem fourDigits {digits : List Char} {character : Char}
    (inside : ∀ digit ∈ digits, Hex.isDigit digit = true) (four : digits.length = 4)
    (spelled : Hex.value digits = character.toNat) :
    Spells ('\\' :: 'u' :: digits) [character] :=
  escaped (fun _ => .four inside four spelled) (passes_unicode (ofDigits inside))

end Spells

/-! ### What the printer writes -/

/-- Control characters have code points of at most two hexadecimal digits. -/
theorem toNat_lt_of_isControl {character : Char} (control : isControl character = true) :
    character.toNat < 0xA0 := by
  simp only [isControl, Bool.or_eq_true, Bool.and_eq_true, decide_eq_true_eq] at control
  omega

/-- Every character is spelled as it is encoded: by itself, by a letter or by its code point. -/
theorem spells_encodeChar (character : Char) : Spells (encodeChar character) [character] := by
  unfold encodeChar
  refine .named rfl fun notQuote => .named rfl fun notBackslash => .named rfl fun _ =>
    .named rfl fun _ => .named rfl fun _ => .named rfl fun _ => ?_
  by_cases control : isControl character = true
  · have small := toNat_lt_of_isControl control
    have short : (Hex.upperDigits character.toNat).length ≤ 6 :=
      Hex.length_upperDigits_le (by decide) (by omega)
    rw [if_pos control]
    simpa using Spells.braced (fun _ => Hex.isDigit_of_mem_upperDigits)
      (Hex.upperDigits_ne_nil _) short (Hex.value_upperDigits _)
  · rw [if_neg control]
    exact .plain notQuote notBackslash

/-- What the printer writes between quotes spells the text. -/
theorem spells_encode (text : List Char) : Spells (encode text) text := by
  have each := Spells.flatMap text fun character _ => spells_encodeChar character
  simpa [encode] using each

end StringForms.Sexp
