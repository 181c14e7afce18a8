/-
Module: StringForms.Proofs.Sexp.Escapes
Purpose: What is reported of the inside of a quoted atom that cannot be decoded: a piece that stands
  there, and where.
Main exports: Quoted.Broken.byteSize_eq, exists_of_unescape_error
-/
import StringForms.Proofs.Sexp.Unescaping

namespace StringForms.Sexp

open Text Quoted

/-!
The end of a broken escape is counted and not searched for: one for the backslash, the bytes of the
letter behind it, and then one for each character. That is right only because nothing but digits and
braces is counted behind the letter.
-/

namespace Quoted

/-- A broken piece is a letter with characters of one byte behind it, or the text ends with its
backslash. -/
theorem Broken.byteSize_eq {piece after : List Char} (broken : Broken piece after) :
    piece = [] ∧ after = [] ∨ ∃ letter narrow, piece = letter :: narrow ∧
      byteSize piece = letter.utf8Size + narrow.length := by
  have behind {narrow : List Char} (letter : Char) (narrowOnly : byteSize narrow = narrow.length) :
      byteSize (letter :: narrow) = letter.utf8Size + narrow.length := by
    rw [byteSize, narrowOnly]
  have brace : '{'.utf8Size = 1 := rfl
  cases broken with
  | ended => exact .inl ⟨rfl, rfl⟩
  | @unlisted letter => exact .inr ⟨letter, [], rfl, behind letter rfl⟩
  | noDigit => exact .inr ⟨'x', [], rfl, behind 'x' rfl⟩
  | tooFew run => exact .inr ⟨'u', _, rfl, behind 'u' (Hex.byteSize_of_isDigit run.inside)⟩
  | uncoded inside => exact .inr ⟨'u', _, rfl, behind 'u' (Hex.byteSize_of_isDigit inside)⟩
  | unclosed run =>
      refine .inr ⟨'u', _, rfl, behind 'u' ?_⟩
      rw [byteSize, Hex.byteSize_of_isDigit run.inside, brace, List.length_cons, Nat.add_comm]
  | uncodedBraced inside =>
      have closing : byteSize ['}'] = 1 := rfl
      refine .inr ⟨'u', _, rfl, behind 'u' ?_⟩
      rw [byteSize, byteSize_append, Hex.byteSize_of_isDigit inside, brace, closing, List.length_cons,
        List.length_append, List.length_singleton, Nat.add_comm]

end Quoted

/-- Reading fails at a backslash with a broken escape behind it, and reports these. -/
theorem exists_of_unescape_error {body : String} {offset : Nat} {problem : ReadError}
    (failed : unescape body offset = .error problem) :
    ∃ before piece after, body.toList = before ++ '\\' :: (piece ++ after) ∧
      Broken piece after ∧
      problem = .invalidEscape (String.ofList ('\\' :: piece)) (offset + byteSize before) := by
  obtain ⟨before, _, piece, after, split, _, broken, same⟩ :=
    decode_eq_error_iff.mp (Except.map_eq_error_iff.mp failed)
  exact ⟨before, piece, after, split, broken, same⟩

end StringForms.Sexp
