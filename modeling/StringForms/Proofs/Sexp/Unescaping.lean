/-
Module: StringForms.Proofs.Sexp.Unescaping
Purpose: The inside of a quoted atom is read exactly if it is a row of units, and is refused at the first
  backslash at which there is no unit.
Main exports: Quoted.Codes, Quoted.Units, Quoted.parted, Quoted.decode_eq_ok_iff,
  Quoted.decode_eq_error_iff, unescape_iff_units
-/
import StringForms.Proofs.Except
import StringForms.Proofs.Sexp.EscapeUnits

namespace StringForms.Sexp

open Text

namespace Quoted

/-! ### Units and rows of them -/

/-- `Codes unit character rest`: the unit stands for the character before the rest. -/
inductive Codes : List Char → Char → List Char → Prop where
  | plain {character : Char} {rest : List Char} (other : character ≠ '\\') :
      Codes [character] character rest
  | escape {piece rest : List Char} {character : Char} (governs : Governs piece character rest) :
      Codes ('\\' :: piece) character rest

/-- `Units body text rest`: before the rest, the body is a row of units, one for each character of the
text. -/
inductive Units : List Char → List Char → List Char → Prop where
  | nil {rest : List Char} : Units [] [] rest
  | cons {unit body text rest : List Char} {character : Char}
      (first : Codes unit character (body ++ rest)) (later : Units body text rest) :
      Units (unit ++ body) (character :: text) rest

/-- A text is a row of units to its end, or up to a backslash with a broken piece behind it. -/
def Parted (body : List Char) : Prop :=
  (∃ text, Units body text []) ∨
    ∃ before text piece after, body = before ++ '\\' :: (piece ++ after) ∧
      Units before text ('\\' :: (piece ++ after)) ∧ Broken piece after

/-- One more unit in front of a parted text leaves it parted. -/
theorem Parted.cons {unit rest : List Char} {character : Char} (first : Codes unit character rest)
    (later : Parted rest) : Parted (unit ++ rest) := by
  rcases later with ⟨text, units⟩ | ⟨before, text, piece, after, rfl, units, broken⟩
  · rw [← List.append_nil rest] at first
    exact .inl ⟨_, .cons first units⟩
  · exact .inr ⟨_, _, piece, after, (List.append_assoc _ _ _).symm, .cons first units, broken⟩

/-- Every text is made of units up to its end, or up to the first backslash that is broken. -/
theorem parted (body : List Char) : Parted body := by
  match body with
  | [] => exact .inl ⟨[], .nil⟩
  | first :: later =>
      by_cases backslash : first = '\\'
      · rw [backslash]
        rcases governs_or_broken later with
          ⟨piece, character, rest, split, governs⟩ | ⟨piece, after, rfl, broken⟩
        · -- Taken before the text is written as two parts, where the rest is still seen as shorter.
          have shorter := parted rest
          rw [split]
          exact .cons (.escape governs) shorter
        · exact .inr ⟨[], [], piece, after, rfl, .nil, broken⟩
      · exact .cons (.plain backslash) (parted later)
termination_by body.length
decreasing_by all_goals simp [*]; try omega

/-! ### What reading answers -/

/-- A unit is decoded to its character, and decoding goes on behind it. -/
theorem Codes.decode_eq {unit rest : List Char} {character : Char}
    (codes : Codes unit character rest) (offset : Nat) :
    decode offset (unit ++ rest) = (character :: ·) <$> decode (offset + byteSize unit) rest := by
  cases codes with
  | plain other =>
      rw [List.singleton_append, decode, if_neg other]
      rfl
  | @escape piece _ _ governs =>
      have bytes : offset + 1 + byteSize piece = offset + byteSize ('\\' :: piece) := by
        have backslash : '\\'.utf8Size = 1 := rfl
        rw [byteSize, backslash, Nat.add_assoc]
      rw [List.cons_append, decode, if_pos rfl, governs.escape_eq]
      simp only [List.take_left, List.drop_left, bytes]
      rfl

theorem Units.decode_eq {body text rest : List Char} (units : Units body text rest) (offset : Nat) :
    decode offset (body ++ rest) = (text ++ ·) <$> decode (offset + byteSize body) rest := by
  induction units generalizing offset with
  | @nil rest =>
      simp only [List.nil_append, byteSize, Nat.add_zero]
      cases decode offset rest <;> rfl
  | @cons unit body text rest character first later ih =>
      rw [List.append_assoc, first.decode_eq, ih, byteSize_append, Nat.add_assoc]
      cases decode (offset + (byteSize unit + byteSize body)) rest <;> rfl

/-- A backslash with a broken piece is reported where it stands. -/
theorem Broken.decode_eq {piece after : List Char} (broken : Broken piece after) (offset : Nat) :
    decode offset ('\\' :: (piece ++ after)) =
      .error (.invalidEscape (String.ofList ('\\' :: piece)) offset) := by
  rw [decode, if_pos rfl, broken.escape_eq]
  simp only [takeBytes_append]

/-- What is broken is no unit, however it is cut. -/
theorem Broken.not_codes {piece after unit rest : List Char} {character : Char}
    (broken : Broken piece after) (split : '\\' :: (piece ++ after) = unit ++ rest) :
    ¬ Codes unit character rest := by
  intro codes
  cases codes with
  | plain other => exact other (List.cons.inj split).1.symm
  | @escape other _ _ governs =>
      have behind : piece ++ after = other ++ rest := (List.cons.inj split).2
      have answered := broken.escape_eq
      rw [behind, governs.escape_eq] at answered
      cases answered

/-- A text is decoded exactly if it is all units. -/
theorem decode_eq_ok_iff {offset : Nat} {body text : List Char} :
    decode offset body = .ok text ↔ Units body text [] := by
  have accepts {text : List Char} (units : Units body text []) : decode offset body = .ok text := by
    have decoded := units.decode_eq offset
    rw [List.append_nil, decode] at decoded
    simpa using decoded
  refine ⟨fun decoded => ?_, accepts⟩
  rcases parted body with ⟨other, units⟩ | ⟨before, other, piece, after, rfl, units, broken⟩
  · rw [accepts units] at decoded
    cases decoded
    exact units
  · rw [units.decode_eq, broken.decode_eq] at decoded
    cases decoded

/-- A text is refused exactly if it has a broken backslash behind nothing but units. The error has
what is broken and the byte of the backslash. -/
theorem decode_eq_error_iff {offset : Nat} {body : List Char} {problem : ReadError} :
    decode offset body = .error problem ↔
      ∃ before text piece after, body = before ++ '\\' :: (piece ++ after) ∧
        Units before text ('\\' :: (piece ++ after)) ∧ Broken piece after ∧
        problem = .invalidEscape (String.ofList ('\\' :: piece)) (offset + byteSize before) := by
  constructor
  · intro decoded
    rcases parted body with ⟨text, units⟩ | ⟨before, text, piece, after, rfl, units, broken⟩
    · rw [decode_eq_ok_iff.mpr units] at decoded
      cases decoded
    · rw [units.decode_eq, broken.decode_eq] at decoded
      cases decoded
      exact ⟨before, text, piece, after, rfl, units, broken, rfl⟩
  · rintro ⟨before, text, piece, after, rfl, units, broken, rfl⟩
    rw [units.decode_eq, broken.decode_eq]
    rfl

end Quoted

open Quoted

/-- The inside of a quoted atom is read exactly if it is a row of units, and as the characters that they
stand for. What is no row of units is refused at the first backslash at which no unit can be taken:
before it there are units only, its place is counted in bytes, and with it stands the piece that is
broken. -/
theorem unescape_iff_units :
    (∀ (body : String) (offset : Nat) (text : String),
      unescape body offset = .ok text ↔ Units body.toList text.toList []) ∧
    (∀ (body : String) (offset : Nat) (problem : ReadError),
      unescape body offset = .error problem ↔
        ∃ before text piece after, body.toList = before ++ '\\' :: (piece ++ after) ∧
          Units before text ('\\' :: (piece ++ after)) ∧
          (∀ unit character rest, '\\' :: (piece ++ after) = unit ++ rest →
            ¬ Codes unit character rest) ∧
          Broken piece after ∧
          problem = .invalidEscape (String.ofList ('\\' :: piece)) (offset + byteSize before)) := by
  constructor
  · intro body offset text
    rw [← decode_eq_ok_iff, unescape, Except.map_eq_ok_iff]
    constructor
    · rintro ⟨characters, decoded, rfl⟩
      rw [decoded, String.toList_ofList]
    · intro decoded
      exact ⟨_, decoded, String.ofList_toList⟩
  · intro body offset problem
    rw [unescape, Except.map_eq_error_iff, decode_eq_error_iff]
    constructor
    · rintro ⟨before, text, piece, after, split, units, broken, same⟩
      exact ⟨before, text, piece, after, split, units, fun _ _ _ => broken.not_codes, broken, same⟩
    · rintro ⟨before, text, piece, after, split, units, _, broken, same⟩
      exact ⟨before, text, piece, after, split, units, broken, same⟩

end StringForms.Sexp
