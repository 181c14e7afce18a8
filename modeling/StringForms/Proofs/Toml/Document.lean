/-
Module: StringForms.Proofs.Toml.Document
Purpose: The document of one integer under a bare key: reading it gives that integer under that key.
Main exports: integer?_digits, item?_digits, pair?_integer, document?_integer
-/
import StringForms.Proofs.Text.Decimal
import StringForms.Proofs.Text.Runs
import StringForms.Toml.Document

namespace StringForms.Toml

open StringForms.Text

theorem skipBlanks_of_stops {text : List Char} (stops : Stops isBlank text) :
    skipBlanks text = text := by
  cases text with
  | nil => rfl
  | cons first rest =>
      have solid : isBlank first = false := stops first rfl
      rw [skipBlanks, List.dropWhile_cons_of_neg (by simp [solid])]

theorem stops_digits (number : Nat) (rest : List Char) :
    Stops isBlank (Decimal.digits number ++ rest) := by
  intro first leads
  obtain ⟨digit, more, split, inside⟩ := Decimal.exists_digits_cons number
  obtain rfl : digit = first := by simpa [split] using leads
  simp [isBlank, ne_of_belongs inside (rfl : ' '.isDigit = false),
    ne_of_belongs inside (rfl : '\t'.isDigit = false)]

/-! ### Integers -/

theorem groupedFrom_of_isDigit {isDigit : Char → Bool} {digits : List Char} {afterDigit : Bool}
    (inside : ∀ digit ∈ digits, isDigit digit = true) (ends : afterDigit = true ∨ digits ≠ []) :
    groupedFrom isDigit afterDigit digits = some digits := by
  induction digits generalizing afterDigit with
  | nil =>
      have after : afterDigit = true := ends.resolve_right (absurd rfl)
      rw [groupedFrom, if_pos after]
  | cons digit digits ih =>
      rw [List.forall_mem_cons] at inside
      rw [groupedFrom, if_pos inside.1, ih inside.2 (.inl rfl)]
      rfl

theorem plainDigits?_digits (number : Nat) :
    plainDigits? (Decimal.digits number) = some (Decimal.digits number) := by
  have grouped : grouped? Char.isDigit (Decimal.digits number) = some (Decimal.digits number) :=
    groupedFrom_of_isDigit (fun _ => Decimal.isDigit_of_mem_digits) (.inr Nat.toDigits_ne_nil)
  rw [plainDigits?, grouped]
  split
  · rename_i second rest leads
    exact absurd (Decimal.eq_nil_of_digits_eq (Option.some.inj leads)) (List.cons_ne_nil _ _)
  · rfl

theorem integerValue?_digits (number : Nat) :
    integerValue? (Decimal.digits number) = some (Int.ofNat number) := by
  unfold integerValue?
  split
  case h_6 => simp [plainDigits?_digits]
  -- The other forms show a letter or a sign, which is no digit.
  all_goals
    rename_i leads
    have foreign {mark : Char} : mark.isDigit = false → mark ∉ Decimal.digits number :=
      Decimal.notMem_digits
    rw [leads] at foreign
  case h_1 => exact absurd (by simp) (foreign (rfl : 'x'.isDigit = false))
  case h_2 => exact absurd (by simp) (foreign (rfl : 'o'.isDigit = false))
  case h_3 => exact absurd (by simp) (foreign (rfl : 'b'.isDigit = false))
  case h_4 => exact absurd (by simp) (foreign (rfl : '+'.isDigit = false))
  case h_5 => exact absurd (by simp) (foreign (rfl : '-'.isDigit = false))

/-- A number of up to 128 bits is read back from its digits. -/
theorem integer?_digits {number : Nat} (small : number < Nat.pow 2 128) :
    integer? (Decimal.digits number) = some (Int.ofNat number) := by
  have above : -Int.ofNat (Nat.pow 2 127) ≤ Int.ofNat number :=
    Int.le_trans (Int.neg_nonpos_of_nonneg (Int.natCast_nonneg _)) (Int.natCast_nonneg _)
  have below : Int.ofNat number < Int.ofNat (Nat.pow 2 128) := Int.ofNat_lt.mpr small
  rw [integer?, integerValue?_digits]
  exact if_pos ⟨above, below⟩

/-! ### Values -/

/-- A number ends where its line does. -/
theorem wordLength_digits (number : Nat) (rest : List Char) :
    wordLength (Decimal.digits number ++ '\n' :: rest) = (Decimal.digits number).length := by
  have inside : ∀ digit ∈ Decimal.digits number, isWordChar digit = true := by
    intro digit found
    simp [isWordChar, Char.isAlphanum, Decimal.isDigit_of_mem_digits found]
  have stops : Stops isWordChar ('\n' :: rest) := by simp [Stops, isWordChar]
  have word : (Decimal.digits number ++ '\n' :: rest).takeWhile isWordChar = Decimal.digits number :=
    takeWhile_append_of_stops inside stops
  unfold wordLength
  simp only [word, List.drop_left]
  split
  · rename_i space
    cases space
  · rfl

/-- A number within the limit is read as an integer, not as a date or a float. -/
theorem wordValue?_digits {number : Nat} (small : number < Nat.pow 2 128) :
    wordValue? (Decimal.digits number) = some (.integer (Int.ofNat number)) := by
  have noWord {word : List Char} (letter : 'e' ∈ word) : Decimal.digits number ≠ word := by
    rintro rfl
    exact Decimal.notMem_digits rfl letter
  rw [wordValue?, if_neg (noWord (by decide)), if_neg (noWord (by decide)), integer?_digits small]

/-- What begins with no bracket is read as a scalar. -/
theorem itemWithin_eq_scalar? {first : Char} {depth : Nat} (noList : first ≠ '[')
    (noTable : first ≠ '{') (rest : List Char) :
    itemWithin depth (first :: rest) = scalar? (first :: rest) := by
  unfold itemWithin
  split
  case h_2 _ _ bracket => exact absurd (List.cons.inj bracket).1 noList
  case h_3 _ _ brace => exact absurd (List.cons.inj brace).1 noTable
  all_goals rfl

/-- A number of up to 128 bits at the end of a line is read as an integer. -/
theorem item?_digits {number : Nat} (small : number < Nat.pow 2 128) (rest : List Char) :
    item? (Decimal.digits number ++ '\n' :: rest) =
      some (.scalar (.integer (Int.ofNat number)), '\n' :: rest) := by
  obtain ⟨first, more, split, digit⟩ := Decimal.exists_digits_cons number
  have differs {mark : Char} (outside : mark.isDigit = false) : first ≠ mark :=
    ne_of_belongs digit outside
  have word : scalar? (Decimal.digits number ++ '\n' :: rest) =
      some (.scalar (.integer (Int.ofNat number)), '\n' :: rest) := by
    unfold scalar?
    split
    · rename_i quote
      rw [split] at quote
      exact absurd (List.cons.inj quote).1 (differs rfl)
    · rename_i quote
      rw [split] at quote
      exact absurd (List.cons.inj quote).1 (differs rfl)
    · simp only [wordLength_digits, List.take_left, List.drop_left, wordValue?_digits small]
      rfl
  rw [split, List.cons_append] at word ⊢
  rw [item?, itemWithin_eq_scalar? (differs rfl) (differs rfl), word]

/-! ### Keys -/

variable {name rest : List Char}

/-- A bare key is read as far as it goes. -/
theorem key?_of_bare (filled : name ≠ []) (bare : ∀ character ∈ name, isKeyPart character = true)
    (stops : Stops isKeyPart rest) : key? (name ++ rest) = some (String.ofList name, rest) := by
  obtain ⟨first, more, rfl⟩ := List.exists_cons_of_ne_nil filled
  have differs {mark : Char} (outside : isKeyPart mark = false) : first ≠ mark :=
    ne_of_belongs (bare first List.mem_cons_self) outside
  unfold key?
  split
  · rename_i quote
    exact absurd (List.cons.inj quote).1 (differs rfl)
  · rename_i quote
    exact absurd (List.cons.inj quote).1 (differs rfl)
  · simp only [takeWhile_append_of_stops bare stops, List.drop_left]
    rfl

/-- A bare key that stands before an equals sign is a path of one key. -/
theorem keyPath?_of_bare (filled : name ≠ [])
    (bare : ∀ character ∈ name, isKeyPart character = true) :
    keyPath? (name ++ ' ' :: '=' :: rest) =
      some ({ parents := [], last := String.ofList name }, '=' :: rest) := by
  have stops : Stops isKeyPart (' ' :: '=' :: rest) := by simp [Stops, isKeyPart]
  rw [keyPath?, keyPathWithin, key?_of_bare filled bare stops]
  rfl

/-- A bare key and a number with the signs and spaces between them are read as a pair. -/
theorem pair?_integer {number : Nat} (filled : name ≠ [])
    (bare : ∀ character ∈ name, isKeyPart character = true) (small : number < Nat.pow 2 128)
    (rest : List Char) :
    pair? (some ∘ skipBlanks) item?
        (name ++ ' ' :: '=' :: ' ' :: (Decimal.digits number ++ '\n' :: rest)) =
      some (({ parents := [], last := String.ofList name }, .scalar (.integer (Int.ofNat number))),
        '\n' :: rest) := by
  have word : item? (skipBlanks (' ' :: (Decimal.digits number ++ '\n' :: rest))) =
      some (.scalar (.integer (Int.ofNat number)), '\n' :: rest) := by
    rw [skipBlanks, List.dropWhile_cons_of_pos rfl, ← skipBlanks,
      skipBlanks_of_stops (stops_digits number _), item?_digits small]
  rw [pair?, keyPath?_of_bare filled bare]
  simp only [Option.bind_eq_bind, Option.bind_some, Function.comp_apply]
  rw [skipBlanks_of_stops (by simp [Stops, isBlank])]
  simp only [word, Option.bind_some]

/-! ### Documents -/

/-- A line that begins with a bare key is a pair. -/
theorem statement?_of_bare {first : Char} (part : isKeyPart first = true) :
    statement? (first :: rest) =
      (fun read => (some (.pair read.1.1 read.1.2), read.2)) <$>
        pair? (some ∘ skipBlanks) item? (first :: rest) := by
  have differs {mark : Char} (outside : isKeyPart mark = false) : first ≠ mark :=
    ne_of_belongs part outside
  have noBlank : Stops isBlank (first :: rest) := by
    simp [Stops, isBlank, differs (rfl : isKeyPart ' ' = false),
      differs (rfl : isKeyPart '\t' = false)]
  have noLine : newline? (first :: rest) = none := by
    unfold newline?
    split
    case h_1 _ feed => exact absurd (List.cons.inj feed).1 (differs rfl)
    case h_2 _ feed => exact absurd (List.cons.inj feed).1 (differs rfl)
    case h_3 => rfl
  unfold statement?
  rw [skipBlanks_of_stops noBlank]
  split
  case h_1 _ bracket => exact absurd (List.cons.inj bracket).1 (differs rfl)
  case h_2 _ bracket => exact absurd (List.cons.inj bracket).1 (differs rfl)
  case h_3 empty => cases empty
  case h_4 _ _ whole =>
    obtain ⟨rfl, rfl⟩ := List.cons.inj whole
    simp [noLine, differs (rfl : isKeyPart '#' = false)]

/-- A text of one line says what that line says. -/
theorem statements?_of_line {input : List Char} {statement : Statement} (filled : input ≠ [])
    (read : statement? input = some (some statement, ['\n'])) :
    statements? input = some [statement] := by
  obtain ⟨first, more, rfl⟩ := List.exists_cons_of_ne_nil filled
  rw [statements?, List.length_cons, statementsWithin, if_neg (by simp), read]
  rfl

/-- A document of one pair, whose key is bare, describes the table that holds that pair. -/
theorem document?_of_pair {document name : String} {first : Char} {item : Item}
    (spelled : document.toList = first :: rest) (part : isKeyPart first = true)
    (read : pair? (some ∘ skipBlanks) item? (first :: rest) =
      some (({ parents := [], last := name }, item), ['\n'])) :
    document? document = some [(name, item)] := by
  have noMark : dropByteOrderMark (first :: rest) = first :: rest := by
    unfold dropByteOrderMark
    split
    · rename_i mark
      exact absurd (List.cons.inj mark).1 (ne_of_belongs part rfl)
    · rfl
  have line : statement? (first :: rest) =
      some (some (.pair { parents := [], last := name } item), ['\n']) := by
    rw [statement?_of_bare part, read]
    rfl
  rw [document?, spelled, noMark, statements?_of_line (List.cons_ne_nil _ _) line]
  rfl

/-- The document that gives one bare key a number. -/
theorem document?_integer {name : String} {number : Nat} (filled : name ≠ "")
    (bare : ∀ character ∈ name.toList, isKeyPart character = true) (small : number < Nat.pow 2 128) :
    document? (name ++ " = " ++ String.ofList (Decimal.digits number) ++ "\n") =
      some [(name, .scalar (.integer (Int.ofNat number)))] := by
  have filledList : name.toList ≠ [] := by simpa using filled
  have pair := pair?_integer filledList bare small []
  obtain ⟨first, more, split⟩ := List.exists_cons_of_ne_nil filledList
  rw [String.ofList_toList, split] at pair
  refine document?_of_pair ?_ (bare first (by simp [split])) pair
  simp [split]

end StringForms.Toml
