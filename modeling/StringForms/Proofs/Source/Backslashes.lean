/-
Module: StringForms.Proofs.Source.Backslashes
Purpose: Runs of backslashes in the literal text of a string, and whether they leave the splices and
  the braces behind them alone.
Main exports: Part.marks, trailingBackslashes, BackslashesPaired, PairedFrom,
  backslashesPaired_iff_pairedFrom
-/
import Mathlib.Data.List.Induction
import StringForms.Proofs.Source.Hollow

namespace StringForms.Source

/-!
In a heredoc a backslash of the text is written as it is, so it takes along whatever is written
next. Two backslashes in a row take each other along. What a backslash does to a splice or to the
backslash in front of a `#` is therefore a question of how many stand there in a row, whichever
texts they come from.
-/

/-- The characters of a leaf, or `none` for a splice. -/
def Leaf.marks : Leaf → List (Option Char)
  | .text characters => characters.map some
  | .splice => [none]

/-- All text in a row of parts, with a mark where each splice stands. -/
def Part.marks (parts : List Part) : List (Option Char) :=
  (Part.leavesOfAll parts).flatMap Leaf.marks

theorem marks_cons (part : Part) (rest : List Part) :
    Part.marks (part :: rest) = part.leaves.flatMap Leaf.marks ++ Part.marks rest := by
  rw [Part.marks, Part.leavesOfAll, List.flatMap_append, Part.marks]

/-- How many backslashes a row of marks ends with. -/
def trailingBackslashes (row : List (Option Char)) : Nat :=
  (row.reverse.takeWhile (· == some '\\')).length

/-- Backslashes stand in pairs where it matters: before each splice, and before each `#` with an
opening brace behind it. -/
def BackslashesPaired (row : List (Option Char)) : Prop :=
  ∀ before after,
    row = before ++ none :: after ∨ row = before ++ some '#' :: some '{' :: after →
      trailingBackslashes before % 2 = 0

/-! ### Pairing backslashes from left to right -/

/-- Whether a backslash waits for a partner behind a mark, given whether one did before it. -/
def pendingAfterMark (pending : Bool) (mark : Option Char) : Bool :=
  mark == some '\\' && !pending

/-- Whether a backslash waits for a partner at the end of a row. -/
def pendingAfter (pending : Bool) (row : List (Option Char)) : Bool :=
  row.foldl pendingAfterMark pending

/-- Whether a backslash is pending is carried through a row from left to right. -/
theorem pendingAfter_append (pending : Bool) (first second : List (Option Char)) :
    pendingAfter pending (first ++ second) = pendingAfter (pendingAfter pending first) second :=
  List.foldl_append

theorem pendingAfter_concat (pending : Bool) (row : List (Option Char)) (mark : Option Char) :
    pendingAfter pending (row ++ [mark]) = pendingAfterMark (pendingAfter pending row) mark := by
  rw [pendingAfter_append]
  rfl

/-- A backslash is one more at the end of a row, and any other mark leaves none there. -/
theorem trailingBackslashes_concat (row : List (Option Char)) (mark : Option Char) :
    trailingBackslashes (row ++ [mark]) =
      if mark = some '\\' then trailingBackslashes row + 1 else 0 := by
  rw [trailingBackslashes, List.reverse_append, List.reverse_singleton, List.singleton_append,
    List.takeWhile_cons]
  by_cases backslash : mark = some '\\'
  · rw [if_pos backslash, if_pos (by simp [backslash])]
    rfl
  · rw [if_neg backslash, if_neg (by simp [backslash])]
    rfl

/-- A backslash waits exactly behind an odd number of them. -/
theorem pendingAfter_eq_false_iff (row : List (Option Char)) :
    pendingAfter false row = false ↔ trailingBackslashes row % 2 = 0 := by
  induction row using List.reverseRecOn with
  | nil => exact ⟨fun _ => rfl, fun _ => rfl⟩
  | append_singleton row mark ih =>
      rw [pendingAfter_concat, trailingBackslashes_concat]
      by_cases backslash : mark = some '\\'
      · rw [if_pos backslash, pendingAfterMark, backslash]
        cases waits : pendingAfter false row with
        | false =>
            have even := ih.mp waits
            simp
            omega
        | true =>
            have odd : trailingBackslashes row % 2 ≠ 0 := fun even => by simp [ih.mpr even] at waits
            simp
            omega
      · rw [if_neg backslash]
        simp [pendingAfterMark, backslash]

/-- No backslash waits at a splice or at a `#` with an opening brace behind it. -/
def PairedFrom (pending : Bool) : List (Option Char) → Prop
  | [] => True
  | none :: rest => pending = false ∧ PairedFrom false rest
  | some character :: rest =>
      ¬ (pending = true ∧ character = '#' ∧ rest.head? = some (some '{')) ∧
        PairedFrom (pendingAfterMark pending (some character)) rest

instance decidablePairedFrom : ∀ pending row, Decidable (PairedFrom pending row)
  | _, [] => .isTrue trivial
  | pending, none :: rest =>
      have := decidablePairedFrom false rest
      inferInstanceAs (Decidable (pending = false ∧ PairedFrom false rest))
  | pending, some character :: rest =>
      have := decidablePairedFrom (pendingAfterMark pending (some character)) rest
      inferInstanceAs (Decidable
        (¬ (pending = true ∧ character = '#' ∧ rest.head? = some (some '{')) ∧
          PairedFrom (pendingAfterMark pending (some character)) rest))

/-- What a scan from the left finds, said of all the places at which something opens. -/
theorem pairedFrom_iff (pending : Bool) (row : List (Option Char)) :
    PairedFrom pending row ↔
      ∀ before after,
        row = before ++ none :: after ∨ row = before ++ some '#' :: some '{' :: after →
          pendingAfter pending before = false := by
  induction row generalizing pending with
  | nil => simp [PairedFrom]
  | cons mark rest ih =>
      -- A place in the row is its start or lies behind its first mark.
      have shift : (∀ before after,
          rest = before ++ none :: after ∨ rest = before ++ some '#' :: some '{' :: after →
            pendingAfter (pendingAfterMark pending mark) before = false) ↔
          PairedFrom (pendingAfterMark pending mark) rest := (ih _).symm
      constructor
      · intro paired before after found
        cases before with
        | nil =>
            rcases found with found | found
            · cases found
              exact paired.1
            · cases found
              exact Bool.eq_false_iff.mpr fun waits => paired.1 ⟨waits, rfl, rfl⟩
        | cons first more =>
            have later : PairedFrom (pendingAfterMark pending mark) rest := by
              cases mark with
              | none => exact paired.2
              | some character => exact paired.2
            have inside : rest = more ++ none :: after ∨
                rest = more ++ some '#' :: some '{' :: after := by
              rcases found with found | found
              · exact .inl (List.cons.inj found).2
              · exact .inr (List.cons.inj found).2
            have same : mark = first := by
              rcases found with found | found
              · exact (List.cons.inj found).1
              · exact (List.cons.inj found).1
            rw [← same]
            exact shift.mpr later more after inside
      · intro paired
        have later : PairedFrom (pendingAfterMark pending mark) rest := by
          refine shift.mp fun before after found => paired (mark :: before) after ?_
          rcases found with found | found
          · exact .inl (by rw [found]; rfl)
          · exact .inr (by rw [found]; rfl)
        cases mark with
        | none => exact ⟨paired [] rest (.inl rfl), later⟩
        | some character =>
            refine ⟨?_, later⟩
            rintro ⟨waits, rfl, braced⟩
            obtain ⟨behind, rfl⟩ : ∃ behind, rest = some '{' :: behind := by
              cases rest with
              | nil => cases braced
              | cons next behind =>
                  cases braced
                  exact ⟨behind, rfl⟩
            have free : pending = false := paired [] behind (.inr rfl)
            rw [free] at waits
            cases waits

/-- Counting the backslashes before each place comes to the same as scanning from the left. -/
theorem backslashesPaired_iff_pairedFrom (row : List (Option Char)) :
    BackslashesPaired row ↔ PairedFrom false row := by
  rw [pairedFrom_iff, BackslashesPaired]
  simp only [pendingAfter_eq_false_iff]

instance (row : List (Option Char)) : Decidable (BackslashesPaired row) :=
  decidable_of_iff' (PairedFrom false row) (backslashesPaired_iff_pairedFrom row)

end StringForms.Source
