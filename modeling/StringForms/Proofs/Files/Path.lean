/-
Module: StringForms.Proofs.Files.Path
Purpose: Paths of plain names, and that such a path leads from its start through its names.
Main exports: IsPlainName, Path, Path.text, Path.start, Path.place, pathNames_text, startOf_text,
  placeOf_text
-/
import StringForms.Files.Tree

namespace StringForms.Files

/-- A name that leads from a directory to one of its members: it has no slash, and it is neither empty
nor one of the two names of dots, which lead nowhere and back. -/
structure IsPlainName (name : String) : Prop where
  filled : name ≠ ""
  noDot : name ≠ "."
  noDots : name ≠ ".."
  noSlash : '/' ∉ name.toList

theorem isPlainName_iff {name : String} :
    IsPlainName name ↔ name ≠ "" ∧ name ≠ "." ∧ name ≠ ".." ∧ '/' ∉ name.toList := by
  constructor
  · rintro ⟨filled, noDot, noDots, noSlash⟩
    exact ⟨filled, noDot, noDots, noSlash⟩
  · rintro ⟨filled, noDot, noDots, noSlash⟩
    exact ⟨filled, noDot, noDots, noSlash⟩

instance (name : String) : Decidable (IsPlainName name) :=
  decidable_of_iff _ isPlainName_iff.symm

/-- A path of plain names, at least one. It may start with a slash, but does not end in one. -/
structure Path where
  rooted : Bool
  names : List String
  filled : names ≠ []
  plain : ∀ name ∈ names, IsPlainName name

namespace Path

/-- The names with single slashes between them, behind another slash if the path is rooted. -/
def text (path : Path) : String :=
  (if path.rooted then "/" else "") ++ "/".intercalate path.names

/-- A rooted path starts at the top of the tree, any other in the working directory. -/
def start (path : Path) (working : List String) : List String :=
  if path.rooted then [] else working

/-- Where the path leads. -/
def place (path : Path) (working : List String) : List String :=
  path.start working ++ path.names

end Path

/-- A piece without a slash ends at the next slash. -/
theorem slashPieces_append {current piece rest : List Char} (whole : '/' ∉ piece) :
    slashPieces current (piece ++ '/' :: rest) =
      (current.reverse ++ piece) :: slashPieces [] rest := by
  induction piece generalizing current with
  | nil => simp [slashPieces]
  | cons character piece ih =>
      obtain ⟨other, whole⟩ := List.ne_and_not_mem_of_not_mem_cons whole
      rw [List.cons_append, slashPieces, if_neg (Ne.symm other), ih whole, List.reverse_cons,
        List.append_assoc, List.singleton_append]

/-- A text without a slash is one piece. -/
theorem slashPieces_eq_singleton {current piece : List Char} (whole : '/' ∉ piece) :
    slashPieces current piece = [current.reverse ++ piece] := by
  induction piece generalizing current with
  | nil => simp [slashPieces]
  | cons character piece ih =>
      obtain ⟨other, whole⟩ := List.ne_and_not_mem_of_not_mem_cons whole
      rw [slashPieces, if_neg (Ne.symm other), ih whole, List.reverse_cons, List.append_assoc,
        List.singleton_append]

/-- Names with slashes between them are its pieces. -/
theorem slashPieces_intercalate {names : List String} (filled : names ≠ [])
    (whole : ∀ name ∈ names, '/' ∉ name.toList) :
    slashPieces [] ("/".intercalate names).toList = names.map String.toList := by
  induction names with
  | nil => exact absurd rfl filled
  | cons name names ih =>
      rw [List.forall_mem_cons] at whole
      cases names with
      | nil => rw [String.intercalate_singleton, slashPieces_eq_singleton whole.1]; rfl
      | cons next names =>
          rw [String.intercalate_cons_cons, String.toList_append, String.toList_append,
            show "/".toList = ['/'] from rfl, List.append_assoc, List.singleton_append,
            slashPieces_append whole.1, ih (List.cons_ne_nil _ _) whole.2]
          rfl

/-- The names of a path are read back from its text. -/
theorem pathNames_text (path : Path) : pathNames path.text = path.names := by
  have pieces := slashPieces_intercalate path.filled fun name here => (path.plain name here).noSlash
  have kept : (path.names.map String.toList).filter
      (fun piece => !piece.isEmpty && piece != ['.']) = path.names.map String.toList := by
    rw [List.filter_eq_self, List.forall_mem_map]
    intro name here
    have plain := path.plain name here
    simp only [Bool.and_eq_true, Bool.not_eq_true', List.isEmpty_eq_false_iff, bne_iff_ne]
    refine ⟨fun empty => plain.filled ?_, fun dot => plain.noDot ?_⟩
    · exact String.toList_inj.mp empty
    · exact String.toList_inj.mp dot
  have texts : (path.names.map String.toList).map String.ofList = path.names := by
    simp [Function.comp_def]
  rw [pathNames, Path.text, String.toList_append]
  cases path.rooted with
  | false => rw [if_neg Bool.false_ne_true, String.toList_empty, List.nil_append, pieces, kept, texts]
  | true =>
      rw [if_pos rfl, show "/".toList = ['/'] from rfl, List.singleton_append, slashPieces,
        if_pos rfl, pieces, List.reverse_nil, List.filter_cons_of_neg (by simp), kept, texts]

/-- A path says with its first character where it starts. -/
theorem startOf_text (path : Path) (working : List String) :
    startOf working path.text = path.start working := by
  obtain ⟨name, names, split⟩ := List.exists_cons_of_ne_nil path.filled
  have plain : IsPlainName name := path.plain name (by simp [split])
  have filled : name.toList ≠ [] := fun empty => plain.filled (String.toList_eq_nil_iff.mp empty)
  obtain ⟨first, rest, spelled⟩ := List.exists_cons_of_ne_nil filled
  have other : first ≠ '/' := by
    rintro rfl
    exact plain.noSlash (by simp [spelled])
  have begins : ("/".intercalate path.names).toList.head? = some first := by
    rw [split]
    cases names with
    | nil => simp [spelled]
    | cons next names => simp [String.intercalate_cons_cons, spelled]
  rw [startOf, Path.start, Path.text]
  cases path.rooted with
  | false =>
      rw [if_neg Bool.false_ne_true, if_neg Bool.false_ne_true, String.empty_append, begins]
      exact if_neg fun same => other (Option.some.inj same)
  | true => simp

/-- A path leads from its start through its names. -/
theorem placeOf_text (path : Path) (working : List String) :
    placeOf working path.text = path.place working := by
  rw [placeOf, startOf_text, pathNames_text, Path.place]

end StringForms.Files
