/-
Module: StringForms.Proofs.Source.Eligibility
Purpose: Whether a string can be a heredoc, and in which style, is seen from the categories of its
  parts, and for two strings in a row from each of them and the few parts where they meet.
Main exports: arrangements, matchesPattern_iff, endsLine_iff, Style.ofParts_eq_squiggly_iff,
  infix_append_iff_seam, isHeredoc_append_iff, isHeredoc_is_local
-/
import StringForms.Source.Heredoc

namespace StringForms.Source

/-!
The five arrangements are short rows of categories, and one of them stands in a string exactly if it
is a stretch of the categories of the string. A stretch of three that lies in neither of two rows
has at most two members on each side of where they meet.
-/

/-! ### Arrangements -/

/-- The arrangements of neighbours that a heredoc needs one of. -/
def arrangements : List (List Category) :=
  [[.emptyText, .splice], [.splice, .newline], [.splice, .line, .line], [.line, .splice, .line],
   [.blanks, .splice, .line]]

theorem isPair_iff {first second : Category} :
    isPair first second = true ↔ [first, second] ∈ arrangements := by
  cases first <;> cases second <;> simp [isPair, arrangements]

theorem isTriple_iff {first second third : Category} :
    isTriple first second third = true ↔ [first, second, third] ∈ arrangements := by
  unfold isTriple
  split <;> simp_all [arrangements]

/-- The test looks at the first categories, as many as an arrangement has. -/
theorem startsPattern_iff {categories : List Category} :
    startsPattern categories = true ↔ ∃ arrangement ∈ arrangements, arrangement <+: categories := by
  constructor
  · intro starts
    match categories with
    | [] => cases starts
    | [_] => cases starts
    | [first, second] => exact ⟨_, isPair_iff.mp starts, List.prefix_rfl⟩
    | first :: second :: third :: rest =>
        rcases Bool.or_eq_true_iff.mp starts with pair | triple
        · exact ⟨_, isPair_iff.mp pair, List.prefix_append [first, second] (third :: rest)⟩
        · exact ⟨_, isTriple_iff.mp triple, List.prefix_append [first, second, third] rest⟩
  · rintro ⟨arrangement, found, rest, rfl⟩
    simp only [arrangements, List.mem_cons, List.not_mem_nil, or_false] at found
    rcases found with rfl | rfl | rfl | rfl | rfl <;> cases rest <;> rfl

/-- An arrangement stands in a row exactly if it is a stretch of it. -/
theorem matchesPattern_iff {categories : List Category} :
    matchesPattern categories = true ↔
      ∃ arrangement ∈ arrangements, arrangement <:+: categories := by
  induction categories with
  | nil =>
      have filled : [] ∉ arrangements := by decide
      simp [matchesPattern, filled]
  | cons category rest ih =>
      simp only [matchesPattern, Bool.or_eq_true, startsPattern_iff, ih, List.infix_cons_iff,
        and_or_left, exists_or]

/-! ### Categories -/

/-- Only the empty text is in the category of empty texts. -/
theorem Category.ofText_eq_emptyText_iff {text : List Char} :
    ofText text = .emptyText ↔ text = [] := by
  constructor
  · intro empty
    unfold ofText at empty
    split at empty
    · cases empty
    split at empty
    · cases empty
    split at empty
    · next blank => exact List.isEmpty_iff.mp blank
    split at empty <;> cases empty
  · rintro rfl
    rfl

/-- Two categories hold all the texts that end a line, and no other text. -/
theorem Category.ofText_ends_iff {text : List Char} :
    (ofText text = .newline ∨ ofText text = .line) ↔ text.getLast? = some '\n' := by
  unfold ofText
  by_cases lone : text = ['\n']
  · simp [lone]
  rw [if_neg lone]
  by_cases ends : text.getLast? = some '\n'
  · simp [ends]
  rw [if_neg ends]
  split
  · simp [ends]
  split <;> simp [ends]

/-- So a part is seen to end a line by its category. -/
theorem Part.ends_iff {part : Part} :
    (part.category = .newline ∨ part.category = .line) ↔
      ∃ text, part = .literal text ∧ text.endsWith '\n' = true := by
  cases part with
  | literal text =>
      simp [category, Category.ofText_ends_iff, String.endsWith_char_eq_getLast?]
  | _ => simp [category]

/-- The last part is text that ends a line. -/
theorem endsLine_iff {parts : List Part} :
    endsLine parts = true ↔
      ∃ text, parts.getLast? = some (.literal text) ∧ text.endsWith '\n' = true := by
  unfold endsLine
  cases parts.getLast? with
  | none => simp
  | some last => cases last <;> simp

/-- The category of the last part tells whether a line ends with it. -/
theorem endsLine_iff_category {parts : List Part} :
    endsLine parts = true ↔
      ∃ category ∈ (parts.map Part.category).getLast?, category = .newline ∨ category = .line := by
  rw [endsLine_iff, List.getLast?_map]
  cases parts.getLast? with
  | none => simp
  | some last => simp [Part.ends_iff]

theorem emptyText_mem_categories_iff {parts : List Part} :
    .emptyText ∈ parts.map Part.category ↔ .literal "" ∈ parts := by
  constructor
  · intro found
    obtain ⟨part, member, empty⟩ := List.mem_map.mp found
    cases part with
    | literal text =>
        have blank := Category.ofText_eq_emptyText_iff.mp empty
        exact String.toList_eq_nil_iff.mp blank ▸ member
    | _ => cases empty
  · exact List.mem_map_of_mem

theorem Part.isEmptyText_iff {part : Part} :
    part.isEmptyText = true ↔ part = .literal "" := by
  cases part <;> simp [isEmptyText]

/-- A heredoc is squiggly exactly if a text of its own is empty. -/
theorem Style.ofParts_eq_squiggly_iff {parts : List Part} :
    ofParts parts = .squiggly ↔ .literal "" ∈ parts := by
  simp [ofParts, Part.isEmptyText_iff]

/-- A heredoc is plain exactly if none of its own parts is empty text. -/
theorem Style.ofParts_eq_plain_iff {parts : List Part} :
    ofParts parts = .plain ↔ .literal "" ∉ parts := by
  simp [ofParts, Part.isEmptyText_iff]

/-- So the style is seen from the categories alone. -/
theorem Style.ofParts_eq_ite (parts : List Part) :
    ofParts parts = if .emptyText ∈ parts.map Part.category then .squiggly else .plain := by
  by_cases found : .literal "" ∈ parts
  · rw [if_pos (emptyText_mem_categories_iff.mpr found)]
    exact ofParts_eq_squiggly_iff.mpr found
  · rw [if_neg (mt emptyText_mem_categories_iff.mp found)]
    exact ofParts_eq_plain_iff.mpr found

/-! ### Two strings in a row -/

/-- A stretch of at most one member more than `width` lies in one of two rows, or in the `width`
members on each side of where they meet. -/
theorem infix_append_iff_seam {Member : Type} {stretch front back : List Member} {width : Nat}
    (short : stretch.length ≤ width + 1) :
    stretch <:+: front ++ back ↔ stretch <:+: front ∨ stretch <:+: back ∨
      stretch <:+: front.drop (front.length - width) ++ back.take width := by
  constructor
  · intro inside
    rcases List.infix_append_iff_ne_nil.mp inside with
      inFront | inBack | ⟨left, right, someLeft, someRight, rfl, ends, starts⟩
    · exact .inl inFront
    · exact .inr (.inl inBack)
    · -- With a member on either side, no more than `width` are left for the other side.
      have filledLeft := List.length_pos_iff.mpr someLeft
      have filledRight := List.length_pos_iff.mpr someRight
      have inLeft := ends.length_le
      rw [List.length_append] at short
      have near : left <:+ front.drop (front.length - width) := by
        apply List.suffix_of_suffix_length_le ends (List.drop_suffix _ _)
        rw [List.length_drop]
        omega
      have nearRight : right <+: back.take width := List.prefix_take_iff.mpr ⟨starts, by omega⟩
      have seam := List.infix_append_iff.mpr (.inr (.inr ⟨left, right, rfl, near, nearRight⟩))
      exact .inr (.inr seam)
  · have seam : front.drop (front.length - width) ++ back.take width <:+: front ++ back := by
      refine ⟨front.take (front.length - width), back.drop width, ?_⟩
      rw [← List.append_assoc, List.take_append_drop, List.append_assoc, List.take_append_drop]
    rintro (inFront | inBack | near)
    · exact List.infix_append_iff.mpr (.inl inFront)
    · exact List.infix_append_iff.mpr (.inr (.inl inBack))
    · exact near.trans seam

/-- An arrangement stands in two rows together exactly if one stands in either of them, or where
they meet. -/
theorem matchesPattern_append_iff {front back : List Category} :
    matchesPattern (front ++ back) = true ↔ matchesPattern front = true ∨
      matchesPattern back = true ∨
        matchesPattern (front.drop (front.length - 2) ++ back.take 2) = true := by
  have short : ∀ arrangement ∈ arrangements, arrangement.length ≤ 3 := by decide
  simp only [matchesPattern_iff, ← exists_or, ← and_or_left]
  apply exists_congr
  intro arrangement
  apply and_congr_right
  intro found
  exact infix_append_iff_seam (short arrangement found)

/-- One of the arrangements stands in the parts. -/
def HasArrangement (parts : List Part) : Prop :=
  matchesPattern (parts.map Part.category) = true

instance (parts : List Part) : Decidable (HasArrangement parts) :=
  inferInstanceAs (Decidable (matchesPattern (parts.map Part.category) = true))

/-- An arrangement in a row made of two lies in one of them or across the seam, where two parts of
each side are enough. -/
theorem hasArrangement_append_iff {front back : List Part} :
    HasArrangement (front ++ back) ↔ HasArrangement front ∨ HasArrangement back ∨
      HasArrangement (front.drop (front.length - 2) ++ back.take 2) := by
  unfold HasArrangement
  rw [List.map_append, matchesPattern_append_iff, List.length_map, ← List.map_drop, ← List.map_take,
    List.map_append]

/-- Of the end of a line only the second row decides. -/
theorem isHeredoc_append_iff {front back : List Part} (filled : back ≠ []) :
    isHeredoc (front ++ back) = true ↔ endsLine back = true ∧ HasArrangement (front ++ back) := by
  have last : (front ++ back).getLast? = back.getLast? := by
    cases ends : back.getLast? with
    | none => exact absurd (List.getLast?_eq_none_iff.mp ends) filled
    | some part => rw [List.getLast?_append, ends, Option.some_or]
  rw [isHeredoc, Bool.and_eq_true, endsLine, last]
  rfl

/-! ### The choice -/

/-- Parts of the same categories make a heredoc of the same style, or none: an empty text, of which
the style speaks, and the end of a line are seen from the category. Whether two strings in a row
make a heredoc is settled by the last part and by an arrangement in the first, in the second, or in
the two parts on each side of where they meet. So a heredoc stays one when parts are put before it.
-/
theorem isHeredoc_is_local :
    (∀ parts other : List Part, parts.map Part.category = other.map Part.category →
      isHeredoc parts = isHeredoc other ∧ Style.ofParts parts = Style.ofParts other) ∧
    (∀ parts : List Part, Style.ofParts parts = .squiggly ↔ .literal "" ∈ parts) ∧
    (∀ front back : List Part, back ≠ [] →
      (isHeredoc (front ++ back) = true ↔
        (∃ text, back.getLast? = some (.literal text) ∧ text.endsWith '\n' = true) ∧
          (HasArrangement front ∨ HasArrangement back ∨
            HasArrangement (front.drop (front.length - 2) ++ back.take 2)))) ∧
    (∀ front back : List Part, isHeredoc back = true → isHeredoc (front ++ back) = true) := by
  refine ⟨?_, fun _ => Style.ofParts_eq_squiggly_iff, ?_, ?_⟩
  · intro parts other same
    have ends : endsLine parts = endsLine other := by
      rw [Bool.eq_iff_iff, endsLine_iff_category, endsLine_iff_category, same]
    rw [isHeredoc, isHeredoc, ends, Style.ofParts_eq_ite, Style.ofParts_eq_ite, same]
    exact ⟨rfl, rfl⟩
  · intro front back filled
    rw [isHeredoc_append_iff filled, endsLine_iff, hasArrangement_append_iff]
  · intro front back eligible
    have filled : back ≠ [] := by
      rintro rfl
      cases eligible
    obtain ⟨ends, inBack⟩ := Bool.and_eq_true_iff.mp eligible
    have inBoth : HasArrangement (front ++ back) :=
      hasArrangement_append_iff.mpr (.inr (.inl inBack))
    exact (isHeredoc_append_iff filled).mpr ⟨ends, inBoth⟩

/-- An arrangement of three with one part before the join and two behind it, and other parts of the
same categories. -/
theorem isHeredoc_across_join :
    let front : List Part := [.reference (.append "@a"), .literal " \t"]
    let back : List Part := [.splice .empty, .literal "b\n"]
    let other : List Part := [.bare .int, .literal " ", .splice (.append "c"), .literal "\n\n"]
    (front ++ back).map Part.category = other.map Part.category ∧ back ≠ [] ∧
      ¬ HasArrangement front ∧ ¬ HasArrangement back ∧ isHeredoc (front ++ back) = true ∧
      isHeredoc other = true ∧ Style.ofParts other = .plain ∧
      isHeredoc (.literal "" :: other) = true := by
  intro front back other
  obtain ⟨tags, _, join, before⟩ := isHeredoc_is_local
  have same : (front ++ back).map Part.category = other.map Part.category := by decide
  have filled : back ≠ [] := List.cons_ne_nil _ _
  have near : HasArrangement (front.drop (front.length - 2) ++ back.take 2) := by decide
  have ends : "b\n".endsWith '\n' = true := by
    rw [String.endsWith_char_eq_getLast?]
    decide
  have whole : isHeredoc (front ++ back) = true :=
    (join front back filled).mpr ⟨⟨"b\n", rfl, ends⟩, .inr (.inr near)⟩
  obtain ⟨eligible, style⟩ := tags _ _ same
  have eligibleOther : isHeredoc other = true := eligible ▸ whole
  refine ⟨same, filled, by decide, by decide, whole, eligibleOther, ?_, ?_⟩
  · rw [← style]
    decide
  · exact before [.literal ""] other eligibleOther

end StringForms.Source
