/-
Module: StringForms.Text.Bytes
Purpose: The length of a text in UTF-8 bytes, the unit of every reported position, and texts cut off
  at a byte.
Main exports: byteSize, takeBytes, byteSize_append, byteSize_toList, takeBytes_append
-/

namespace StringForms.Text

/-- How many bytes a list of characters takes in UTF-8. -/
def byteSize : List Char → Nat
  | [] => 0
  | character :: rest => character.utf8Size + byteSize rest

/-- The start of a text up to a given byte. No character is cut in two. -/
def takeBytes (bytes : Nat) : List Char → List Char
  | [] => []
  | character :: rest =>
      if character.utf8Size ≤ bytes then
        character :: takeBytes (bytes - character.utf8Size) rest
      else []

@[simp] theorem byteSize_append (first second : List Char) :
    byteSize (first ++ second) = byteSize first + byteSize second := by
  induction first with
  | nil => simp [byteSize]
  | cons character rest ih => simp [byteSize, ih, Nat.add_assoc]

/-- A text is cut off where it is counted to end. -/
@[simp] theorem takeBytes_append (front rest : List Char) :
    takeBytes (byteSize front) (front ++ rest) = front := by
  induction front with
  | nil =>
      cases rest with
      | nil => rfl
      | cons character rest =>
          have some : ¬character.utf8Size ≤ 0 := Nat.not_le.mpr character.utf8Size_pos
          rw [List.nil_append, byteSize, takeBytes, if_neg some]
  | cons character front ih =>
      rw [List.cons_append, byteSize, takeBytes, if_pos (Nat.le_add_right _ _),
        Nat.add_sub_cancel_left, ih]

/-- Core counts the same bytes. -/
theorem byteSize_toList (text : String) : byteSize text.toList = text.utf8ByteSize := by
  have counted (characters : List Char) :
      byteSize characters = (String.ofList characters).utf8ByteSize := by
    induction characters with
    | nil => simp [byteSize]
    | cons character rest ih =>
        have split : String.ofList (character :: rest) =
            String.singleton character ++ String.ofList rest := by
          rw [String.singleton_eq_ofList, ← String.ofList_append]
          rfl
        rw [byteSize, ih, split, String.utf8ByteSize_append, String.utf8ByteSize_singleton]
  rw [counted, String.ofList_toList]

end StringForms.Text
