/-
Module: StringForms.Proofs.Source.Symbols
Purpose: The literals of symbols and texts in source code, put into the written form of a node,
  stand for the same symbols and texts there.
Main exports: isWordPart_or_mark_of_isPlainName, isBareName_of_isPlainName, writes_symbolText,
  read_around, read_form_of_literal
-/
import StringForms.Proofs.Sexp.Joining
import StringForms.Proofs.Sexp.RoundTrip
import StringForms.Proofs.Source.Literal
import StringForms.Proofs.Source.Quoted

/-!
Source code shows fewer symbols without quotes than the written form does, and between quotes it
escapes in its own way. The written form takes all of it: a plain name is a bare one, and its reader
knows every escape of source code.
-/

namespace StringForms.Source

open Text Sexp

/-! ### Plain names -/

/-- A plain name holds characters of words, and a mark at its end at most. -/
theorem isWordPart_or_mark_of_isPlainName {name : List Char} (plain : isPlainName name = true)
    {character : Char} (found : character ∈ name) :
    isWordPart character = true ∨ character ∈ ['?', '!', '='] := by
  have ofWord {word : List Char} (inside : word.all isWordPart = true) (member : character ∈ word) :
      isWordPart character = true := List.all_eq_true.mp inside character member
  have ofMarked {rest : List Char} (mark : Char) (marked : mark ∈ ['?', '!', '='])
      (last : rest.getLast? = some mark) (inside : rest.dropLast.all isWordPart = true)
      (member : character ∈ rest) : isWordPart character = true ∨ character ∈ ['?', '!', '='] := by
    obtain ⟨front, rfl⟩ := List.getLast?_eq_some_iff.mp last
    rw [List.dropLast_concat] at inside
    rcases List.mem_append.mp member with before | same
    · exact .inl (ofWord inside before)
    · exact .inr (List.mem_singleton.mp same ▸ marked)
  cases name with
  | nil => cases found
  | cons first rest =>
      rw [isPlainName, Bool.and_eq_true] at plain
      obtain ⟨start, word⟩ := plain
      rcases List.mem_cons.mp found with same | later
      · exact .inl (same ▸ isWordPart_of_isWordStart start)
      -- The name ends in one of the three marks, or it is a word to its end.
      · split at word
        · exact ofMarked '?' (by decide) ‹_› word later
        · exact ofMarked '!' (by decide) ‹_› word later
        · exact ofMarked '=' (by decide) ‹_› word later
        · exact .inl (ofWord word later)

/-- A name that code has without quotes needs none in the written form either. -/
theorem isBareName_of_isPlainName {name : List Char} (plain : isPlainName name = true) :
    isBareName name = true := by
  have filled : name.isEmpty = false := by
    cases name with
    | nil => cases plain
    | cons first rest => rfl
  have inside : ∀ character ∈ name, isSymbolPart character = true := by
    intro character found
    have marks : ['?', '!', '='].all isSymbolPart = true := rfl
    rcases isWordPart_or_mark_of_isPlainName plain found with part | mark
    · exact isSymbolPart_of_isWordPart part
    · exact List.all_eq_true.mp marks character mark
  rw [isBareName, filled]
  exact List.all_eq_true.mpr inside

/-! ### Literals as children -/

/-- A symbol in code is read back as its name. -/
theorem writes_symbolText (name : String) : Writes (symbolText name.toList) (.symbol name) := by
  unfold symbolText
  by_cases plain : isPlainName name.toList = true
  · rw [if_pos plain]
    exact writes_bareSymbol (isBareName_of_isPlainName plain)
  · rw [if_neg plain]
    exact writes_quotedSymbol (Literal.spells_quoted name.toList)

/-- A node with one child is read from its form, whatever spelling of the child the form is put
around. -/
theorem read_around {opening : String} {kind : Kind} {text : List Char} {atom : Atom} {node : Node}
    (opens : opening.toList = ['s', '(', ':'] ++ kind.tag.toList ++ [',', ' '])
    (writes : Writes text atom) (fits : Fits kind [atom] node) :
    read (opening ++ String.ofList text ++ ")") = .ok node := by
  have each : ∀ child ∈ [(text, atom)], Writes child.1 child.2 := by simpa using writes
  obtain ⟨tokens, derived, cut⟩ := form_cut each fits 0
  have form : opening ++ String.ofList text ++ ")" = String.ofList (spellForm kind [text]) := by
    apply String.toList_injective
    simp [opens, spellForm]
  rw [form]
  exact read_of_cut derived (cut [])

/-! ### On a page -/

/-- On a blank page an expression leaves its text. -/
theorem content_run_code_blank (node : Node) (unit : String) :
    (node.code.run (Page.blank unit)).page.content = node.code.text := by
  have margin : (Page.blank unit).level = 0 := rfl
  rw [Draft.page_run_of_flush (staysFlush_code_and_ofNode node).1 margin]
  exact String.empty_append

/-- Every symbol and every text is written on a page of its own, and what stands there is read back
as the same symbol or text where it is the child of such a node, whether the symbol is quoted or
not. -/
theorem read_form_of_literal (unit text : String) :
    let symbol := (Node.name .sym text).code.run (Page.blank unit)
    let string := (Node.str text).code.run (Page.blank unit)
    symbol.fault? = none ∧ string.fault? = none ∧
      read ("s(:sym, " ++ symbol.page.content ++ ")") = .ok (.name .sym text) ∧
      read ("s(:str, " ++ string.page.content ++ ")") = .ok (.str text) := by
  intro symbol string
  have symbolContent : symbol.page.content = String.ofList (symbolText text.toList) :=
    content_run_code_blank (.name .sym text) unit
  have stringContent : string.page.content =
      String.ofList ('"' :: (Literal.quoted text.toList ++ ['"'])) := by
    have written : string.page.content = "\"" ++ (Mode.quoted.escape text ++ "\"") :=
      content_run_code_blank (.str text) unit
    apply String.toList_injective
    simp [written, Mode.escape]
  refine ⟨Draft.fault?_run _ _, Draft.fault?_run _ _, ?_, ?_⟩
  · rw [symbolContent]
    exact read_around (by decide) (writes_symbolText text) (.name .sym text)
  · have writes := writes_quotedText (Literal.spells_quoted text.toList)
    rw [stringContent]
    exact read_around (by decide) writes (.str text)

end StringForms.Source
