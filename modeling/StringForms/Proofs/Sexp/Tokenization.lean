/-
Module: StringForms.Proofs.Sexp.Tokenization
Purpose: Cutting an input into tokens is faithful: blanks and longest tokens in turn, up to the end
  or to the first character at which there is neither.
Main exports: Tokenized, Stuck, RestAt, Tokenized.exists_restAt, exists_tokenized, lex_eq_ok_iff,
  lex_eq_error_iff, lex_iff_tokenized
-/
import StringForms.Proofs.Sexp.Lexicon

namespace StringForms.Sexp

open Text

/-- An input is cut into tokens up to some place. What is still ahead is kept in sight, since it
decides how far a token goes. Each token has the text that stands there and its place in bytes, and
is the longest one there. -/
inductive Tokenized : (before ahead : List Char) → List Token → Prop where
  | start (input : List Char) : Tokenized [] input []
  | blank {before ahead : List Char} {tokens : List Token} {blank : Char}
      (tokenized : Tokenized before (blank :: ahead) tokens) (isBlank : isBlank blank = true) :
      Tokenized (before ++ [blank]) ahead tokens
  | token {before ahead text : List Char} {tokens : List Token} {kind : TokenKind}
      (tokenized : Tokenized before (text ++ ahead) tokens)
      (matched : LongestMatch kind text (text ++ ahead)) :
      Tokenized (before ++ text) ahead (tokens ++ [piece kind text (byteSize before)])

/-- An input that begins with a character that is not blank and at which no token begins. -/
def Stuck (input : List Char) : Prop :=
  ∃ first following, input = first :: following ∧ isBlank first = false ∧
    ∀ (kind : TokenKind) (text : List Char), text <+: input → text ∉ kind.language

/-! ### What is cut off -/

/-- A longest token is cut off wherever it stands. -/
theorem cut_of_longestMatch {kind : TokenKind} {text ahead : List Char}
    (matched : LongestMatch kind text (text ++ ahead)) (offset : Nat) :
    Cut offset text [piece kind text offset] ahead := by
  obtain ⟨first, more, rfl⟩ := TokenKind.exists_cons_of_mem matched.belongs
  exact cut_of_scan (TokenKind.isBlank_eq_false matched.belongs) (scan?_of_longestMatch matched)

/-- A text that the rules tokenize is cut in the same way, whatever lies ahead of it. -/
theorem Tokenized.cut {before ahead : List Char} {tokens : List Token}
    (tokenized : Tokenized before ahead tokens) : Cut 0 before tokens ahead := by
  induction tokenized with
  | start input => exact .nil
  | blank tokenized isBlank ih =>
      have joined := ih.append (cut_blank isBlank)
      rwa [List.append_nil] at joined
  | @token before ahead text tokens kind tokenized matched ih =>
      have here : Cut (0 + byteSize before) text [piece kind text (byteSize before)] ahead := by
        rw [Nat.zero_add]
        exact cut_of_longestMatch matched _
      exact ih.append here

/-- A whole text that the rules tokenize is cut into those tokens. -/
theorem Tokenized.lex_eq {source : String} {tokens : List Token}
    (tokenized : Tokenized source.toList [] tokens) : lex source = .ok tokens := by
  have cut := tokenized.cut.lex_eq
  rwa [String.ofList_toList] at cut

/-- Cutting stops with an error at the first place where it is stuck. -/
theorem Tokenized.lex_eq_of_stuck {source : String} {before ahead : List Char}
    {tokens : List Token} (split : source.toList = before ++ ahead)
    (tokenized : Tokenized before ahead tokens) (stuck : Stuck ahead) :
    lex source = .error (.invalidCharacter (byteSize before)) := by
  obtain ⟨first, following, rfl, ink, nothing⟩ := stuck
  have cut : tokensFrom 0 (before ++ first :: following) = _ := tokenized.cut
  have none : scan? first following = none := scan?_eq_none_iff.mpr nothing
  have fails : tokensFrom (0 + byteSize before) (first :: following) =
      .error (.invalidCharacter (byteSize before)) := by
    rw [tokensFrom, none, Nat.zero_add]
    simp [ink]
  rw [lex, split, cut, fails]
  rfl

/-- What stands from a byte of an input on. -/
def RestAt (input : List Char) (offset : Nat) (rest : List Char) : Prop :=
  ∃ before, input = before ++ rest ∧ byteSize before = offset

/-- Each token stands where it says, and is the longest one there. -/
theorem Tokenized.exists_restAt {before ahead : List Char} {tokens : List Token}
    (tokenized : Tokenized before ahead tokens) {token : Token} (found : token ∈ tokens) :
    ∃ rest, RestAt (before ++ ahead) token.offset rest ∧
      LongestMatch token.kind token.text.toList rest := by
  induction tokenized with
  | start input => cases found
  | blank _ _ ih =>
      rw [List.append_assoc]
      exact ih found
  | token _ matched ih =>
      rw [List.append_assoc]
      rcases List.mem_append.mp found with earlier | last
      · exact ih earlier
      · rw [List.mem_singleton.mp last, piece, String.toList_ofList]
        exact ⟨_, ⟨_, rfl, rfl⟩, matched⟩

/-! ### How far cutting goes -/

/-- Cutting goes on to the end of the input, or until it is stuck. -/
theorem Tokenized.goes_on {before ahead : List Char} {tokens : List Token}
    (tokenized : Tokenized before ahead tokens) :
    (∃ all, Tokenized (before ++ ahead) [] all) ∨
      ∃ front back some,
        before ++ ahead = front ++ back ∧ Tokenized front back some ∧ Stuck back := by
  match ahead with
  | [] =>
      rw [List.append_nil]
      exact .inl ⟨tokens, tokenized⟩
  | first :: following =>
      cases blank : isBlank first with
      | true =>
          have further := (tokenized.blank blank).goes_on
          rwa [List.append_assoc] at further
      | false =>
          cases scanned : scan? first following with
          | none =>
              have stuck : Stuck (first :: following) :=
                ⟨first, following, rfl, blank, scan?_eq_none_iff.mp scanned⟩
              exact .inr ⟨before, _, tokens, rfl, tokenized, stuck⟩
          | some found =>
              have matched := longestMatch_of_scan? scanned
              have split : first :: following =
                  (first :: following.take found.2) ++ following.drop found.2 := by simp
              rw [split] at tokenized matched ⊢
              have further := (tokenized.token matched).goes_on
              rwa [List.append_assoc] at further
termination_by ahead.length
decreasing_by all_goals simp; try omega

/-- The rules tokenize a text to its end, or they are stuck on the way. -/
theorem exists_tokenized (input : List Char) :
    (∃ tokens, Tokenized input [] tokens) ∨
      ∃ before ahead tokens,
        input = before ++ ahead ∧ Tokenized before ahead tokens ∧ Stuck ahead :=
  (Tokenized.start input).goes_on

/-- A text is cut into tokens exactly if the rules tokenize it. -/
theorem lex_eq_ok_iff {source : String} {tokens : List Token} :
    lex source = .ok tokens ↔ Tokenized source.toList [] tokens := by
  refine ⟨fun lexed => ?_, Tokenized.lex_eq⟩
  rcases exists_tokenized source.toList with ⟨all, tokenized⟩ | ⟨_, _, _, split, tokenized, stuck⟩
  · rw [tokenized.lex_eq] at lexed
    cases lexed
    exact tokenized
  · rw [tokenized.lex_eq_of_stuck split stuck] at lexed
    cases lexed

/-- A text cannot be cut exactly if the rules are stuck in it, and they are stuck where the error
says. -/
theorem lex_eq_error_iff {source : String} {problem : ReadError} :
    lex source = .error problem ↔
      ∃ before ahead tokens, source.toList = before ++ ahead ∧ Tokenized before ahead tokens ∧
        Stuck ahead ∧ problem = .invalidCharacter (byteSize before) := by
  constructor
  · intro lexed
    rcases exists_tokenized source.toList with ⟨all, tokenized⟩ | ⟨_, _, _, split, tokenized, stuck⟩
    · rw [tokenized.lex_eq] at lexed
      cases lexed
    · rw [tokenized.lex_eq_of_stuck split stuck] at lexed
      cases lexed
      exact ⟨_, _, _, split, tokenized, stuck, rfl⟩
  · rintro ⟨before, ahead, tokens, split, tokenized, stuck, rfl⟩
    exact tokenized.lex_eq_of_stuck split stuck

/-- A text is cut into tokens exactly if they and blanks make it up, each token being the longest
that begins where it stands. There is one way at most to do so, since no text is a token of two
kinds. What cannot be cut is refused at the byte where a character stands that is not blank and at
which no token begins, and all before it is cut in the same way. -/
theorem lex_iff_tokenized :
    (∀ (source : String) (tokens : List Token),
      lex source = .ok tokens ↔ Tokenized source.toList [] tokens) ∧
    (∀ (source : String) (problem : ReadError),
      lex source = .error problem ↔
        ∃ before ahead tokens, source.toList = before ++ ahead ∧ Tokenized before ahead tokens ∧
          Stuck ahead ∧ problem = .invalidCharacter (byteSize before)) ∧
    (∀ (text : List Char) (kind other : TokenKind),
      text ∈ kind.language → text ∈ other.language → kind = other) ∧
    (∀ (input : List Char) (tokens others : List Token),
      Tokenized input [] tokens → Tokenized input [] others → tokens = others) := by
  refine ⟨fun _ _ => lex_eq_ok_iff, fun _ _ => lex_eq_error_iff,
    fun _ _ _ => TokenKind.eq_of_mem_language, fun input tokens others one two => ?_⟩
  have lexed := one.cut.lex_eq
  rw [two.cut.lex_eq] at lexed
  exact (Except.ok.inj lexed).symm

/-- A backslash before a line feed leaves the second quote open, six bytes into the text. -/
theorem tokenized_before_open_quote :
    let source := ":\"é\" \"a\\\n\""
    lex source = .error (.invalidCharacter 6) ∧
      ∃ before ahead tokens, source.toList = before ++ ahead ∧ Tokenized before ahead tokens ∧
        Stuck ahead ∧ byteSize before = 6 := by
  intro source
  have lexed : lex source = .error (.invalidCharacter 6) := by
    simp only [source]
    cbv
  obtain ⟨before, ahead, tokens, split, tokenized, stuck, place⟩ :=
    (lex_iff_tokenized.2.1 source _).mp lexed
  refine ⟨lexed, before, ahead, tokens, split, tokenized, stuck, ?_⟩
  exact (ReadError.invalidCharacter.inj place).symm

end StringForms.Sexp
