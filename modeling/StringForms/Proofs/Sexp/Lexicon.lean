/-
Module: StringForms.Proofs.Sexp.Lexicon
Purpose: The texts that are tokens of each kind, as languages, and the scanner as the longest match
  over all of them.
Main exports: TokenKind.language, TokenKind.goesOn, TokenKind.eq_of_mem_language, LongestMatch,
  longestMatch_of_scan?, scan?_of_longestMatch, scan?_eq_none_iff
-/
import Mathlib
import StringForms.Proofs.Sexp.Cutting

namespace StringForms.Sexp

open Text
open scoped Computability

/-!
A kind of token is declared as a language, a set of texts, in the operations of regular expressions.
Nothing here says where a token ends: that two rules never take the same text, and that a rule takes
as much as it can, is then proved of the scanner.
-/

/-! ### The languages -/

/-- The texts that are one character of a class. -/
def oneOf (belongs : Char → Bool) : Language Char :=
  {text | ∃ character, belongs character = true ∧ text = [character]}

/-- The texts of characters of a class, at least one of them. -/
def someOf (belongs : Char → Bool) : Language Char :=
  oneOf belongs * (oneOf belongs)∗

/-- What stands between quotes one by one: a character that is neither a quote nor a backslash, or a
backslash with any character behind it but a line feed. -/
def quotedUnit : Language Char :=
  oneOf (fun character => character != '"' && character != '\\') +
    {['\\']} * oneOf (· != '\n')

/-- What may stand behind an opening quote, with the quote that closes it. -/
def quotedRest : Language Char :=
  quotedUnit∗ * {['"']}

/-- The texts that are a token of a kind. -/
def TokenKind.language : TokenKind → Language Char
  | .leftParenthesis => {['(']}
  | .rightParenthesis => {[')']}
  | .comma => {[',']}
  | .symbol => {[':']} * someOf isSymbolPart
  | .quotedSymbol => {[':', '"']} * quotedRest
  | .string => {['"']} * quotedRest
  | .integer => (1 + {['-']}) * someOf Char.isDigit
  | .identifier => oneOf isWordStart * (oneOf isWordPart)∗

/-- The characters that a token of a kind takes in when they stand behind it. -/
def TokenKind.goesOn : TokenKind → Char → Bool
  | .symbol => isSymbolPart
  | .integer => Char.isDigit
  | .identifier => isWordPart
  | _ => fun _ => false

/-! ### Their members -/

theorem mem_singleton_mul_iff {front text : List Char} {language : Language Char} :
    text ∈ ({front} : Language Char) * language ↔ ∃ rest ∈ language, text = front ++ rest := by
  rw [Language.mem_mul]
  constructor
  · rintro ⟨_, rfl, rest, belongs, rfl⟩
    exact ⟨rest, belongs, rfl⟩
  · rintro ⟨rest, belongs, rfl⟩
    exact ⟨front, rfl, rest, belongs, rfl⟩

theorem append_mem_kstar {language : Language Char} {front rest : List Char}
    (first : front ∈ language) (later : rest ∈ language∗) : front ++ rest ∈ language∗ := by
  have grown : language * language∗ ≤ language∗ := mul_kstar_le_kstar
  exact grown (Language.append_mem_mul first later)

section Class

variable {belongs : Char → Bool} {text : List Char}

/-- A text of a product whose first language is a class begins with a character of the class. -/
theorem mem_oneOf_mul_iff {language : Language Char} :
    text ∈ oneOf belongs * language ↔
      ∃ first rest, belongs first = true ∧ rest ∈ language ∧ text = first :: rest := by
  rw [Language.mem_mul]
  constructor
  · rintro ⟨_, ⟨first, inside, rfl⟩, rest, later, rfl⟩
    exact ⟨first, rest, inside, later, rfl⟩
  · rintro ⟨first, rest, inside, later, rfl⟩
    exact ⟨[first], ⟨first, inside, rfl⟩, rest, later, rfl⟩

/-- The texts of characters of one class are the star of the class. -/
theorem mem_kstar_oneOf_iff :
    text ∈ (oneOf belongs)∗ ↔ ∀ character ∈ text, belongs character = true := by
  constructor
  · intro starred
    obtain ⟨units, rfl, each⟩ := Language.mem_kstar.mp starred
    intro character found
    obtain ⟨unit, member, within⟩ := List.mem_flatten.mp found
    obtain ⟨only, inside, rfl⟩ := each unit member
    rwa [List.mem_singleton.mp within]
  · intro inside
    induction text with
    | nil => exact Language.nil_mem_kstar _
    | cons first rest ih =>
        obtain ⟨insideFirst, insideRest⟩ := List.forall_mem_cons.mp inside
        have unit : [first] ∈ oneOf belongs := ⟨first, insideFirst, rfl⟩
        exact append_mem_kstar unit (ih insideRest)

theorem mem_someOf_iff :
    text ∈ someOf belongs ↔ text ≠ [] ∧ ∀ character ∈ text, belongs character = true := by
  rw [someOf, mem_oneOf_mul_iff]
  constructor
  · rintro ⟨first, rest, inside, later, rfl⟩
    exact ⟨List.cons_ne_nil _ _,
      List.forall_mem_cons.mpr ⟨inside, mem_kstar_oneOf_iff.mp later⟩⟩
  · rintro ⟨filled, inside⟩
    obtain ⟨first, rest, rfl⟩ := List.exists_cons_of_ne_nil filled
    obtain ⟨insideFirst, insideRest⟩ := List.forall_mem_cons.mp inside
    exact ⟨first, rest, insideFirst, mem_kstar_oneOf_iff.mpr insideRest, rfl⟩

end Class

/-- An identifier is a letter or an underscore, and what goes on with it. -/
theorem mem_identifier_iff {text : List Char} :
    text ∈ TokenKind.identifier.language ↔ ∃ first rest, isWordStart first = true ∧
      (∀ character ∈ rest, isWordPart character = true) ∧ text = first :: rest := by
  simp only [TokenKind.language, mem_oneOf_mul_iff, mem_kstar_oneOf_iff]

theorem mem_symbol_iff {text : List Char} :
    text ∈ TokenKind.symbol.language ↔
      ∃ name ∈ someOf isSymbolPart, text = ':' :: name :=
  mem_singleton_mul_iff

theorem mem_quotedSymbol_iff {text : List Char} :
    text ∈ TokenKind.quotedSymbol.language ↔ ∃ rest ∈ quotedRest, text = ':' :: '"' :: rest :=
  mem_singleton_mul_iff

theorem mem_string_iff {text : List Char} :
    text ∈ TokenKind.string.language ↔ ∃ rest ∈ quotedRest, text = '"' :: rest :=
  mem_singleton_mul_iff

/-- An integer is a row of digits, with a minus sign in front or without. -/
theorem mem_integer_iff {text : List Char} :
    text ∈ TokenKind.integer.language ↔
      ∃ digits ∈ someOf Char.isDigit, text = digits ∨ text = '-' :: digits := by
  rw [TokenKind.language, add_mul, one_mul, Language.mem_add, mem_singleton_mul_iff]
  constructor
  · rintro (digits | ⟨digits, inside, rfl⟩)
    · exact ⟨text, digits, .inl rfl⟩
    · exact ⟨digits, inside, .inr rfl⟩
  · rintro ⟨digits, inside, rfl | rfl⟩
    · exact .inl inside
    · exact .inr ⟨digits, inside, rfl⟩

/-! ### Runs -/

theorem take_runLength (belongs : Char → Bool) (text : List Char) :
    text.take (runLength belongs text) = text.takeWhile belongs :=
  (List.prefix_iff_eq_take.mp (List.takeWhile_prefix _)).symm

theorem runLength_le (belongs : Char → Bool) (text : List Char) :
    runLength belongs text ≤ text.length :=
  (List.takeWhile_prefix _).length_le

/-- A run that is known takes in the run behind it. -/
theorem runLength_run_append {belongs : Char → Bool} {run : List Char}
    (inside : ∀ character ∈ run, belongs character = true) (rest : List Char) :
    runLength belongs (run ++ rest) = run.length + runLength belongs rest := by
  rw [runLength, List.takeWhile_append_of_pos inside, List.length_append, runLength]

/-- A run is empty exactly if what follows stops it. -/
theorem runLength_eq_zero_iff {belongs : Char → Bool} {text : List Char} :
    runLength belongs text = 0 ↔ Stops belongs text := by
  cases text with
  | nil => simp [runLength, Stops]
  | cons first later => cases inside : belongs first <;> simp [runLength, Stops, inside]

theorem runLength_ne_zero {belongs : Char → Bool} {run : List Char} (inside : run ∈ someOf belongs)
    (rest : List Char) : runLength belongs (run ++ rest) ≠ 0 := by
  obtain ⟨filled, each⟩ := mem_someOf_iff.mp inside
  have some : 0 < run.length := List.length_pos_iff.mpr filled
  rw [runLength_run_append each]
  omega

theorem forall_mem_take_runLength (belongs : Char → Bool) (text : List Char) :
    ∀ character ∈ text.take (runLength belongs text), belongs character = true := by
  rw [take_runLength]
  exact fun character found => List.mem_takeWhile_imp found

theorem take_runLength_mem_someOf {belongs : Char → Bool} {text : List Char}
    (filled : runLength belongs text ≠ 0) :
    text.take (runLength belongs text) ∈ someOf belongs := by
  refine mem_someOf_iff.mpr ⟨?_, forall_mem_take_runLength belongs text⟩
  rw [take_runLength]
  exact List.ne_nil_of_length_pos (Nat.pos_of_ne_zero filled)

/-! ### Quoted texts -/

/-- A unit of a quoted text is passed over as a whole. -/
theorem quotedLength?_append {unit : List Char} (belongs : unit ∈ quotedUnit) (rest : List Char) :
    quotedLength? (unit ++ rest) = (· + unit.length) <$> quotedLength? rest := by
  rcases belongs with ⟨character, plain, rfl⟩ | escaped
  · obtain ⟨notQuote, notBackslash⟩ : character ≠ '"' ∧ character ≠ '\\' := by
      simpa using plain
    exact (Spells.plain notQuote notBackslash).passes rest
  · obtain ⟨_, ⟨character, other, rfl⟩, rfl⟩ := mem_singleton_mul_iff.mp escaped
    have notLineFeed : character ≠ '\n' := by simpa using other
    have passed : quotedLength? ('\\' :: character :: rest) = (· + 2) <$> quotedLength? rest := by
      rw [quotedLength?]
      exact notLineFeed
    exact passed

/-- The closing quote is found where it stands, whatever is behind it. -/
theorem quotedLength?_of_mem {closed : List Char} (belongs : closed ∈ quotedRest)
    (rest : List Char) : quotedLength? (closed ++ rest) = some closed.length := by
  obtain ⟨body, starred, _, rfl, rfl⟩ := Language.mem_mul.mp belongs
  obtain ⟨units, rfl, each⟩ := Language.mem_kstar.mp starred
  clear starred belongs
  induction units with
  | nil => rfl
  | cons unit later ih =>
      obtain ⟨first, others⟩ := List.forall_mem_cons.mp each
      rw [List.flatten_cons, List.append_assoc, List.append_assoc, quotedLength?_append first,
        ← List.append_assoc, ih others]
      simp [Nat.add_comm]

/-- Another unit in front leaves the rest of a quoted text closed. -/
theorem append_mem_quotedRest {unit closed : List Char} (first : unit ∈ quotedUnit)
    (later : closed ∈ quotedRest) : unit ++ closed ∈ quotedRest := by
  obtain ⟨body, starred, _, rfl, rfl⟩ := Language.mem_mul.mp later
  rw [← List.append_assoc]
  exact Language.append_mem_mul (append_mem_kstar first starred) rfl

/-- Nothing but a text with its closing quote is taken. -/
theorem exists_of_quotedLength? {text : List Char} {length : Nat}
    (found : quotedLength? text = some length) :
    ∃ closed rest, closed ∈ quotedRest ∧ text = closed ++ rest ∧ closed.length = length := by
  induction text using quotedLength?.induct generalizing length with
  | case1 => cases found
  | case2 rest =>
      cases found
      exact ⟨['"'], rest, Language.append_mem_mul (Language.nil_mem_kstar _) rfl, rfl, rfl⟩
  | case3 => cases found
  | case4 => cases found
  | case5 character rest other ih =>
      have unit : ['\\', character] ∈ quotedUnit :=
        .inr (mem_singleton_mul_iff.mpr ⟨[character], ⟨character, by simpa using other, rfl⟩, rfl⟩)
      have passed := quotedLength?_append unit rest
      obtain ⟨shorter, foundRest, rfl⟩ := Option.map_eq_some_iff.mp (passed.symm.trans found)
      obtain ⟨closed, behind, belongs, rfl, rfl⟩ := ih foundRest
      exact ⟨_, behind, append_mem_quotedRest unit belongs, rfl, rfl⟩
  | case6 character rest notQuote notLast _ notPair ih =>
      have notBackslash : character ≠ '\\' := by
        rintro rfl
        cases rest with
        | nil => exact notLast rfl rfl
        | cons next later => exact notPair next later rfl rfl
      have unit : [character] ∈ quotedUnit := by
        refine .inl ⟨character, ?_, rfl⟩
        simp [notBackslash]
        exact notQuote
      have passed := quotedLength?_append unit rest
      obtain ⟨shorter, foundRest, rfl⟩ := Option.map_eq_some_iff.mp (passed.symm.trans found)
      obtain ⟨closed, behind, belongs, rfl, rfl⟩ := ih foundRest
      exact ⟨_, behind, append_mem_quotedRest unit belongs, rfl, rfl⟩

/-- What the scanner takes as the rest of a quoted text is one, with its closing quote. -/
theorem take_mem_quotedRest {text : List Char} {length : Nat}
    (found : quotedLength? text = some length) :
    length ≤ text.length ∧ text.take length ∈ quotedRest := by
  obtain ⟨closed, rest, belongs, rfl, rfl⟩ := exists_of_quotedLength? found
  rw [List.take_left, List.length_append]
  exact ⟨Nat.le_add_right _ _, belongs⟩

/-! ### The scanner -/

theorem nonemptyRun?_eq_some_iff {kind other : TokenKind} {run length : Nat} :
    nonemptyRun? kind run = some (other, length) ↔ run ≠ 0 ∧ kind = other ∧ run = length := by
  unfold nonemptyRun?
  split <;> simp_all

/-- What the scanner takes is a token of the kind that it says. -/
theorem mem_language_of_scan? {first : Char} {following : List Char} {kind : TokenKind}
    {length : Nat} (scanned : scan? first following = some (kind, length)) :
    length ≤ following.length ∧ first :: following.take length ∈ kind.language := by
  -- The tests of the scanner one after the other, in its own order.
  unfold scan? at scanned
  split at scanned
  next parenthesis =>
    cases scanned
    exact ⟨Nat.zero_le _, congrArg (fun character => [character]) parenthesis⟩
  split at scanned
  next parenthesis =>
    cases scanned
    exact ⟨Nat.zero_le _, congrArg (fun character => [character]) parenthesis⟩
  split at scanned
  next comma =>
    cases scanned
    exact ⟨Nat.zero_le _, congrArg (fun character => [character]) comma⟩
  split at scanned
  next quote =>
    obtain ⟨_, found, same⟩ := Option.map_eq_some_iff.mp scanned
    cases same
    obtain ⟨short, belongs⟩ := take_mem_quotedRest found
    exact ⟨short, mem_string_iff.mpr ⟨_, belongs, congrArg (· :: _) quote⟩⟩
  split at scanned
  next colon =>
    split at scanned
    next body =>
      obtain ⟨_, found, same⟩ := Option.map_eq_some_iff.mp scanned
      cases same
      obtain ⟨short, belongs⟩ := take_mem_quotedRest found
      exact ⟨Nat.succ_le_succ short,
        mem_quotedSymbol_iff.mpr ⟨_, belongs, congrArg (· :: _) colon⟩⟩
    next =>
      obtain ⟨filled, rfl, rfl⟩ := nonemptyRun?_eq_some_iff.mp scanned
      exact ⟨runLength_le _ _,
        mem_symbol_iff.mpr ⟨_, take_runLength_mem_someOf filled, congrArg (· :: _) colon⟩⟩
  split at scanned
  next minus =>
    obtain ⟨filled, rfl, rfl⟩ := nonemptyRun?_eq_some_iff.mp scanned
    exact ⟨runLength_le _ _,
      mem_integer_iff.mpr ⟨_, take_runLength_mem_someOf filled, .inr (congrArg (· :: _) minus)⟩⟩
  split at scanned
  next digit =>
    cases scanned
    have later := forall_mem_take_runLength Char.isDigit following
    have digits :
        first :: following.take (runLength Char.isDigit following) ∈ someOf Char.isDigit :=
      mem_someOf_iff.mpr ⟨List.cons_ne_nil _ _, List.forall_mem_cons.mpr ⟨digit, later⟩⟩
    exact ⟨runLength_le _ _, mem_integer_iff.mpr ⟨_, digits, .inl rfl⟩⟩
  split at scanned
  next start =>
    cases scanned
    exact ⟨runLength_le _ _,
      mem_identifier_iff.mpr ⟨first, _, start, forall_mem_take_runLength _ _, rfl⟩⟩
  next => cases scanned

/-- A colon and a name make a symbol that goes on as far as it can. -/
theorem scan?_colon {name : List Char} (belongs : name ∈ someOf isSymbolPart) (rest : List Char) :
    scan? ':' (name ++ rest) = some (.symbol, runLength isSymbolPart (name ++ rest)) := by
  have some := runLength_ne_zero belongs rest
  obtain ⟨filled, inside⟩ := mem_someOf_iff.mp belongs
  obtain ⟨first, more, rfl⟩ := List.exists_cons_of_ne_nil filled
  have notQuote : first ≠ '"' := ne_of_belongs (inside first List.mem_cons_self) rfl
  have scanned : scan? ':' (first :: more ++ rest) =
      nonemptyRun? .symbol (runLength isSymbolPart (first :: more ++ rest)) := by
    simp [scan?, notQuote]
  rw [scanned]
  exact nonemptyRun?_eq_some_iff.mpr ⟨some, rfl, rfl⟩

/-- A minus sign and digits make an integer that goes on as far as it can. -/
theorem scan?_minus {digits : List Char} (belongs : digits ∈ someOf Char.isDigit)
    (rest : List Char) :
    scan? '-' (digits ++ rest) = some (.integer, runLength Char.isDigit (digits ++ rest)) :=
  nonemptyRun?_eq_some_iff.mpr ⟨runLength_ne_zero belongs rest, rfl, rfl⟩

/-- Where a token of a kind begins, the scanner finds that kind and takes all of that token, and behind
it what the token goes on with. -/
theorem scan?_of_mem_language {kind : TokenKind} {first : Char} {more : List Char}
    (belongs : first :: more ∈ kind.language) (rest : List Char) :
    scan? first (more ++ rest) = some (kind, more.length + runLength kind.goesOn rest) := by
  have whole (closed : kind.goesOn = fun _ => false) :
      more.length = more.length + runLength kind.goesOn rest := by
    rw [closed, runLength_eq_zero_iff.mpr fun _ _ => rfl, Nat.add_zero]
  cases kind with
  | leftParenthesis =>
      cases belongs
      rw [← whole rfl]
      rfl
  | rightParenthesis =>
      cases belongs
      rw [← whole rfl]
      rfl
  | comma =>
      cases belongs
      rw [← whole rfl]
      rfl
  | symbol =>
      obtain ⟨name, inside, same⟩ := mem_symbol_iff.mp belongs
      cases same
      rw [scan?_colon inside, runLength_run_append (mem_someOf_iff.mp inside).2]
      rfl
  | quotedSymbol =>
      obtain ⟨closed, inside, same⟩ := mem_quotedSymbol_iff.mp belongs
      cases same
      have scanned : scan? ':' ('"' :: closed ++ rest) =
          (.quotedSymbol, · + 1) <$> quotedLength? (closed ++ rest) := rfl
      rw [scanned, quotedLength?_of_mem inside, ← whole rfl]
      rfl
  | string =>
      obtain ⟨_, inside, same⟩ := mem_string_iff.mp belongs
      cases same
      have scanned : scan? '"' (more ++ rest) =
          (.string, ·) <$> quotedLength? (more ++ rest) := rfl
      rw [scanned, quotedLength?_of_mem inside, ← whole rfl]
      rfl
  | integer =>
      obtain ⟨digits, inside, rfl | same⟩ := mem_integer_iff.mp belongs
      · obtain ⟨digit, later⟩ := List.forall_mem_cons.mp (mem_someOf_iff.mp inside).2
        rw [scan?_of_isDigit digit, runLength_run_append later]
        rfl
      · cases same
        rw [scan?_minus inside, runLength_run_append (mem_someOf_iff.mp inside).2]
        rfl
  | identifier =>
      obtain ⟨_, _, start, inside, same⟩ := mem_identifier_iff.mp belongs
      cases same
      rw [scan?_of_isWordStart start, runLength_run_append inside]
      rfl

/-- No kind has an empty token. -/
theorem TokenKind.exists_cons_of_mem {kind : TokenKind} {text : List Char}
    (belongs : text ∈ kind.language) : ∃ first more, text = first :: more := by
  cases kind with
  | leftParenthesis => exact ⟨_, _, belongs⟩
  | rightParenthesis => exact ⟨_, _, belongs⟩
  | comma => exact ⟨_, _, belongs⟩
  | symbol =>
      obtain ⟨name, _, rfl⟩ := mem_symbol_iff.mp belongs
      exact ⟨_, _, rfl⟩
  | quotedSymbol =>
      obtain ⟨closed, _, rfl⟩ := mem_quotedSymbol_iff.mp belongs
      exact ⟨_, _, rfl⟩
  | string =>
      obtain ⟨closed, _, rfl⟩ := mem_string_iff.mp belongs
      exact ⟨_, _, rfl⟩
  | integer =>
      obtain ⟨digits, inside, rfl | rfl⟩ := mem_integer_iff.mp belongs
      · exact List.exists_cons_of_ne_nil (mem_someOf_iff.mp inside).1
      · exact ⟨_, _, rfl⟩
  | identifier =>
      obtain ⟨first, rest, _, _, rfl⟩ := mem_identifier_iff.mp belongs
      exact ⟨_, _, rfl⟩

/-- No token starts with a blank. -/
theorem scan?_of_isBlank {first : Char} (blank : isBlank first = true) (following : List Char) :
    scan? first following = none := by
  simp only [isBlank, Bool.or_eq_true, beq_iff_eq] at blank
  rcases blank with ((rfl | rfl) | rfl) | rfl <;> rfl

/-- No token begins with a blank. -/
theorem TokenKind.isBlank_eq_false {kind : TokenKind} {first : Char} {more : List Char}
    (belongs : first :: more ∈ kind.language) : isBlank first = false := by
  have scanned := scan?_of_mem_language belongs []
  rw [← Bool.not_eq_true]
  intro blank
  rw [scan?_of_isBlank blank] at scanned
  cases scanned

/-- No text is a token of two kinds. -/
theorem TokenKind.eq_of_mem_language {kind other : TokenKind} {text : List Char}
    (belongs : text ∈ kind.language) (belongsOther : text ∈ other.language) : kind = other := by
  obtain ⟨first, more, rfl⟩ := exists_cons_of_mem belongs
  have scanned := scan?_of_mem_language belongs []
  rw [scan?_of_mem_language belongsOther []] at scanned
  cases scanned
  rfl

/-! ### Longest matches -/

/-- A token that an input begins with, and as long as any other token, of whatever kind, that it
begins with. -/
structure LongestMatch (kind : TokenKind) (text input : List Char) : Prop where
  begins : text <+: input
  belongs : text ∈ kind.language
  longest : ∀ (other : TokenKind) (rival : List Char), rival <+: input → rival ∈ other.language →
    rival.length ≤ text.length

/-- What the scanner takes is the longest token that any rule gives at that place. -/
theorem longestMatch_of_scan? {first : Char} {following : List Char} {kind : TokenKind}
    {length : Nat} (scanned : scan? first following = some (kind, length)) :
    LongestMatch kind (first :: following.take length) (first :: following) := by
  obtain ⟨short, belongs⟩ := mem_language_of_scan? scanned
  refine ⟨?_, belongs, fun other rival begins belongsRival => ?_⟩
  · exact List.cons_prefix_cons.mpr ⟨rfl, List.take_prefix _ _⟩
  · obtain ⟨head, more, rfl⟩ := TokenKind.exists_cons_of_mem belongsRival
    obtain ⟨rfl, rest, rfl⟩ := List.cons_prefix_cons.mp begins
    have scannedRival := scan?_of_mem_language belongsRival rest
    rw [scanned] at scannedRival
    cases scannedRival
    simp

/-- The longest token that any rule gives is what the scanner takes. -/
theorem scan?_of_longestMatch {first : Char} {more rest : List Char} {kind : TokenKind}
    (matched : LongestMatch kind (first :: more) (first :: (more ++ rest))) :
    scan? first (more ++ rest) = some (kind, more.length) := by
  have scanned := scan?_of_mem_language matched.belongs rest
  have taken := longestMatch_of_scan? scanned
  have atMost := matched.longest kind _ taken.begins taken.belongs
  have short := (mem_language_of_scan? scanned).1
  have none : runLength kind.goesOn rest = 0 := by
    simp only [List.length_cons, List.length_take] at atMost
    omega
  rw [scanned, none, Nat.add_zero]

/-- The scanner gives up exactly where no token of any kind begins. -/
theorem scan?_eq_none_iff {first : Char} {following : List Char} :
    scan? first following = none ↔
      ∀ (kind : TokenKind) (text : List Char),
        text <+: first :: following → text ∉ kind.language := by
  constructor
  · intro none kind text begins belongs
    obtain ⟨head, more, rfl⟩ := TokenKind.exists_cons_of_mem belongs
    obtain ⟨rfl, rest, rfl⟩ := List.cons_prefix_cons.mp begins
    have scanned := scan?_of_mem_language belongs rest
    rw [none] at scanned
    cases scanned
  · intro nothing
    cases scanned : scan? first following with
    | none => rfl
    | some found =>
        have matched := longestMatch_of_scan? scanned
        exact absurd matched.belongs (nothing _ _ matched.begins)

end StringForms.Sexp
