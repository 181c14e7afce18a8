/-
Module: StringForms.Node.Kind
Purpose: The closed set of node kinds, their tags and their order.
Main exports: NameSort, Word, Word.text, Kind, Kind.all, Kind.tag, Kind.ofTag?, Kind.isFlat, Kind.index
-/

namespace StringForms

/-- The kinds of node whose whole content is one name. -/
inductive NameSort where
  | ivar
  | cvar
  | gvar
  | backRef
  | lvar
  | sym
deriving Repr, Inhabited, DecidableEq

/-- The kinds of node that have no content. -/
inductive Word where
  | nil
  | truth
  | falsehood
  | self
deriving Repr, Inhabited, DecidableEq

/-- How a node without content is written, in its tag as in the source. -/
def Word.text : Word → String
  | .nil => "nil"
  | .truth => "true"
  | .falsehood => "false"
  | .self => "self"

/-- What a node is: literal text, an interpolated string, a splice, or one of the expressions that
can stand in a splice. -/
inductive Kind where
  | str
  | dstr
  | begin
  | name (sort : NameSort)
  | nthRef
  | int
  | word (which : Word)
  | const
  | send
deriving Repr, Inhabited, DecidableEq

namespace Kind

/-- Every kind once, the structural ones first. -/
def all : List Kind :=
  [.str, .dstr, .begin, .name .ivar, .name .cvar, .name .gvar, .nthRef, .name .backRef,
   .name .lvar, .int, .name .sym, .word .nil, .word .truth, .word .falsehood, .word .self,
   .const, .send]

/-- The tag that names a kind in the written form of a node. -/
def tag : Kind → String
  | .str => "str"
  | .dstr => "dstr"
  | .begin => "begin"
  | .name .ivar => "ivar"
  | .name .cvar => "cvar"
  | .name .gvar => "gvar"
  | .nthRef => "nth_ref"
  | .name .backRef => "back_ref"
  | .name .lvar => "lvar"
  | .int => "int"
  | .name .sym => "sym"
  | .word which => which.text
  | .const => "const"
  | .send => "send"

/-- The kind with a given tag. -/
def ofTag? (text : String) : Option Kind :=
  all.find? fun kind => kind.tag == text

/-- The place of a kind in the list of all kinds, counted from zero. -/
def index (kind : Kind) : Nat :=
  all.idxOf kind

/-- Whether a node of this kind may follow a `#` in a string without braces. -/
def isFlat : Kind → Bool
  | .name .ivar | .name .cvar | .name .gvar | .nthRef => true
  | _ => false

/-- No kind is missing from the list of all. -/
theorem mem_all (kind : Kind) : kind ∈ all := by
  cases kind with
  | name sort => cases sort <;> decide
  | word which => cases which <;> decide
  | _ => decide

/-- A tag names one kind only. -/
theorem ofTag?_tag (kind : Kind) : ofTag? kind.tag = some kind := by
  cases kind with
  | name sort => cases sort <;> decide
  | word which => cases which <;> decide
  | _ => decide

/-- The kind that a text is the tag of has that tag. -/
theorem tag_of_ofTag? {text : String} {kind : Kind} (found : ofTag? text = some kind) :
    kind.tag = text := by
  simpa using List.find?_some found

end Kind

end StringForms
