/-
Module: StringForms.Proofs.Files.Tree
Purpose: What stands at each place of a tree, what the calls of a program put there, and when they
  fail.
Main exports: Content, Entry.contentAt, Entry.Passable, Entry.alter_of_standing,
  Entry.makeDirectories_of_passable, Entry.makeDirectories_of_not_passable,
  Entry.writeFile_of_admitted, Entry.readText_toUTF8
-/
import StringForms.Proofs.Except
import StringForms.Files.Tree

namespace StringForms.Files

/-!
A place is a list of names. What a tree is comes down to what stands at its places: a file with its
bytes, a directory, or nothing. The order in which a directory keeps its members, and members behind
one of the same name, cannot be seen in this way, nor by anything that looks names up.

A call finds the directory it works in, or it finds that this directory is missing, or that a file is
on the way to it. Only in the first case does it matter what the call is for.
-/

/-- What can stand at a place. -/
inductive Content where
  | file (bytes : ByteArray)
  | directory

section Members

variable {Value : Type} {name other : String} {value : Value} {members : List (String × Value)}

/-- The first value of a name is the one that is looked up. -/
theorem lookup_cons_eq_ite : ((name, value) :: members).lookup other =
    if other = name then some value else members.lookup other := by
  by_cases same : other = name
  · simp [same]
  · rw [List.lookup_cons, beq_false_of_ne same, if_neg same]

/-- Setting a name changes what is looked up under it, and under no other name. -/
theorem lookup_setNamed : (setNamed name value members).lookup other =
    if other = name then some value else members.lookup other := by
  induction members with
  | nil => exact lookup_cons_eq_ite
  | cons head rest ih =>
      obtain ⟨first, old⟩ := head
      rw [setNamed]
      by_cases found : first = name
      · subst found
        rw [if_pos rfl]
        simp only [lookup_cons_eq_ite]
        split <;> rfl
      · rw [if_neg found, lookup_cons_eq_ite, ih, lookup_cons_eq_ite]
        by_cases same : other = first
        · simp [same, found]
        · simp [same]

end Members

namespace Entry

variable {tree : Entry} {bytes : ByteArray} {members : List (String × Entry)} {name : String}
  {names place parents : List String}

/-- What an entry is, without its members. -/
def content : Entry → Content
  | .file bytes => .file bytes
  | .directory _ => .directory

/-- What stands at a place. -/
def contentAt (tree : Entry) (names : List String) : Option Content :=
  (tree.find? names).map content

@[simp] theorem contentAt_nil : tree.contentAt [] = some tree.content := by
  rw [contentAt, find?.eq_1, Option.map_some]

theorem find?_of_contentAt_file (stands : tree.contentAt names = some (.file bytes)) :
    tree.find? names = some (.file bytes) := by
  obtain ⟨entry, found, same⟩ := Option.map_eq_some_iff.mp stands
  cases entry with
  | file old => rw [found, Content.file.inj same]
  | directory members => cases same

/-- Inside a directory one looks under the first name. -/
theorem contentAt_directory_cons : (directory members).contentAt (name :: names) =
    (members.lookup name).bind (contentAt · names) := by
  rw [contentAt, find?]
  cases members.lookup name with
  | none => rfl
  | some member => rfl

/-- Nothing is below a name that is not there. -/
theorem contentAt_of_lookup_eq_none (missing : members.lookup name = none) :
    (directory members).contentAt (name :: names) = none := by
  rw [contentAt_directory_cons, missing, Option.bind_none]

theorem contentAt_of_lookup {member : Entry} (found : members.lookup name = some member) :
    (directory members).contentAt (name :: names) = member.contentAt names := by
  rw [contentAt_directory_cons, found, Option.bind_some]

/-- A member that is set shows below its name, and a directory shows as before elsewhere. -/
theorem contentAt_setNamed {new : Entry} : (directory (setNamed name new members)).contentAt place =
    if [name] <+: place then new.contentAt (place.drop 1)
    else (directory members).contentAt place := by
  cases place with
  | nil => simp [content]
  | cons next place =>
      rw [contentAt_directory_cons, lookup_setNamed, contentAt_directory_cons]
      by_cases same : next = name
      · simp [same]
      · simp [same, Ne.symm same]

/-- What has something below it is a directory. -/
theorem contentAt_eq_directory_of_below {below : List String} (filled : below ≠ [])
    (stands : tree.contentAt (names ++ below) ≠ none) : tree.contentAt names = some .directory := by
  induction names generalizing tree with
  | nil =>
      obtain ⟨next, rest, rfl⟩ := List.exists_cons_of_ne_nil filled
      cases tree with
      | file bytes => exact absurd rfl stands
      | directory members => rfl
  | cons name names ih =>
      cases tree with
      | file bytes => exact absurd rfl stands
      | directory members =>
          cases found : members.lookup name with
          | none => exact absurd (contentAt_of_lookup_eq_none found) stands
          | some member =>
              rw [List.cons_append, contentAt_of_lookup found] at stands
              rw [contentAt_of_lookup found, ih stands]

/-- On the way to a directory that stands there are directories only. -/
theorem contentAt_on_way (standing : tree.contentAt names = some .directory)
    (under : place <+: names) : tree.contentAt place = some .directory := by
  obtain ⟨below, rfl⟩ := under
  by_cases last : below = []
  · rw [last, List.append_nil] at standing
    exact standing
  · exact contentAt_eq_directory_of_below last (by rw [standing]; exact nofun)

theorem contentAt_eq_ite_of_standing (standing : tree.contentAt names = some .directory) :
    tree.contentAt place =
      if place <+: names then some .directory else tree.contentAt place := by
  split
  · exact contentAt_on_way standing ‹_›
  · rfl

/-! ### Ways -/

/-- No file stands at a place or on the way to it. -/
def Passable (tree : Entry) (names : List String) : Prop :=
  ∀ above, above <+: names → ∀ bytes, tree.contentAt above ≠ some (.file bytes)

theorem not_passable_file : ¬(file bytes).Passable names := by
  intro passable
  exact passable [] List.nil_prefix bytes rfl

theorem passable_nil : (directory members).Passable [] := by
  intro above under bytes
  rw [List.prefix_nil.mp under, contentAt_nil]
  exact fun same => Content.noConfusion (Option.some.inj same)

theorem passable_cons : (directory members).Passable (name :: names) ↔
    ∀ member, members.lookup name = some member → member.Passable names := by
  constructor
  · intro passable member found above under bytes
    rw [← contentAt_of_lookup found]
    exact passable _ (List.cons_prefix_cons.mpr ⟨rfl, under⟩) bytes
  · intro passable above under bytes
    cases above with
    | nil => exact passable_nil [] List.nil_prefix bytes
    | cons first above =>
        obtain ⟨rfl, inside⟩ := List.cons_prefix_cons.mp under
        cases found : members.lookup first with
        | none => simp [contentAt_of_lookup_eq_none found]
        | some member =>
            rw [contentAt_of_lookup found]
            exact passable member found above inside bytes

/-- No file is on the way to a directory that stands. -/
theorem passable_of_standing (standing : tree.contentAt names = some .directory) :
    tree.Passable names := by
  intro above under bytes
  rw [contentAt_on_way standing under]
  exact nofun

/-! ### Calls -/

section Calls

variable {change : Option Entry → Except FileError Entry}

/-- A change below a member is a change of that member, and its siblings stay. -/
theorem alter_of_lookup {member : Entry} (found : members.lookup name = some member) :
    (directory members).alter change (name :: names) =
      (fun new => directory (setNamed name new members)) <$> member.alter change names := by
  rw [alter]
  simp only [found]

/-- In a directory that stands, a call does what it is for. What it puts there shows at its place and
below, and everything else is as before. -/
theorem alter_of_standing (change : Option Entry → Except FileError Entry) (name : String)
    (stands : tree.contentAt parents = some .directory) :
    ∃ put : Entry → Entry,
      tree.alter change (parents ++ [name]) = put <$> change (tree.find? (parents ++ [name])) ∧
      ∀ new place, (put new).contentAt place =
        if parents ++ [name] <+: place then new.contentAt (place.drop (parents.length + 1))
        else tree.contentAt place := by
  -- On the way down one member is replaced at each level, and looking elsewhere does not meet it.
  induction parents generalizing tree with
  | nil =>
      cases tree with
      | file bytes => cases stands
      | directory members =>
          refine ⟨fun new => directory (setNamed name new members), ?_, ?_⟩
          · cases found : members.lookup name with
            | none => simp only [List.nil_append, alter, find?, found]
            | some member =>
                rw [List.nil_append, alter_of_lookup found]
                simp only [alter, find?, found]
          · intro new place
            exact contentAt_setNamed
  | cons first parents ih =>
      cases tree with
      | file bytes => cases stands
      | directory members =>
          cases found : members.lookup first with
          | none =>
              rw [contentAt_of_lookup_eq_none found] at stands
              cases stands
          | some member =>
              rw [contentAt_of_lookup found] at stands
              obtain ⟨put, altered, shows⟩ := ih stands
              have finds : (directory members).find? (first :: (parents ++ [name])) =
                  member.find? (parents ++ [name]) := by
                simp only [find?, found]
              refine ⟨fun new => directory (setNamed first (put new) members), ?_, ?_⟩
              · rw [List.cons_append, alter_of_lookup found, altered, finds]
                cases change (member.find? (parents ++ [name])) <;> rfl
              · intro new place
                rw [contentAt_setNamed]
                by_cases under : [first] <+: place
                · obtain ⟨below, rfl⟩ := under
                  simp [shows, contentAt_of_lookup found]
                · have outside : ¬first :: (parents ++ [name]) <+: place :=
                    fun whole => under ((List.prefix_append [first] _).trans whole)
                  rw [if_neg under, List.cons_append, if_neg outside]

/-- A call fails where the directory to work in is missing. -/
theorem alter_of_missing (missing : tree.contentAt parents = none)
    (passable : tree.Passable parents) :
    tree.alter change (parents ++ [name]) = .error .notFound := by
  induction parents generalizing tree with
  | nil => cases missing
  | cons first parents ih =>
      cases tree with
      | file bytes => exact absurd passable not_passable_file
      | directory members =>
          cases found : members.lookup first with
          | none => cases parents <;> simp [alter, found]
          | some member =>
              rw [contentAt_of_lookup found] at missing
              have inner := ih missing (passable_cons.mp passable member found)
              rw [List.cons_append, alter_of_lookup found, inner]
              rfl

/-- A call fails in another way where a file is on the way to that directory or in its place. -/
theorem alter_of_not_passable (blocked : ¬tree.Passable parents) :
    tree.alter change (parents ++ [name]) = .error .notADirectory := by
  induction parents generalizing tree with
  | nil =>
      cases tree with
      | file bytes => rfl
      | directory members => exact absurd passable_nil blocked
  | cons first parents ih =>
      cases tree with
      | file bytes => rfl
      | directory members =>
          rw [passable_cons] at blocked
          obtain ⟨member, blocked⟩ := not_forall.mp blocked
          obtain ⟨found, blockedInside⟩ := Classical.not_imp.mp blocked
          rw [List.cons_append, alter_of_lookup found, ih blockedInside]
          rfl

/-- A call that puts something without members where no directory is changes its own place only. -/
theorem alter_of_leaf (new : Entry) (stands : tree.contentAt parents = some .directory)
    (free : tree.contentAt (parents ++ [name]) ≠ some .directory)
    (leaf : ∀ below, below ≠ [] → new.contentAt below = none)
    (admitted : change (tree.find? (parents ++ [name])) = .ok new) :
    ∃ after, tree.alter change (parents ++ [name]) = .ok after ∧
      ∀ place, after.contentAt place =
        if place = parents ++ [name] then some new.content else tree.contentAt place := by
  obtain ⟨put, altered, shows⟩ := alter_of_standing change name stands
  rw [admitted] at altered
  refine ⟨put new, altered, ?_⟩
  intro place
  rw [shows]
  by_cases own : place = parents ++ [name]
  · subst own
    simp
  · rw [if_neg own]
    split
    · rename_i under
      obtain ⟨below, rfl⟩ := under
      have filled : below ≠ [] := by
        rintro rfl
        exact own (List.append_nil _)
      have nothing : tree.contentAt (parents ++ [name] ++ below) = none := by
        by_contra some
        exact free (contentAt_eq_directory_of_below filled some)
      have behind : (parents ++ [name] ++ below).drop (parents.length + 1) = below := by simp
      rw [nothing, behind]
      exact leaf below filled
    · rfl

end Calls

/-! ### Making directories -/

/-- A directory can be made in one that stands, where nothing is. -/
theorem makeDirectory_of_free (stands : tree.contentAt parents = some .directory)
    (free : tree.contentAt (parents ++ [name]) = none) :
    ∃ made, tree.makeDirectory (parents ++ [name]) = .ok made ∧
      ∀ place, made.contentAt place =
        if place = parents ++ [name] then some .directory else tree.contentAt place := by
  have nothing : tree.find? (parents ++ [name]) = none := Option.map_eq_none_iff.mp free
  apply alter_of_leaf (directory []) stands
  · rw [free]
    exact nofun
  · intro below filled
    obtain ⟨first, rest, rfl⟩ := List.exists_cons_of_ne_nil filled
    rfl
  · rw [nothing]

/-- Nothing is made where something stands. -/
theorem makeDirectory_of_taken (taken : tree.contentAt (parents ++ [name]) ≠ none) :
    tree.makeDirectory (parents ++ [name]) = .error .alreadyExists := by
  have stands := contentAt_eq_directory_of_below (List.cons_ne_nil name []) taken
  obtain ⟨put, altered, -⟩ := alter_of_standing _ name stands
  rw [makeDirectory, altered]
  cases found : tree.find? (parents ++ [name]) with
  | none => exact absurd (Option.map_eq_none_iff.mpr found) taken
  | some entry => rfl

/-- The test for a directory looks at what stands at the place. -/
theorem isDirectory_iff :
    tree.isDirectory names = true ↔ tree.contentAt names = some .directory := by
  unfold isDirectory contentAt
  cases tree.find? names with
  | none => simp
  | some entry => cases entry <;> simp [content]

theorem provideDirectory_of_made {made : Entry} (success : tree.makeDirectory names = .ok made) :
    tree.provideDirectory names = (.ok (), made) := by
  simp only [provideDirectory, success]

/-- A directory that cannot be made, and does not stand yet, is an error that leaves the tree. -/
theorem provideDirectory_of_refused {cause : FileError}
    (refused : tree.makeDirectory names = .error cause)
    (other : tree.contentAt names ≠ some .directory) :
    tree.provideDirectory names = (.error cause, tree) := by
  simp only [provideDirectory, refused]
  exact if_neg (mt isDirectory_iff.mp other)

/-- A directory that stands already is provided as it is. -/
theorem provideDirectory_of_standing
    (standing : tree.contentAt (parents ++ [name]) = some .directory) :
    tree.provideDirectory (parents ++ [name]) = (.ok (), tree) := by
  have refused := makeDirectory_of_taken (by rw [standing]; exact nofun)
  simp only [provideDirectory, refused]
  exact if_pos (isDirectory_iff.mpr standing)

section MakeDirectories

variable {start : List String}

/-- Where the last directory has something to stand in, or never will have, no other is made. -/
theorem makeDirectories_cons_of_ne (names : List String)
    (answered : tree.makeDirectory (start ++ names.reverse ++ [name]) ≠ .error .notFound) :
    tree.makeDirectories start (name :: names) =
      tree.provideDirectory (start ++ names.reverse ++ [name]) := by
  rw [makeDirectories]
  simp only [List.reverse_cons, ← List.append_assoc]

/-- Where the last directory has nothing to stand in, those above it are made first. -/
theorem makeDirectories_cons_of_missing {made : Entry}
    (missing : tree.makeDirectory (start ++ names.reverse ++ [name]) = .error .notFound)
    (above : tree.makeDirectories start names = (.ok (), made)) :
    tree.makeDirectories start (name :: names) =
      made.provideDirectory (start ++ names.reverse ++ [name]) := by
  rw [makeDirectories]
  simp only [List.reverse_cons, ← List.append_assoc, missing, above]

/-- Where all of them stand already, making them leaves the tree alone. -/
theorem makeDirectories_eq_self
    (standing : tree.contentAt (start ++ names.reverse) = some .directory) :
    tree.makeDirectories start names = (.ok (), tree) := by
  cases names with
  | nil => rfl
  | cons name names =>
      rw [List.reverse_cons, ← List.append_assoc] at standing
      have refused := makeDirectory_of_taken (by rw [standing]; exact nofun)
      rw [makeDirectories_cons_of_ne names (by rw [refused]; exact nofun)]
      exact provideDirectory_of_standing standing

/-- A directory is made below those that have been made on the way to it. -/
theorem exists_provideDirectory {before : Entry} (free : tree.contentAt (parents ++ [name]) = none)
    (shows : ∀ place, before.contentAt place =
      if place <+: parents then some .directory else tree.contentAt place) :
    ∃ made, before.provideDirectory (parents ++ [name]) = (.ok (), made) ∧
      ∀ place, made.contentAt place =
        if place <+: parents ++ [name] then some .directory else tree.contentAt place := by
  have stands : before.contentAt parents = some .directory := by
    rw [shows, if_pos List.prefix_rfl]
  have freeBefore : before.contentAt (parents ++ [name]) = none := by
    rw [shows, if_neg, free]
    exact fun under => absurd under.length_le (by simp)
  obtain ⟨made, success, showsMade⟩ := makeDirectory_of_free stands freeBefore
  refine ⟨made, provideDirectory_of_made success, ?_⟩
  intro place
  rw [showsMade, shows]
  by_cases own : place = parents ++ [name]
  · rw [if_pos own, if_pos (own ▸ List.prefix_rfl)]
  · simp only [List.prefix_concat_iff, own, false_or, if_false]

/-- The directories of a path are made where no file is on the way. What stands on it are directories
then, and everything else is as before. -/
theorem makeDirectories_of_passable (names : List String)
    (stands : tree.contentAt start = some .directory)
    (passable : tree.Passable (start ++ names.reverse)) :
    ∃ made, tree.makeDirectories start names = (.ok (), made) ∧
      ∀ place, made.contentAt place =
        if place <+: start ++ names.reverse then some .directory else tree.contentAt place := by
  -- From the top of the path down, so that the directories above the last one are there.
  induction names with
  | nil =>
      rw [List.reverse_nil, List.append_nil]
      exact ⟨tree, rfl, fun place => contentAt_eq_ite_of_standing stands⟩
  | cons name names ih =>
      rw [List.reverse_cons, ← List.append_assoc] at passable ⊢
      have passableAbove : tree.Passable (start ++ names.reverse) :=
        fun above under => passable above (under.trans (List.prefix_append _ _))
      cases standing : tree.contentAt (start ++ names.reverse ++ [name]) with
      | some found =>
          cases found with
          | file bytes => exact absurd standing (passable _ List.prefix_rfl bytes)
          | directory =>
              refine ⟨tree, ?_, fun place => contentAt_eq_ite_of_standing standing⟩
              apply makeDirectories_eq_self
              rw [List.reverse_cons, ← List.append_assoc]
              exact standing
      | none =>
          cases above : tree.contentAt (start ++ names.reverse) with
          | some found =>
              cases found with
              | file bytes => exact absurd above (passableAbove _ List.prefix_rfl bytes)
              | directory =>
                  obtain ⟨made, success, -⟩ := makeDirectory_of_free above standing
                  rw [makeDirectories_cons_of_ne names (by rw [success]; exact nofun)]
                  apply exists_provideDirectory standing
                  exact fun place => contentAt_eq_ite_of_standing above
          | none =>
              obtain ⟨before, success, shows⟩ := ih passableAbove
              rw [makeDirectories_cons_of_missing (alter_of_missing above passableAbove) success]
              exact exists_provideDirectory standing shows

/-- Where a file is on the way, none of the directories is made. -/
theorem makeDirectories_of_not_passable (names : List String)
    (stands : tree.contentAt start = some .directory)
    (blocked : ¬tree.Passable (start ++ names.reverse)) :
    ∃ cause, tree.makeDirectories start names = (.error cause, tree) := by
  cases names with
  | nil =>
      rw [List.reverse_nil, List.append_nil] at blocked
      exact absurd (passable_of_standing stands) blocked
  | cons name names =>
      rw [List.reverse_cons, ← List.append_assoc] at blocked
      have other : tree.contentAt (start ++ names.reverse ++ [name]) ≠ some .directory :=
        fun standing => blocked (passable_of_standing standing)
      have refused : ∃ cause, cause ≠ .notFound ∧
          tree.makeDirectory (start ++ names.reverse ++ [name]) = .error cause := by
        by_cases above : tree.Passable (start ++ names.reverse)
        · refine ⟨.alreadyExists, nofun, makeDirectory_of_taken ?_⟩
          intro free
          apply blocked
          intro place under bytes
          rcases List.prefix_concat_iff.mp under with rfl | upper
          · rw [free]
            exact nofun
          · exact above place upper bytes
        · exact ⟨.notADirectory, nofun, alter_of_not_passable above⟩
      obtain ⟨cause, known, refused⟩ := refused
      refine ⟨cause, ?_⟩
      rw [makeDirectories_cons_of_ne names (by rw [refused]; simpa using known)]
      exact provideDirectory_of_refused refused other

end MakeDirectories

/-! ### Writing a file -/

/-- In a directory that stands, a file is written where no directory is. It shows at its place, and
everything else is as before. -/
theorem writeFile_of_admitted (stands : tree.contentAt parents = some .directory)
    (free : tree.contentAt (parents ++ [name]) ≠ some .directory) :
    ∃ written, tree.writeFile bytes (parents ++ [name]) = .ok written ∧
      ∀ place, written.contentAt place =
        if place = parents ++ [name] then some (.file bytes) else tree.contentAt place := by
  apply alter_of_leaf (file bytes) stands free
  · intro below filled
    obtain ⟨first, rest, rfl⟩ := List.exists_cons_of_ne_nil filled
    rfl
  · unfold contentAt at free
    cases found : tree.find? (parents ++ [name]) with
    | none => rfl
    | some entry =>
        cases entry with
        | file old => rfl
        | directory members =>
            rw [found] at free
            exact absurd rfl free

/-- No file is written where a directory stands. -/
theorem writeFile_of_taken (taken : tree.contentAt (parents ++ [name]) = some .directory) :
    tree.writeFile bytes (parents ++ [name]) = .error .isADirectory := by
  have stands : tree.contentAt parents = some .directory :=
    contentAt_on_way taken (List.prefix_append parents [name])
  obtain ⟨put, altered, -⟩ := alter_of_standing _ name stands
  obtain ⟨entry, found, same⟩ := Option.map_eq_some_iff.mp taken
  rw [writeFile, altered, found]
  cases entry with
  | file old => cases same
  | directory members => rfl

/-! ### Reading a text -/

/-- A text that was written is read back. -/
theorem readText_toUTF8 (text : String) : (file text.toUTF8).readText = .ok text := by
  have valid : String.fromUTF8? text.toUTF8 = some text := by
    rw [String.fromUTF8?]
    exact dif_pos text.isValidUTF8
  rw [readText, valid]

end Entry

end StringForms.Files
