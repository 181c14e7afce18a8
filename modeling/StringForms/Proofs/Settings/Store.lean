/-
Module: StringForms.Proofs.Settings.Store
Purpose: What saving settings does to a tree, and what a row of saves leaves to be loaded.
Main exports: documented_standard, ofText?_widthLine, loadFrom_of_contentAt, IsAbove, Admits, Stored,
  exists_stored, saveTo_cases, Save, runSaves, lastTo, contentAt_runSaves, saves_keep_the_last
-/
import StringForms.Proofs.Files.Path
import StringForms.Proofs.Files.Tree
import StringForms.Proofs.Toml.Document
import StringForms.Settings.Store

namespace StringForms.Settings

open Files Text

/-!
Saves may come in any order and to any places: one may need a directory where another has put a file,
or put a file where another has made a directory. Such a save fails before it changes anything, so
that what was saved last at a place stays there until the next save that succeeds at the same place.

The library for documents may be any that keeps what is documented of it. The working directory may be
any that there is.
-/

/-! ### The text of settings -/

/-- The library that the program is run with keeps what is documented. -/
theorem documented_standard : Documented Toml.Codec.standard where
  print width := String.empty_append
  parse width := by
    have bare : ∀ character ∈ widthKey.toList, Toml.isKeyPart character = true :=
      List.all_eq_true.mp rfl
    have small : width.toNat < Nat.pow 2 128 :=
      Nat.lt_trans width.toNat_lt_size (by decide)
    exact Toml.document?_integer (by decide) bare small

section Texts

variable {codec : Toml.Codec} {working : List String}

/-- Settings are written as the line of their width. -/
theorem text_eq_widthLine (documented : Documented codec) (settings : Settings) :
    settings.text codec = widthLine settings.indentWidth :=
  documented.print settings.indentWidth

/-- Every width of 64 bits is read back from its line. -/
theorem ofText?_widthLine (documented : Documented codec) (settings : Settings) :
    ofText? codec (widthLine settings.indentWidth) = some settings := by
  have width := settings.indentWidth.toNat_lt_size
  have fits : 0 ≤ Int.ofNat settings.indentWidth.toNat ∧
      Int.ofNat settings.indentWidth.toNat < Int.ofNat UInt64.size :=
    ⟨Int.natCast_nonneg _, Int.ofNat_lt.mpr width⟩
  rw [ofText?, documented.parse, Option.bind_eq_bind, Option.bind_some]
  unfold ofEntries?
  rw [List.lookup_cons_self]
  simp only [if_pos fits]
  rw [Int.ofNat_eq_natCast, Int.toNat_natCast, UInt64.ofNat_toNat]

/-- Settings are loaded from where their line stands. -/
theorem loadFrom_of_contentAt {tree : Entry} {path : Path} {settings : Settings}
    (documented : Documented codec) (stands : tree.contentAt (path.place working) =
      some (.file (widthLine settings.indentWidth).toUTF8)) :
    loadFrom codec working tree path.text = .ok (some settings) := by
  rw [loadFrom, placeOf_text, Entry.find?_of_contentAt_file stands]
  simp only [Entry.readText_toUTF8, ofText?_widthLine documented]

end Texts

/-! ### One save -/

/-- A place on the way to another. -/
def IsAbove (above place : List String) : Prop :=
  above <+: place ∧ above ≠ place

instance (above place : List String) : Decidable (IsAbove above place) :=
  inferInstanceAs (Decidable (_ ∧ _))

/-- The places above a name in a directory are the directory and those above it. -/
theorem isAbove_concat_iff {above parents : List String} {name : String} :
    IsAbove above (parents ++ [name]) ↔ above <+: parents := by
  rw [IsAbove, List.prefix_concat_iff]
  constructor
  · rintro ⟨same | under, other⟩
    · exact absurd same other
    · exact under
  · intro under
    refine ⟨.inr under, ?_⟩
    rintro rfl
    exact absurd under.length_le (by simp)

/-- A file can be put at a place: no directory stands there and no file stands on the way. -/
structure Admits (tree : Entry) (place : List String) : Prop where
  free : tree.contentAt place ≠ some .directory
  passable : ∀ above, IsAbove above place → ∀ bytes, tree.contentAt above ≠ some (.file bytes)

/-- What a save that succeeds changes: the file at its place holds the line of the settings, what was
missing on the way to it has become a directory, and everything else is as before. -/
structure Stored (settings : Settings) (place : List String) (before after : Entry) : Prop where
  own : after.contentAt place = some (.file (widthLine settings.indentWidth).toUTF8)
  above : ∀ other, IsAbove other place → after.contentAt other = some .directory ∧
    (before.contentAt other = none ∨ before.contentAt other = some .directory)
  others : ∀ other, ¬other <+: place → after.contentAt other = before.contentAt other

/-- A directory that stands before a save stands after it. -/
theorem Stored.standing {settings : Settings} {place names : List String} {before after : Entry}
    (stored : Stored settings place before after) (admits : Admits before place)
    (standing : before.contentAt names = some .directory) :
    after.contentAt names = some .directory := by
  by_cases under : names <+: place
  · have other : names ≠ place := by
      rintro rfl
      exact admits.free standing
    exact (stored.above names ⟨under, other⟩).1
  · rw [stored.others names under]
    exact standing

/-- A place in a directory admits a file where no directory stands and the way there is free. -/
theorem admits_concat_iff {tree : Entry} {parents : List String} {name : String} :
    Admits tree (parents ++ [name]) ↔
      tree.contentAt (parents ++ [name]) ≠ some .directory ∧ tree.Passable parents := by
  constructor
  · rintro ⟨free, passable⟩
    exact ⟨free, fun above under => passable above (isAbove_concat_iff.mpr under)⟩
  · rintro ⟨free, passable⟩
    exact ⟨free, fun above under => passable above (isAbove_concat_iff.mp under)⟩

/-- The directories that are made and the file that is written in the last of them are all that a save
changes. -/
theorem stored_of_shows {tree made after : Entry} {parents : List String} {name : String}
    {settings : Settings} (passable : tree.Passable parents)
    (showsMade : ∀ place, made.contentAt place =
      if place <+: parents then some .directory else tree.contentAt place)
    (shows : ∀ place, after.contentAt place =
      if place = parents ++ [name] then some (.file (widthLine settings.indentWidth).toUTF8)
      else made.contentAt place) :
    Stored settings (parents ++ [name]) tree after := by
  constructor
  case own => rw [shows, if_pos rfl]
  case above =>
    intro place above
    have under := isAbove_concat_iff.mp above
    refine ⟨by rw [shows, if_neg above.2, showsMade, if_pos under], ?_⟩
    cases stands : tree.contentAt place with
    | none => exact .inl rfl
    | some found =>
        cases found with
        | directory => exact .inr rfl
        | file bytes => exact absurd stands (passable place under bytes)
  case others =>
    intro place apart
    have other : place ≠ parents ++ [name] := fun same => apart (same ▸ List.prefix_rfl)
    have outside : ¬place <+: parents := fun under => apart (under.trans (List.prefix_append _ _))
    rw [shows, if_neg other, showsMade, if_neg outside]

/-- Where the way is free and no directory stands, the directories are made and the file is written. -/
theorem exists_stored {tree : Entry} {start inner : List String} {name : String}
    (settings : Settings) (stands : tree.contentAt start = some .directory)
    (passable : tree.Passable (start ++ inner))
    (free : tree.contentAt (start ++ inner ++ [name]) ≠ some .directory) :
    ∃ made after, tree.makeDirectories start inner.reverse = (.ok (), made) ∧
      made.writeFile (widthLine settings.indentWidth).toUTF8 (start ++ inner ++ [name]) =
        .ok after ∧
      Stored settings (start ++ inner ++ [name]) tree after := by
  have unreversed : start ++ inner.reverse.reverse = start ++ inner := by
    rw [List.reverse_reverse]
  obtain ⟨made, success, showsMade⟩ :=
    Entry.makeDirectories_of_passable inner.reverse stands (unreversed ▸ passable)
  rw [unreversed] at showsMade
  have standsMade : made.contentAt (start ++ inner) = some .directory := by
    rw [showsMade, if_pos List.prefix_rfl]
  have freeMade : made.contentAt (start ++ inner ++ [name]) ≠ some .directory := by
    rw [showsMade, if_neg fun under => absurd under.length_le (by simp)]
    exact free
  obtain ⟨after, written, shows⟩ := Entry.writeFile_of_admitted standsMade freeMade
  exact ⟨made, after, success, written, stored_of_shows passable showsMade shows⟩

section Saves

variable {codec : Toml.Codec} {working : List String}

/-- A save succeeds where the tree admits it and changes nothing where not. -/
theorem saveTo_cases (documented : Documented codec) {tree : Entry}
    (sound : tree.contentAt working = some .directory) (path : Path) (settings : Settings) :
    (Admits tree (path.place working) ∧
      ∃ after, saveTo codec working tree path.text settings = (.ok (), after) ∧
        Stored settings (path.place working) tree after) ∨
    (¬Admits tree (path.place working) ∧
      ∃ cause, saveTo codec working tree path.text settings = (.error cause, tree)) := by
  obtain ⟨inner, name, split⟩ : ∃ inner name, path.names = inner ++ [name] := by
    simpa using (List.eq_nil_or_concat path.names).resolve_left path.filled
  have place : path.place working = path.start working ++ inner ++ [name] := by
    rw [Path.place, split, List.append_assoc]
  have stands : tree.contentAt (path.start working) = some .directory := by
    unfold Path.start
    split
    · exact Entry.contentAt_on_way sound List.nil_prefix
    · exact sound
  rw [saveTo, pathNames_text, startOf_text, placeOf_text, place, admits_concat_iff, split,
    List.dropLast_concat, text_eq_widthLine documented]
  by_cases passable : tree.Passable (path.start working ++ inner)
  · by_cases taken : tree.contentAt (path.start working ++ inner ++ [name]) = some .directory
    · -- The directories are all there, so that none is made before the file is refused.
      have standing : tree.contentAt (path.start working ++ inner.reverse.reverse) =
          some .directory := by
        rw [List.reverse_reverse]
        exact Entry.contentAt_on_way taken (List.prefix_append _ _)
      refine .inr ⟨fun admits => admits.1 taken, .isADirectory, ?_⟩
      simp only [Entry.makeDirectories_eq_self standing, Entry.writeFile_of_taken taken]
    · obtain ⟨made, after, success, written, stored⟩ :=
        exists_stored settings stands passable taken
      refine .inl ⟨⟨taken, passable⟩, after, ?_, stored⟩
      simp only [success, written]
  · obtain ⟨cause, refused⟩ :=
      Entry.makeDirectories_of_not_passable inner.reverse stands
        (by rw [List.reverse_reverse]; exact passable)
    refine .inr ⟨fun admits => passable admits.2, cause, ?_⟩
    simp only [refused]

end Saves

/-! ### A row of saves -/

/-- Settings with the path they are saved to. -/
structure Save where
  path : Path
  settings : Settings

section Rows

variable (codec : Toml.Codec) (working : List String)

/-- Saves one after the other. Answers those that succeeded, and the tree after the last. -/
def runSaves (tree : Entry) : List Save → List Save × Entry
  | [] => ([], tree)
  | save :: later =>
      match saveTo codec working tree save.path.text save.settings with
      | (.ok (), tree) => (save :: (runSaves tree later).1, (runSaves tree later).2)
      | (.error _, tree) => runSaves tree later

/-- The last of some saves to a place. -/
def lastTo (place : List String) (saves : List Save) : Option Save :=
  (saves.filter fun save => save.path.place working = place).getLast?

end Rows

section Runs

variable {codec : Toml.Codec} {working : List String} {tree after : Entry} {save : Save}

/-- An earlier save counts only if no later one went to the same place. -/
theorem lastTo_cons {place : List String} {saves : List Save} :
    lastTo working place (save :: saves) =
      (lastTo working place saves).or
        (if save.path.place working = place then some save else none) := by
  rw [lastTo, List.filter_cons]
  by_cases own : save.path.place working = place
  · simp only [own, decide_true, if_true, List.getLast?_cons, lastTo]
    cases (saves.filter fun save => save.path.place working = place).getLast? <;> rfl
  · simp [own, lastTo]

theorem runSaves_cons_of_ok (later : List Save)
    (saved : saveTo codec working tree save.path.text save.settings = (.ok (), after)) :
    runSaves codec working tree (save :: later) =
      (save :: (runSaves codec working after later).1, (runSaves codec working after later).2) := by
  rw [runSaves, saved]

/-- A save that fails is none of those that succeed, and the next one starts where it has left the
tree. -/
theorem runSaves_cons_of_error {cause : FileError} (later : List Save)
    (failed : saveTo codec working tree save.path.text save.settings = (.error cause, after)) :
    runSaves codec working tree (save :: later) = runSaves codec working after later := by
  rw [runSaves, failed]

/-- Once there is a file, no save that goes through its place succeeds. -/
theorem not_isAbove_of_file (documented : Documented codec) {place : List String}
    {bytes : ByteArray} (sound : tree.contentAt working = some .directory)
    (stands : tree.contentAt place = some (.file bytes)) (saves : List Save) :
    ∀ save ∈ (runSaves codec working tree saves).1, ¬IsAbove place (save.path.place working) := by
  induction saves generalizing tree bytes with
  | nil => simp [runSaves]
  | cons save later ih =>
      rcases saveTo_cases documented sound save.path save.settings with
        ⟨admits, after, saved, stored⟩ | ⟨-, cause, failed⟩
      · have here : ¬IsAbove place (save.path.place working) := fun above =>
          admits.passable place above bytes stands
        rw [runSaves_cons_of_ok later saved, List.forall_mem_cons]
        refine ⟨here, ?_⟩
        have soundAfter := stored.standing admits sound
        by_cases own : place = save.path.place working
        · exact ih soundAfter (own ▸ stored.own)
        · have apart : ¬place <+: save.path.place working := fun under => here ⟨under, own⟩
          exact ih soundAfter ((stored.others place apart).trans stands)
      · rw [runSaves_cons_of_error later failed]
        exact ih sound stands

/-- What stands at a place after a row of saves: the last that was saved there, a directory on the way
to what was saved, or what stood there before. -/
theorem contentAt_runSaves (documented : Documented codec)
    (sound : tree.contentAt working = some .directory) (saves : List Save) (place : List String) :
    (runSaves codec working tree saves).2.contentAt place =
      match lastTo working place (runSaves codec working tree saves).1 with
      | some save => some (.file (widthLine save.settings.indentWidth).toUTF8)
      | none =>
          if ∃ save ∈ (runSaves codec working tree saves).1,
              IsAbove place (save.path.place working) then some .directory
          else tree.contentAt place := by
  induction saves generalizing tree with
  | nil => simp [runSaves, lastTo]
  | cons save later ih =>
      rcases saveTo_cases documented sound save.path save.settings with
        ⟨admits, after, saved, stored⟩ | ⟨-, cause, failed⟩
      · have soundAfter := stored.standing admits sound
        rw [runSaves_cons_of_ok later saved]
        simp only [lastTo_cons, ih soundAfter]
        cases lastTo working place (runSaves codec working after later).1 with
        | some last => rfl
        | none =>
            simp only [Option.none_or]
            -- No later save went to this place. It may be above one of theirs, or above that of
            -- this save.
            by_cases own : save.path.place working = place
            · subst own
              -- A file stands here, so a later save below it would have failed.
              have none : ¬∃ other ∈ (runSaves codec working after later).1,
                  IsAbove (save.path.place working) (other.path.place working) := by
                rintro ⟨other, here, above⟩
                exact not_isAbove_of_file documented soundAfter stored.own later other here above
              simp only [if_true, if_neg none, stored.own]
            · simp only [if_neg own, List.mem_cons, exists_eq_or_imp]
              by_cases below : ∃ other ∈ (runSaves codec working after later).1,
                  IsAbove place (other.path.place working)
              · rw [if_pos below, if_pos (.inr below)]
              · by_cases above : IsAbove place (save.path.place working)
                · rw [if_neg below, if_pos (.inl above), (stored.above place above).1]
                · have apart : ¬place <+: save.path.place working := fun under =>
                    above ⟨under, Ne.symm own⟩
                  rw [if_neg below, if_neg (not_or.mpr ⟨above, below⟩), stored.others place apart]
      · rw [runSaves_cons_of_error later failed]
        exact ih sound

end Runs

/-- Every tree, working directory, path and width, and every library that keeps what is documented: a
save succeeds exactly where no directory stands at its place and no file on the way. One that fails
leaves the tree as it is; one that succeeds changes its own file and makes what directories are
missing. The working directory stands after either, so that the same holds of the next save. After
any row of saves, what is loaded from a path is what the last successful save put there. -/
theorem saves_keep_the_last {codec : Toml.Codec} (documented : Documented codec) {tree : Entry}
    {working : List String} (sound : tree.contentAt working = some .directory) :
    (∀ (path : Path) (settings : Settings),
      ((saveTo codec working tree path.text settings).1 = .ok () ↔
        Admits tree (path.place working)) ∧
      ((saveTo codec working tree path.text settings).1 ≠ .ok () →
        (saveTo codec working tree path.text settings).2 = tree) ∧
      ((saveTo codec working tree path.text settings).1 = .ok () →
        Stored settings (path.place working) tree
          (saveTo codec working tree path.text settings).2) ∧
      (saveTo codec working tree path.text settings).2.contentAt working = some .directory) ∧
    ∀ (saves : List Save) (path : Path) (save : Save),
      lastTo working (path.place working) (runSaves codec working tree saves).1 = some save →
        loadFrom codec working (runSaves codec working tree saves).2 path.text =
          .ok (some save.settings) := by
  refine ⟨fun path settings => ?_, fun saves path save last => ?_⟩
  · rcases saveTo_cases documented sound path settings with
      ⟨admits, after, saved, stored⟩ | ⟨refused, cause, failed⟩
    · simp [saved, admits, stored, stored.standing admits sound]
    · simp [failed, refused, sound]
  · apply loadFrom_of_contentAt documented
    rw [contentAt_runSaves documented sound, last]

/-- A tree with nothing but a directory to work in. -/
def homeOnly : Entry :=
  .directory [("home", .directory [])]

/-- The same place, by a path from the top of the tree and by one from the home directory. -/
def twoPaths : Path × Path :=
  ({ rooted := true, names := ["home", "a", "b"], filled := by decide, plain := by decide },
    { rooted := false, names := ["a", "b"], filled := by decide, plain := by decide })

/-- Four saves to an almost empty tree. The second needs a directory where the first has put a file,
and the last puts a file where the first has made a directory. -/
def fourSaves : List Save :=
  [{ path := twoPaths.1, settings := ⟨5⟩ },
    { path := { rooted := false, names := ["a", "b", "c"], filled := by decide, plain := by decide },
      settings := ⟨1⟩ },
    { path := twoPaths.2, settings := ⟨18446744073709551615⟩ },
    { path := { rooted := true, names := ["home", "a"], filled := by decide, plain := by decide },
      settings := ⟨2⟩ }]

theorem saves_keep_the_third :
    homeOnly.contentAt ["home"] = some .directory ∧
      (runSaves .standard ["home"] homeOnly fourSaves).1.length = 2 ∧
      lastTo ["home"] ["home", "a", "b"] (runSaves .standard ["home"] homeOnly fourSaves).1 =
        some { path := twoPaths.2, settings := ⟨18446744073709551615⟩ } ∧
      loadFrom .standard ["home"] (runSaves .standard ["home"] homeOnly fourSaves).2
          twoPaths.1.text =
        .ok (some ⟨18446744073709551615⟩) := by
  have sound : homeOnly.contentAt ["home"] = some .directory := rfl
  have last : lastTo ["home"] ["home", "a", "b"]
      (runSaves .standard ["home"] homeOnly fourSaves).1 =
        some { path := twoPaths.2, settings := ⟨18446744073709551615⟩ } := by
    simp only [fourSaves, runSaves, saveTo, pathNames_text, startOf_text, placeOf_text]
    rfl
  refine ⟨sound, ?_, last, (saves_keep_the_last documented_standard sound).2 _ twoPaths.1 _ last⟩
  simp only [fourSaves, runSaves, saveTo, pathNames_text, startOf_text, placeOf_text]
  rfl

end StringForms.Settings
