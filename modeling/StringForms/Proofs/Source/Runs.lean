/-
Module: StringForms.Proofs.Source.Runs
Purpose: The runs of a string are the only way to cut its parts by the rule for where a run starts.
Main exports: StartsRun, Unbroken, IsPartition, isPartition_runsFrom, IsPartition.runs_eq,
  runs_eq_iff_isPartition
-/
import Mathlib.Data.List.Chain
import StringForms.Source.Run

namespace StringForms.Source

/-!
Whether a part starts a run depends on all of the run before it, and with that on every earlier
start. The rule is stated here without the walk over the parts: on one run, and on two neighbours.
The walk keeps a run in which no part should have started another, and closes it where one has to.
-/

/-! ### The rule -/

/-- `StartsRun run part`: behind a run that holds something, the part starts the next one. It does
so if it and the part before it are text and the run has no splice, if the part before it is a
nested string, and if it is a nested string itself. -/
inductive StartsRun : List Part → Part → Prop where
  | texts {run : List Part} {last part : Part} (ends : run.getLast? = some last)
      (isText : part.isLiteral = true) (isTextLast : last.isLiteral = true)
      (noSplice : ∀ other ∈ run, other.isSplice = false) : StartsRun run part
  | behindNested {run : List Part} {last part : Part} (ends : run.getLast? = some last)
      (nestedLast : last.isNested = true) : StartsRun run part
  | nested {run : List Part} {part : Part} (filled : run ≠ []) (nested : part.isNested = true) :
      StartsRun run part

/-- There is nothing to start a run behind at the beginning. -/
theorem not_startsRun_nil (part : Part) : ¬ StartsRun [] part := by
  intro starts
  cases starts with
  | texts ends => cases ends
  | behindNested ends => cases ends
  | nested filled => exact filled rfl

/-- The test of the code is the rule. -/
theorem breaksAfter_iff {run : List Part} {part : Part} :
    breaksAfter run part = true ↔ StartsRun run part := by
  cases ends : run.getLast? with
  | none =>
      have empty : run = [] := List.getLast?_eq_none_iff.mp ends
      subst empty
      exact iff_of_false Bool.false_ne_true (not_startsRun_nil part)
  | some last =>
      have filled : run ≠ [] := by
        rintro rfl
        cases ends
      constructor
      · intro breaks
        simp only [breaksAfter, ends, Bool.or_eq_true, Bool.and_eq_true, Bool.not_eq_true',
          List.any_eq_false, Bool.not_eq_true] at breaks
        rcases breaks with (⟨⟨isText, isTextLast⟩, noSplice⟩ | nestedLast) | nested
        · exact .texts ends isText isTextLast noSplice
        · exact .behindNested ends nestedLast
        · exact .nested filled nested
      · intro starts
        cases starts with
        | texts found isText isTextLast noSplice =>
            obtain rfl := Option.some.inj (ends.symm.trans found)
            have none : run.any Part.isSplice = false := by simpa using noSplice
            simp [breaksAfter, ends, isText, isTextLast, none]
        | behindNested found nestedLast =>
            obtain rfl := Option.some.inj (ends.symm.trans found)
            simp [breaksAfter, ends, nestedLast]
        | nested _ nested => simp [breaksAfter, ends, nested]

/-- A run in which no part should have started another one. -/
def Unbroken (run : List Part) : Prop :=
  ∀ before part after, run = before ++ part :: after → ¬ StartsRun before part

/-- The parts are cut into runs as the rule asks: nothing is lost or moved, no run is empty, none
holds the start of another, and each but the first begins with a part that has to start one behind
the run before. -/
structure IsPartition (parts : List Part) (segments : List (List Part)) : Prop where
  covers : segments.flatten = parts
  filled : ∀ run ∈ segments, run ≠ []
  unbroken : ∀ run ∈ segments, Unbroken run
  parted : segments.IsChain fun run next => ∀ part ∈ next.head?, StartsRun run part

namespace Unbroken

theorem singleton (part : Part) : Unbroken [part] := by
  intro before other after split
  cases before with
  | nil => exact not_startsRun_nil other
  | cons first rest => simp at split

/-- A part that starts no run goes on with the one at hand. -/
theorem concat {run : List Part} {part : Part} (unbroken : Unbroken run)
    (goesOn : ¬ StartsRun run part) : Unbroken (run ++ [part]) := by
  intro before other after split
  rcases List.eq_nil_or_concat after with rfl | ⟨front, last, rfl⟩
  · obtain ⟨rfl, same⟩ := List.append_inj' split rfl
    obtain rfl : part = other := List.head_eq_of_cons_eq same
    exact goesOn
  · have earlier : run ++ [part] = (before ++ other :: front) ++ [last] := by simpa using split
    exact unbroken before other front (List.append_inj' earlier rfl).1

/-- A nested string is alone in its run. -/
theorem eq_singleton {run : List Part} (unbroken : Unbroken run) {part : Part} (found : part ∈ run)
    (nested : part.isNested = true) : run = [part] := by
  obtain ⟨before, after, rfl⟩ := List.append_of_mem found
  have first : before = [] := by
    by_contra filled
    exact unbroken before part after rfl (.nested filled nested)
  subst first
  cases after with
  | nil => rfl
  | cons next later =>
      have starts : StartsRun [part] next := .behindNested rfl nested
      exact absurd starts (unbroken [part] next later rfl)

/-- Two texts stand side by side in a run only behind a splice. -/
theorem exists_splice {before after : List Part} {first second : Part}
    (unbroken : Unbroken (before ++ first :: second :: after)) (isText : first.isLiteral = true)
    (isTextNext : second.isLiteral = true) : ∃ other ∈ before, other.isSplice = true := by
  by_contra none
  have split : before ++ first :: second :: after = (before ++ [first]) ++ second :: after := by
    simp
  apply unbroken (before ++ [first]) second after split
  apply StartsRun.texts List.getLast?_concat isTextNext isText
  intro other found
  rw [← Bool.not_eq_true]
  intro splice
  rcases List.mem_append.mp found with earlier | same
  · exact none ⟨other, earlier, splice⟩
  · rw [List.mem_singleton.mp same] at splice
    cases first with
    | splice code => cases isText
    | _ => cases splice

end Unbroken

/-! ### The walk -/

/-- A run is put before a partition of what follows it. -/
theorem IsPartition.cons {run rest : List Part} {part : Part} {segments : List (List Part)}
    (filled : run ≠ []) (unbroken : Unbroken run) (starts : StartsRun run part)
    (later : IsPartition (part :: rest) segments) :
    IsPartition (run ++ part :: rest) (run :: segments) where
  covers := by rw [List.flatten_cons, later.covers]
  filled := List.forall_mem_cons.mpr ⟨filled, later.filled⟩
  unbroken := List.forall_mem_cons.mpr ⟨unbroken, later.unbroken⟩
  parted := by
    refine List.isChain_cons.mpr ⟨?_, later.parted⟩
    intro next first part' head
    -- The first of the later runs is not empty, so its first part is the first that follows.
    have covers := later.covers
    cases segments with
    | nil => cases first
    | cons other more =>
        obtain rfl : other = next := Option.some.inj first
        cases other with
        | nil => cases head
        | cons opening inner =>
            obtain rfl : opening = part' := Option.some.inj head
            obtain rfl : opening = part := List.head_eq_of_cons_eq covers
            exact starts

/-- Cutting on from an unbroken run gives a partition. By induction on the parts that are left: each
joins the run at hand or starts the next. -/
theorem isPartition_runsFrom {current : List Part} (filled : current ≠ [])
    (unbroken : Unbroken current) (parts : List Part) :
    IsPartition (current ++ parts) (runsFrom current parts) := by
  induction parts generalizing current with
  | nil =>
      rw [List.append_nil, runsFrom]
      exact
        { covers := List.flatten_singleton
          filled := by simpa using filled
          unbroken := by simpa using unbroken
          parted := List.isChain_singleton current }
  | cons part rest ih =>
      by_cases starts : StartsRun current part
      · have later := ih (List.cons_ne_nil part []) (.singleton part)
        rw [runsFrom, if_pos (breaksAfter_iff.mpr starts)]
        exact .cons filled unbroken starts later
      · have goesOn : ¬ breaksAfter current part = true := mt breaksAfter_iff.mp starts
        have later := ih (by simp) (unbroken.concat starts)
        rw [runsFrom, if_neg goesOn]
        simpa using later

/-- A row that is not empty is cut as the rule asks. -/
theorem isPartition_runs {parts : List Part} (filled : parts ≠ []) :
    IsPartition parts (runs parts) := by
  cases parts with
  | nil => exact absurd rfl filled
  | cons part rest => exact isPartition_runsFrom (List.cons_ne_nil part []) (.singleton part) rest

/-- Inside a run that is unbroken the walk goes on. -/
theorem runsFrom_append {run more : List Part} (unbroken : Unbroken (run ++ more))
    (rest : List Part) : runsFrom run (more ++ rest) = runsFrom (run ++ more) rest := by
  induction more generalizing run with
  | nil => rw [List.append_nil, List.nil_append]
  | cons part later ih =>
      have goesOn : ¬ breaksAfter run part = true :=
        mt breaksAfter_iff.mp (unbroken run part later rfl)
      have joined : run ++ part :: later = (run ++ [part]) ++ later := by simp
      rw [joined] at unbroken ⊢
      rw [List.cons_append, runsFrom, if_neg goesOn]
      exact ih unbroken

/-- Where each run begins with the start of one, the walk closes the run before it. -/
theorem runsFrom_flatten {run : List Part} {segments : List (List Part)}
    (filled : ∀ next ∈ segments, next ≠ []) (unbroken : ∀ next ∈ segments, Unbroken next)
    (parted : (run :: segments).IsChain fun run next => ∀ part ∈ next.head?, StartsRun run part) :
    runsFrom run segments.flatten = run :: segments := by
  induction segments generalizing run with
  | nil => rfl
  | cons next later ih =>
      obtain ⟨first, partedLater⟩ := List.isChain_cons.mp parted
      obtain ⟨filledNext, filledLater⟩ := List.forall_mem_cons.mp filled
      obtain ⟨unbrokenNext, unbrokenLater⟩ := List.forall_mem_cons.mp unbroken
      cases next with
      | nil => exact absurd rfl filledNext
      | cons part more =>
          have starts : StartsRun run part := first (part :: more) rfl part rfl
          calc runsFrom run (part :: (more ++ later.flatten))
              = run :: runsFrom [part] (more ++ later.flatten) := by
                rw [runsFrom, if_pos (breaksAfter_iff.mpr starts)]
            _ = run :: runsFrom ([part] ++ more) later.flatten := by
                rw [runsFrom_append unbrokenNext]
            _ = run :: (part :: more) :: later := by
                rw [List.singleton_append, ih filledLater unbrokenLater partedLater]

/-- Nothing else meets the rule. -/
theorem IsPartition.runs_eq {parts : List Part} {segments : List (List Part)}
    (partition : IsPartition parts segments) (some : parts ≠ []) : runs parts = segments := by
  obtain ⟨rfl, filled, unbroken, parted⟩ := partition
  cases segments with
  | nil => exact absurd rfl some
  | cons run later =>
      obtain ⟨unbrokenRun, unbrokenLater⟩ := List.forall_mem_cons.mp unbroken
      have filledLater := (List.forall_mem_cons.mp filled).2
      have opened : Unbroken ([] ++ run) := unbrokenRun
      calc runs (run ++ later.flatten)
          = runsFrom run later.flatten := runsFrom_append opened later.flatten
        _ = run :: later := runsFrom_flatten filledLater unbrokenLater parted

/-! ### All strings -/

/-- No run holds a part that should have started another. -/
theorem unbroken_of_mem_runs {parts run : List Part} (found : run ∈ runs parts) : Unbroken run := by
  cases parts with
  | nil =>
      obtain rfl := List.mem_singleton.mp found
      intro before part after split
      simp at split
  | cons part rest => exact (isPartition_runs (List.cons_ne_nil part rest)).unbroken run found

/-- The parts of a string that has some can be cut in one way only as the rule asks, and that is
into their runs. So each nested string is a run of its own, and two texts are neighbours in a run
only behind a splice of it. No parts make one run with nothing in it. -/
theorem runs_eq_iff_isPartition :
    (∀ (parts : List Part) (segments : List (List Part)), parts ≠ [] →
      (runs parts = segments ↔ IsPartition parts segments)) ∧
    (∀ (parts run : List Part), run ∈ runs parts →
      (∀ part ∈ run, part.isNested = true → run = [part]) ∧
        ∀ before first second after, run = before ++ first :: second :: after →
          first.isLiteral = true → second.isLiteral = true →
            ∃ other ∈ before, other.isSplice = true) ∧
    runs [] = [[]] := by
  refine ⟨?_, ?_, rfl⟩
  · intro parts segments some
    constructor
    · rintro rfl
      exact isPartition_runs some
    · intro partition
      exact partition.runs_eq some
  · intro parts run found
    have unbroken := unbroken_of_mem_runs found
    constructor
    · intro part member nested
      exact unbroken.eq_singleton member nested
    · rintro before first second after rfl isText isTextNext
      exact unbroken.exists_splice isText isTextNext

/-- Four texts, of which only the two behind the splice stay together, and a nested string between
the last of them and a name. -/
theorem isPartition_of_four_runs :
    let parts : List Part :=
      [.literal "a", .literal "b", .splice .empty, .literal "c", .literal "d", .nested [],
        .reference (.append "@e")]
    let row : List Part := [.literal "b", .splice .empty, .literal "c", .literal "d"]
    let alone : List Part := [.nested []]
    parts ≠ [] ∧ row ∈ runs parts ∧ alone ∈ runs parts ∧
      IsPartition parts [[.literal "a"], row, alone, [.reference (.append "@e")]] ∧
      (∃ other ∈ [Part.literal "b", .splice .empty], other.isSplice = true) ∧
      alone = [.nested []] := by
  intro parts row alone
  obtain ⟨only, inside, _⟩ := runs_eq_iff_isPartition
  have filled : parts ≠ [] := List.cons_ne_nil _ _
  have cut : runs parts = [[.literal "a"], row, alone, [.reference (.append "@e")]] := rfl
  have member : row ∈ runs parts := by simp [cut]
  have memberAlone : alone ∈ runs parts := by simp [cut]
  refine ⟨filled, member, memberAlone, (only parts _ filled).mp cut, ?_, ?_⟩
  · exact (inside parts row member).2 [.literal "b", .splice .empty] (.literal "c") (.literal "d")
      [] rfl rfl rfl
  · exact (inside parts alone memberAlone).1 (.nested []) List.mem_cons_self rfl

end StringForms.Source
