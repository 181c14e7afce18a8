/-
Module: StringForms.Proofs.Except
Purpose: When a computation that may fail gives a value and when a problem: the laws of its map and
  of its bind.
Main exports: Except.map_eq_ok_iff, Except.bind_eq_ok_iff, Except.bind_congr_of_ok,
  Except.map_eq_error_iff, Except.bind_eq_error_iff
-/
import Mathlib.Control.Monad.Basic

namespace Except

variable {Problem First Second : Type}

@[simp] theorem ok_bind (value : First) (next : First → Except Problem Second) :
    (.ok value : Except Problem First) >>= next = next value := rfl

@[simp] theorem error_bind (problem : Problem) (next : First → Except Problem Second) :
    (.error problem : Except Problem First) >>= next = .error problem := rfl

/-- A mapped computation gives a value exactly if the computation gives one that is mapped to it. -/
theorem map_eq_ok_iff {change : First → Second} {computation : Except Problem First}
    {result : Second} :
    change <$> computation = .ok result ↔ ∃ value, computation = .ok value ∧ change value = result := by
  cases computation with
  | ok value => simp
  | error problem => simp

/-- Two computations in a row give a value exactly if both give one. -/
theorem bind_eq_ok_iff {computation : Except Problem First} {next : First → Except Problem Second}
    {result : Second} :
    computation >>= next = .ok result ↔ ∃ value, computation = .ok value ∧ next value = .ok result := by
  cases computation with
  | ok value => simp
  | error problem => simp

/-- What comes second in a row matters for the values that the first can give. -/
theorem bind_congr_of_ok {computation : Except Problem First}
    {next other : First → Except Problem Second}
    (same : ∀ value, computation = .ok value → next value = other value) :
    computation >>= next = computation >>= other := by
  cases computation with
  | ok value => exact same value rfl
  | error problem => rfl

/-- The first problem is the problem of the row. -/
theorem bind_eq_error_iff {computation : Except Problem First}
    {next : First → Except Problem Second} {problem : Problem} :
    computation >>= next = .error problem ↔
      computation = .error problem ∨
        ∃ value, computation = .ok value ∧ next value = .error problem := by
  cases computation with
  | ok value => simp
  | error problem => simp

theorem map_eq_error_iff {change : First → Second} {computation : Except Problem First}
    {problem : Problem} :
    change <$> computation = .error problem ↔ computation = .error problem := by
  cases computation with
  | ok value => simp
  | error problem => simp

end Except
