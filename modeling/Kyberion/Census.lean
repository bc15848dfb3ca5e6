import Mathlib.Data.Set.Card
import Mathlib.Logic.Function.Basic

/-!
How many indices have a property, while the value of one index at a time is replaced.
-/

namespace Kyberion.Census

universe u v

variable {ι : Type u} {α : Type v}

/-- The number of indices with the property, which may be infinite. -/
noncomputable def census (P : α → Prop) (f : ι → α) : ℕ∞ :=
  {i | P (f i)}.encard

variable {P : α → Prop} {f : ι → α} {i : ι} {a : α} {n : ℕ}

theorem census_pos (h : 0 < census P f) : ∃ i, P (f i) :=
  Set.encard_pos.mp h

theorem census_ne_zero (h : P (f i)) : census P f ≠ 0 :=
  Set.encard_ne_zero_of_mem h

variable [DecidableEq ι]

theorem census_keep (h : P a ↔ P (f i)) : census P (Function.update f i a) = census P f := by
  refine congrArg Set.encard (Set.ext fun j => ?_)
  by_cases hj : j = i
  · subst hj
    simpa using h
  · simp [hj]

/-- The index gets the property. -/
theorem census_gain (hold : ¬ P (f i)) (hnew : P a) :
    census P (Function.update f i a) = census P f + 1 := by
  have hset : {j | P (Function.update f i a j)} = insert i {j | P (f j)} := by
    ext j
    by_cases hj : j = i
    · subst hj
      simpa using hnew
    · simp [hj]
  rw [census, hset]
  exact Set.encard_insert_of_notMem hold

/-- The index loses the property. -/
theorem census_lose (hold : P (f i)) (hnew : ¬ P a) :
    census P (Function.update f i a) + 1 = census P f := by
  have hset : {j | P (Function.update f i a j)} = {j | P (f j)} \ {i} := by
    ext j
    by_cases hj : j = i
    · subst hj
      simpa using hnew
    · simp [hj]
  rw [census, hset]
  exact Set.encard_diff_singleton_add_one hold

theorem census_gain_eq (hn : census P f = n) (hold : ¬ P (f i)) (hnew : P a) :
    census P (Function.update f i a) = (n + 1 : ℕ) := by
  rw [census_gain hold hnew, hn, Nat.cast_succ]

theorem census_lose_eq (hn : census P f = (n + 1 : ℕ)) (hold : P (f i)) (hnew : ¬ P a) :
    census P (Function.update f i a) = n := by
  have hlost := census_lose (P := P) (f := f) hold hnew
  rw [hn, Nat.cast_succ] at hlost
  exact ENat.add_left_injective_of_ne_top ENat.one_ne_top hlost

end Kyberion.Census
