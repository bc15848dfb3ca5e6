import Mathlib.Data.List.Basic

/-!
Logs that grow at their end, and conditions on each entry and what stands before it.
-/

namespace Kyberion.Trace

universe u

variable {α : Type u} {log front back : List α} {e x : α}

/-- An element of a list that has grown by one is the new one, or is where it was. -/
theorem append_one_split (h : log ++ [e] = front ++ x :: back) :
    back = [] ∧ x = e ∧ front = log ∨ ∃ rest, back = rest ++ [e] ∧ log = front ++ x :: rest := by
  rcases List.eq_nil_or_concat back with rfl | ⟨rest, last, rfl⟩
  · obtain ⟨hlog, hlast⟩ := List.append_inj' h rfl
    exact .inl ⟨rfl, (List.singleton_inj.mp hlast).symm, hlog.symm⟩
  · rw [List.concat_eq_append, ← List.cons_append, ← List.append_assoc] at h
    obtain ⟨hlog, hlast⟩ := List.append_inj' h rfl
    obtain rfl := List.singleton_inj.mp hlast
    exact .inr ⟨rest, List.concat_eq_append, hlog⟩

/-- Each entry meets a condition that may speak of the entries before it. -/
def EachAfter (P : List α → α → Prop) (log : List α) : Prop :=
  ∀ front e back, log = front ++ e :: back → P front e

variable {P : List α → α → Prop}

theorem EachAfter.nil : EachAfter P [] := by
  intro front e back h
  cases front <;> cases h

theorem EachAfter.append_one (h : EachAfter P log) (he : P log e) : EachAfter P (log ++ [e]) := by
  intro front x back hsplit
  rcases append_one_split hsplit with ⟨-, rfl, rfl⟩ | ⟨rest, -, hlog⟩
  · exact he
  · exact h front x rest hlog

end Kyberion.Trace
