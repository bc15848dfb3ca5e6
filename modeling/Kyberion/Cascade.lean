import Mathlib.Data.List.Basic

/-!
A cascade of rules: each may settle the question, the first that does decides, and the last word
is said when none of them does.
-/

namespace Kyberion.Cascade

variable {δ ε : Type}

def firstOr (rules : List (Option δ)) (last : δ) : δ :=
  (rules.findSome? id).getD last

@[simp] theorem firstOr_nil (last : δ) : firstOr [] last = last := rfl

@[simp] theorem firstOr_none (rules : List (Option δ)) (last : δ) :
    firstOr (none :: rules) last = firstOr rules last := rfl

@[simp] theorem firstOr_some (d : δ) (rules : List (Option δ)) (last : δ) :
    firstOr (some d :: rules) last = d := rfl

variable {rules : List (Option δ)} {last : δ} {P : δ → Prop}

/-- When every rule that speaks refuses, the outcome is good only because no rule spoke. -/
theorem firstOr_iff (hlast : P last) (hrules : ∀ d, some d ∈ rules → ¬ P d) :
    P (firstOr rules last) ↔ ∀ r ∈ rules, r = none := by
  induction rules with
  | nil => simpa using hlast
  | cons rule rest ih =>
      cases rule with
      | none =>
          have hrest := ih fun d hd => hrules d (List.mem_cons_of_mem _ hd)
          simpa using hrest
      | some d =>
          have hd := hrules d List.mem_cons_self
          simp [hd]

/-- What the first rule can say is good, and so is what the others come to. -/
theorem firstOr_cons {rule : Option δ} (hrule : ∀ d, rule = some d → P d)
    (hrest : P (firstOr rules last)) : P (firstOr (rule :: rules) last) := by
  cases rule with
  | none => exact hrest
  | some d => exact hrule d rfl

section Objections

variable {c : Prop} [Decidable c]

/-- A chain of objections is silent when its first is and the rest are. -/
theorem ite_some_eq_none {d : δ} {rest : Option δ} :
    (if c then some d else rest) = none ↔ ¬ c ∧ rest = none := by
  split <;> simp [*]

theorem ite_singleton_eq_nil {d : δ} {rest : List δ} :
    (if c then [d] else rest) = [] ↔ ¬ c ∧ rest = [] := by
  split <;> simp [*]

end Objections

end Kyberion.Cascade
