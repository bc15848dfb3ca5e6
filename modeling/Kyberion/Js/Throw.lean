import Mathlib.Logic.Basic

/-!
Checks that refuse a call: `throwIf c e rest` is `if (c) throw e` before `rest`.
A call that returns has passed every check in front of its result.
-/

namespace Kyberion.Js

universe u v

variable {ε : Type u} {α : Type v}

def throwIf (c : Prop) [Decidable c] (e : ε) (rest : Except ε α) : Except ε α :=
  if c then .error e else rest

@[simp] theorem throwIf_eq_ok {c : Prop} [Decidable c] {e : ε} {rest : Except ε α} {a : α} :
    throwIf c e rest = .ok a ↔ ¬ c ∧ rest = .ok a := by
  unfold throwIf
  split <;> simp [*]

theorem throwIf_pos {c : Prop} [Decidable c] {e : ε} {rest : Except ε α} (h : c) :
    throwIf c e rest = .error e :=
  if_pos h

theorem throwIf_neg {c : Prop} [Decidable c] {e : ε} {rest : Except ε α} (h : ¬ c) :
    throwIf c e rest = rest :=
  if_neg h

@[simp] theorem except_ok_bind {ε α β : Type} (a : α) (f : α → Except ε β) :
    ((Except.ok a : Except ε α) >>= f) = f a := rfl

theorem except_bind_ok {ε α β : Type} {x : Except ε α} {f : α → Except ε β} {b : β}
    (h : (x >>= f) = .ok b) : ∃ a, x = .ok a ∧ f a = .ok b := by
  cases x with
  | error e => cases h
  | ok a => exact ⟨a, rfl, h⟩

theorem except_toOption_eq_some {ε α : Type} {x : Except ε α} {a : α} :
    x.toOption = some a ↔ x = .ok a := by
  cases x <;> simp [Except.toOption]

/-- A call that throws leaves what it was given; one that returns replaces it. -/
def commit (old : α) : Except ε α → α
  | .ok new => new
  | .error _ => old

@[simp] theorem commit_ok (old new : α) : commit old (.ok new : Except ε α) = new := rfl

@[simp] theorem commit_error (old : α) (e : ε) : commit old (.error e : Except ε α) = old := rfl

end Kyberion.Js
