import Mathlib.Data.List.Basic

/-!
A counting semaphore whose waiters are served in the order they came. The records of who came and
who was served are kept beside it, for its invariant.
-/

namespace Kyberion.FifoSemaphore

universe u

structure Semaphore (α : Type u) where
  limit : ℕ
  active : ℕ := 0
  queue : List α := []

variable {α : Type u}

namespace Semaphore

/-- The semaphore after a request, and whether it has been granted at once. -/
def acquire (s : Semaphore α) (a : α) : Semaphore α × Bool :=
  if s.active < s.limit then ({ s with active := s.active + 1 }, true)
  else ({ s with queue := s.queue ++ [a] }, false)

/-- The semaphore after a holder has left, and the waiter that it goes on to. -/
def release (s : Semaphore α) : Semaphore α × Option α :=
  match s.queue with
  | [] => ({ s with active := s.active - 1 }, none)
  | a :: rest => ({ s with active := s.active - 1 + 1, queue := rest }, some a)

@[simp] theorem acquire_limit (s : Semaphore α) (a : α) : (s.acquire a).1.limit = s.limit := by
  unfold acquire
  split <;> rfl

@[simp] theorem release_limit (s : Semaphore α) : s.release.1.limit = s.limit := by
  unfold release
  split <;> rfl

end Semaphore

/-- Requests are served in their order, a place is only left free when nobody waits for it, and
there is a place for all that are served. -/
structure Fair (s : Semaphore α) (arrived served : List α) : Prop where
  order : arrived = served ++ s.queue
  bounded : s.active ≤ s.limit
  full : s.queue ≠ [] → s.active = s.limit

variable {s t : Semaphore α} {arrived served : List α} {a : α}

namespace Fair

theorem initial (limit : ℕ) : Fair ({ limit } : Semaphore α) [] [] :=
  ⟨rfl, Nat.zero_le _, fun h => absurd rfl h⟩

/-- Nobody waits while a place is free. -/
theorem queue_eq_nil (h : Fair s arrived served) (hfree : s.active < s.limit) : s.queue = [] := by
  by_contra hqueue
  exact absurd (h.full hqueue) (Nat.ne_of_lt hfree)

theorem acquired (h : Fair s arrived served) (ht : s.acquire a = (t, true)) :
    Fair t (arrived ++ [a]) (served ++ [a]) ∧ t.active = s.active + 1 ∧ t.queue = s.queue := by
  unfold Semaphore.acquire at ht
  split at ht
  · rename_i hfree
    obtain rfl := congrArg Prod.fst ht
    have hempty := h.queue_eq_nil hfree
    refine ⟨⟨?_, hfree, fun hqueue => absurd hempty hqueue⟩, rfl, rfl⟩
    rw [h.order, hempty, List.append_nil, List.append_nil]
  · cases congrArg Prod.snd ht

theorem queued (h : Fair s arrived served) (ht : s.acquire a = (t, false)) :
    Fair t (arrived ++ [a]) served ∧ t.active = s.active ∧ t.queue = s.queue ++ [a] := by
  unfold Semaphore.acquire at ht
  split at ht
  · cases congrArg Prod.snd ht
  · rename_i hbusy
    obtain rfl := congrArg Prod.fst ht
    refine ⟨⟨?_, h.bounded, fun _ => ?_⟩, rfl, rfl⟩
    · rw [h.order, List.append_assoc]
    · exact Nat.le_antisymm h.bounded (Nat.not_lt.mp hbusy)

/-- A holder leaves, and nobody waits. -/
theorem released (h : Fair s arrived served) (ht : s.release = (t, none)) :
    Fair t arrived served ∧ t.active = s.active - 1 ∧ s.queue = [] ∧ t.queue = [] := by
  unfold Semaphore.release at ht
  split at ht
  · rename_i hempty
    obtain rfl := congrArg Prod.fst ht
    exact ⟨⟨h.order, Nat.le_trans (Nat.sub_le _ _) h.bounded, fun hqueue => absurd hempty hqueue⟩, rfl,
      hempty, hempty⟩
  · cases congrArg Prod.snd ht

/-- A holder leaves, and its place goes to the first that waits. -/
theorem passedOn (h : Fair s arrived served) (ht : s.release = (t, some a)) (hheld : 0 < s.active) :
    Fair t arrived (served ++ [a]) ∧ t.active = s.active ∧ s.queue = a :: t.queue := by
  unfold Semaphore.release at ht
  split at ht
  · cases congrArg Prod.snd ht
  · rename_i first rest hqueue
    obtain rfl := congrArg Prod.fst ht
    obtain rfl := Option.some.inj (congrArg Prod.snd ht)
    have hsame : s.active - 1 + 1 = s.active := Nat.sub_add_cancel hheld
    refine ⟨⟨?_, hsame ▸ h.bounded, fun _ => hsame ▸ h.full (hqueue ▸ List.cons_ne_nil _ _)⟩,
      hsame, hqueue⟩
    rw [h.order, hqueue]
    simp

end Fair

end Kyberion.FifoSemaphore
