import Mathlib.Data.List.Basic

/-!
A directory of named contents. Exclusive creation, rename and unlink are the
atomic steps that several processes interleave; each has one `read` lemma, so
later proofs never look at the entries.
-/

namespace Kyberion

universe u v

structure Directory (N : Type u) (C : Type v) where
  entries : List (N × C)
  deriving Repr, DecidableEq

namespace Directory

variable {N : Type u} {C : Type v} [DecidableEq N]

def empty : Directory N C := ⟨[]⟩

def read (d : Directory N C) (n : N) : Option C :=
  (d.entries.find? fun e => e.1 = n).map Prod.snd

def unlink (d : Directory N C) (n : N) : Directory N C :=
  ⟨d.entries.filter fun e => e.1 ≠ n⟩

/-- Creates or replaces the content under a name. -/
def write (d : Directory N C) (n : N) (c : C) : Directory N C :=
  ⟨(n, c) :: (d.unlink n).entries⟩

/-- Creates a name that must be absent. -/
def publishExclusive (d : Directory N C) (n : N) (c : C) : Option (Directory N C) :=
  if (d.read n).isSome then none else some (d.write n c)

/-- Moves a content over whatever the target names. -/
def rename (d : Directory N C) (source target : N) : Option (Directory N C) :=
  (d.read source).map fun c => (d.unlink source).write target c

@[simp] theorem read_empty (n : N) : (empty : Directory N C).read n = none := rfl

@[simp] theorem read_unlink_self (d : Directory N C) (n : N) : (d.unlink n).read n = none := by
  simp [read, unlink]

@[simp] theorem read_unlink_of_ne (d : Directory N C) {m n : N} (h : m ≠ n) :
    (d.unlink n).read m = d.read m := by
  simp only [read, unlink, List.find?_filter]
  congr 2
  funext e
  by_cases he : e.1 = m
  · simp [he, h]
  · simp [he]

@[simp] theorem read_write_self (d : Directory N C) (n : N) (c : C) :
    (d.write n c).read n = some c := by
  simp [read, write]

@[simp] theorem read_write_of_ne (d : Directory N C) {m n : N} (c : C) (h : m ≠ n) :
    (d.write n c).read m = d.read m := by
  have hfind : (d.write n c).read m = (d.unlink n).read m := by
    simp [read, write, h.symm]
  rw [hfind, read_unlink_of_ne d h]

theorem publishExclusive_eq_some {d d' : Directory N C} {n : N} {c : C} :
    d.publishExclusive n c = some d' ↔ d.read n = none ∧ d' = d.write n c := by
  unfold publishExclusive
  split
  · rename_i h
    simp [Option.isSome_iff_ne_none.mp h]
  · rename_i h
    simp only [Option.not_isSome_iff_eq_none] at h
    simp [h, eq_comm]

theorem publishExclusive_eq_none {d : Directory N C} {n : N} {c : C} :
    d.publishExclusive n c = none ↔ ∃ c', d.read n = some c' := by
  simp [publishExclusive, Option.isSome_iff_exists]

theorem rename_eq_some {d d' : Directory N C} {source target : N} :
    d.rename source target = some d' ↔
      ∃ c, d.read source = some c ∧ d' = (d.unlink source).write target c := by
  rw [rename, Option.map_eq_some_iff]
  exact exists_congr fun c => and_congr_right fun _ => eq_comm

theorem rename_eq_none {d : Directory N C} {source target : N} :
    d.rename source target = none ↔ d.read source = none := by
  simp [rename]

/-- A moved content leaves its source and appears at its target. -/
theorem read_rename_of_ne {d d' : Directory N C} {source target m : N}
    (h : d.rename source target = some d') (hs : m ≠ source) (ht : m ≠ target) :
    d'.read m = d.read m := by
  obtain ⟨c, -, rfl⟩ := rename_eq_some.mp h
  rw [read_write_of_ne _ _ ht, read_unlink_of_ne _ hs]

theorem read_rename_source {d d' : Directory N C} {source target : N}
    (h : d.rename source target = some d') (hne : source ≠ target) :
    d'.read source = none := by
  obtain ⟨c, -, rfl⟩ := rename_eq_some.mp h
  rw [read_write_of_ne _ _ hne, read_unlink_self]

theorem mem_of_read {d : Directory N C} {n : N} {c : C} (h : d.read n = some c) :
    (n, c) ∈ d.entries := by
  obtain ⟨e, he, rfl⟩ := Option.map_eq_some_iff.mp h
  have hname := List.find?_some he
  simp only [decide_eq_true_eq] at hname
  exact hname ▸ List.mem_of_find?_eq_some he

end Directory

end Kyberion
