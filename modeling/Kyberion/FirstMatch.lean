import Mathlib.Data.List.Infix

/-!
The first occurrence of a pattern in a list, as what stands before and behind it.
-/

namespace Kyberion.FirstMatch

variable {α : Type} [DecidableEq α]

def splitFirst (pattern : List α) : List α → Option (List α × List α)
  | [] => if pattern = [] then some ([], []) else none
  | a :: rest =>
      if pattern <+: a :: rest then some ([], (a :: rest).drop pattern.length)
      else (splitFirst pattern rest).map fun parts => (a :: parts.1, parts.2)

variable {pattern front back list : List α}

theorem splitFirst_eq_none : splitFirst pattern list = none ↔ ¬ pattern <:+: list := by
  induction list with
  | nil => by_cases h : pattern = [] <;> simp [splitFirst, h]
  | cons a rest ih =>
      rw [splitFirst, List.infix_cons_iff]
      split
      · rename_i hfront
        simp [hfront]
      · rename_i hfront
        rw [Option.map_eq_none_iff, ih]
        simp [hfront]

theorem splitFirst_sound (h : splitFirst pattern list = some (front, back)) :
    list = front ++ pattern ++ back := by
  induction list generalizing front with
  | nil =>
      obtain ⟨rfl, heq⟩ := Option.ite_none_right_eq_some.mp h
      cases heq
      rfl
  | cons a rest ih =>
      rw [splitFirst] at h
      split at h
      · rename_i hfront
        obtain ⟨tail, htail⟩ := hfront
        cases h
        rw [List.nil_append, ← htail, List.drop_left]
      · obtain ⟨⟨front, back⟩, hrest, heq⟩ := Option.map_eq_some_iff.mp h
        cases heq
        rw [ih hrest, List.cons_append, List.cons_append]

omit [DecidableEq α] in
/-- A pattern that begins a longer list begins the list or reaches beyond it. -/
theorem prefix_append_cases {more : List α} (h : pattern <+: list ++ more) :
    pattern <+: list ∨ ∃ rest, pattern = list ++ rest ∧ rest ≠ [] ∧ rest <+: more := by
  by_cases hlength : pattern.length ≤ list.length
  · exact .inl (List.prefix_of_prefix_length_le h (List.prefix_append list more) hlength)
  · obtain ⟨rest, rfl⟩ := List.prefix_of_prefix_length_le (List.prefix_append list more) h
      (by omega)
    refine .inr ⟨rest, rfl, ?_, (List.prefix_append_right_inj list).mp h⟩
    rintro rfl
    simp at hlength

/-- What comes behind the list does not move the first occurrence. -/
theorem splitFirst_append (h : splitFirst pattern list = some (front, back)) (more : List α) :
    splitFirst pattern (list ++ more) = some (front, back ++ more) := by
  induction list generalizing front with
  | nil =>
      obtain ⟨rfl, heq⟩ := Option.ite_none_right_eq_some.mp h
      cases heq
      cases more <;> simp [splitFirst]
  | cons a rest ih =>
      have hlength : pattern.length ≤ (a :: rest).length := by
        rw [splitFirst_sound h]
        simp only [List.length_append]
        omega
      rw [splitFirst] at h
      rw [List.cons_append, splitFirst, ← List.cons_append]
      split at h
      · rename_i hfront
        cases h
        rw [if_pos (hfront.trans (List.prefix_append _ more)),
          List.drop_append_of_le_length hfront.length_le]
      · rename_i hfront
        obtain ⟨⟨front, back⟩, hrest, heq⟩ := Option.map_eq_some_iff.mp h
        cases heq
        rw [if_neg, ih hrest]
        · rfl
        · exact fun hlong => hfront
            (List.prefix_of_prefix_length_le hlong (List.prefix_append _ more) hlength)

/-- An element that is not in the pattern keeps occurrences apart. -/
theorem splitFirst_barrier {a : α} (ha : a ∉ pattern) (hne : pattern ≠ [])
    (h : splitFirst pattern list = none) (more : List α) :
    splitFirst pattern (list ++ a :: more) =
      (splitFirst pattern more).map fun parts => (list ++ a :: parts.1, parts.2) := by
  have hstart (list : List α) (hlist : ¬ pattern <+: list) : ¬ pattern <+: list ++ a :: more := by
    intro hfront
    rcases prefix_append_cases hfront with hshort | ⟨rest, rfl, hrest, hmore⟩
    · exact hlist hshort
    · obtain ⟨b, rest, rfl⟩ := List.exists_cons_of_ne_nil hrest
      obtain ⟨rfl, -⟩ := List.cons_prefix_cons.mp hmore
      exact ha (List.mem_append_right _ List.mem_cons_self)
  induction list with
  | nil =>
      have hnil : ¬ pattern <+: a :: more := hstart [] (by simpa using hne)
      rw [List.nil_append, splitFirst, if_neg hnil]
      rfl
  | cons b rest ih =>
      rw [splitFirst] at h
      split at h
      · cases h
      · rename_i hfront
        rw [List.cons_append, splitFirst, ← List.cons_append, if_neg (hstart _ hfront),
          ih (Option.map_eq_none_iff.mp h), Option.map_map]
        rfl

/-- A pattern whose first element does not come again is found behind a list without it. -/
theorem splitFirst_self {a : α} {tail : List α} (ha : a ∉ tail)
    (h : splitFirst (a :: tail) list = none) (more : List α) :
    splitFirst (a :: tail) (list ++ (a :: tail ++ more)) = some (list, more) := by
  induction list with
  | nil =>
      rw [List.nil_append, List.cons_append, splitFirst,
        if_pos (List.cons_prefix_cons.mpr ⟨rfl, List.prefix_append tail more⟩), ← List.cons_append,
        List.drop_left]
  | cons b rest ih =>
      rw [splitFirst] at h
      split at h
      · cases h
      · rename_i hfront
        rw [List.cons_append, splitFirst, ← List.cons_append, if_neg,
          ih (Option.map_eq_none_iff.mp h)]
        · rfl
        · intro hlong
          rcases prefix_append_cases hlong with hshort | ⟨beyond, heq, hbeyond, hmore⟩
          · exact hfront hshort
          · obtain ⟨c, beyond, rfl⟩ := List.exists_cons_of_ne_nil hbeyond
            obtain ⟨rfl, -⟩ := List.cons_prefix_cons.mp hmore
            obtain ⟨-, rfl⟩ := List.cons.inj heq
            exact ha (List.mem_append_right _ List.mem_cons_self)

end Kyberion.FirstMatch
