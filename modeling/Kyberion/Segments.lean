import Mathlib.Data.List.Basic

/-!
A list cut at a separator. A segment is closed when its separator follows; what
comes after the last separator is an open segment, unless it is empty.
-/

namespace Kyberion

universe u

variable {α : Type u} [DecidableEq α] (sep : α)

/-- The segments of a list that continues a segment begun with `carry`. -/
def segmentsFrom (carry : List α) : List α → List (List α × Bool)
  | [] => if carry = [] then [] else [(carry, false)]
  | a :: l => if a = sep then (carry, true) :: segmentsFrom [] l else segmentsFrom (carry ++ [a]) l

def segments (l : List α) : List (List α × Bool) :=
  segmentsFrom sep [] l

/-- The segments of what is known to end where a separator follows. -/
def closedSegments (l : List α) : List (List α × Bool) :=
  segments sep (l ++ [sep])

variable {sep} {carry l l' : List α}

@[simp] theorem segmentsFrom_sep :
    segmentsFrom sep carry (sep :: l) = (carry, true) :: segmentsFrom sep [] l := by
  simp [segmentsFrom]

theorem segmentsFrom_append (h : sep ∉ l) :
    segmentsFrom sep carry (l ++ l') = segmentsFrom sep (carry ++ l) l' := by
  induction l generalizing carry with
  | nil => rw [List.nil_append, List.append_nil]
  | cons a l ih =>
      rw [List.mem_cons, not_or] at h
      rw [List.cons_append, segmentsFrom, if_neg (Ne.symm h.1), ih h.2, List.append_assoc]
      rfl

/-- Nothing is open at a separator. -/
theorem segmentsFrom_closed :
    segmentsFrom sep carry (l ++ sep :: l') =
      segmentsFrom sep carry (l ++ [sep]) ++ segments sep l' := by
  induction l generalizing carry with
  | nil => simp [segments, segmentsFrom]
  | cons a l ih =>
      by_cases ha : a = sep
      · subst ha
        rw [List.cons_append, segmentsFrom_sep, ih, List.cons_append, segmentsFrom_sep,
          List.cons_append]
      · rw [List.cons_append, segmentsFrom, if_neg ha, ih, List.cons_append, segmentsFrom,
          if_neg ha]

theorem segments_closed : segments sep (l ++ sep :: l') = closedSegments sep l ++ segments sep l' :=
  segmentsFrom_closed

theorem segments_of_not_mem (h : sep ∉ l) :
    segments sep l = if l = [] then [] else [(l, false)] := by
  have happend : segmentsFrom sep [] (l ++ []) = segmentsFrom sep ([] ++ l) [] :=
    segmentsFrom_append h
  rw [List.append_nil, List.nil_append] at happend
  exact happend

theorem closedSegments_of_not_mem (h : sep ∉ l) : closedSegments sep l = [(l, true)] := by
  rw [closedSegments, segments, segmentsFrom_append h, segmentsFrom_sep]
  rfl

theorem closedSegments_closed :
    closedSegments sep (l ++ sep :: l') = closedSegments sep l ++ closedSegments sep l' := by
  rw [closedSegments, List.append_assoc, List.cons_append, segments_closed]
  rfl

section Join

variable (sep)

/-- The segments, each closed. -/
def join (segs : List (List α)) : List α :=
  segs.flatMap fun segment => segment ++ [sep]

def closedPart (l : List α) : List (List α) :=
  ((segments sep l).filter (·.2)).map (·.1)

def openPart (l : List α) : List α :=
  ((segments sep l).filter fun segment => !segment.2).flatMap (·.1)

variable {sep} {segs : List (List α)}

theorem join_append (segs segs' : List (List α)) :
    join sep (segs ++ segs') = join sep segs ++ join sep segs' :=
  List.flatMap_append

theorem join_cons (segment : List α) (segs : List (List α)) :
    join sep (segment :: segs) = segment ++ sep :: join sep segs := by
  rw [join, List.flatMap_cons, List.append_assoc]
  rfl

theorem segments_join (h : ∀ segment ∈ segs, sep ∉ segment) (l : List α) :
    segments sep (join sep segs ++ l) = segs.map (fun segment => (segment, true)) ++
      segments sep l := by
  induction segs with
  | nil => rfl
  | cons segment segs ih =>
      obtain ⟨hfirst, hrest⟩ := List.forall_mem_cons.mp h
      rw [join_cons, List.append_assoc, List.cons_append, segments_closed,
        closedSegments_of_not_mem hfirst, ih hrest]
      rfl

theorem segmentsFrom_split (carry : List α) (h : sep ∉ carry) (l : List α) :
    ∃ segs tail, carry ++ l = join sep segs ++ tail ∧ (∀ segment ∈ segs, sep ∉ segment) ∧
      sep ∉ tail ∧ segmentsFrom sep carry l = segs.map (fun segment => (segment, true)) ++
        if tail = [] then [] else [(tail, false)] := by
  induction l generalizing carry with
  | nil => exact ⟨[], carry, List.append_nil carry, List.forall_mem_nil _, h, rfl⟩
  | cons a l ih =>
      by_cases ha : a = sep
      · subst ha
        obtain ⟨segs, tail, hjoin, hfree, htail, hsegs⟩ := ih [] List.not_mem_nil
        refine ⟨carry :: segs, tail, ?_, List.forall_mem_cons.mpr ⟨h, hfree⟩, htail, ?_⟩
        · rw [join_cons, List.append_assoc, List.cons_append, ← hjoin, List.nil_append]
        · rw [segmentsFrom_sep, hsegs, List.map_cons, List.cons_append]
      · have hcarry : sep ∉ carry ++ [a] := by
          rw [List.mem_append, List.mem_singleton]
          exact not_or.mpr ⟨h, Ne.symm ha⟩
        obtain ⟨segs, tail, hjoin, hrest⟩ := ih (carry ++ [a]) hcarry
        rw [segmentsFrom, if_neg ha]
        exact ⟨segs, tail, by rw [← hjoin, List.append_assoc, List.singleton_append], hrest⟩

variable (sep) in
/-- A list is its closed segments and its open end. -/
theorem join_closedPart (l : List α) :
    join sep (closedPart sep l) ++ openPart sep l = l ∧
      (∀ segment ∈ closedPart sep l, sep ∉ segment) ∧ sep ∉ openPart sep l ∧
      segments sep l = (closedPart sep l).map (fun segment => (segment, true)) ++
        if openPart sep l = [] then [] else [(openPart sep l, false)] := by
  obtain ⟨segs, tail, hjoin, hfree, htail, hsegs⟩ :=
    segmentsFrom_split [] List.not_mem_nil l
  have hall : (segs.map fun segment => (segment, true)).filter (fun segment => segment.2) =
      segs.map fun segment => (segment, true) :=
    List.filter_eq_self.mpr (by simp)
  have hnone : (segs.map fun segment => (segment, true)).filter (fun segment => !segment.2) = [] :=
    List.filter_eq_nil_iff.mpr (by simp)
  have hclosed : closedPart sep l = segs := by
    rw [closedPart, segments, hsegs, List.filter_append, hall, List.map_append, List.map_map]
    split <;> simp [Function.comp_def]
  have hopen : openPart sep l = tail := by
    rw [openPart, segments, hsegs, List.filter_append, hnone]
    split <;> simp_all
  rw [hclosed, hopen]
  exact ⟨hjoin.symm, hfree, htail, hsegs⟩

theorem closedPart_join (h : ∀ segment ∈ segs, sep ∉ segment) :
    closedPart sep (join sep segs) = segs ∧ openPart sep (join sep segs) = [] := by
  have hsegs := segments_join h []
  have hnil : segments sep ([] : List α) = [] := rfl
  rw [List.append_nil, hnil, List.append_nil] at hsegs
  refine ⟨?_, ?_⟩
  · rw [closedPart, hsegs, List.filter_eq_self.mpr (by simp), List.map_map]
    exact List.map_id' _
  · rw [openPart, hsegs, List.filter_eq_nil_iff.mpr (by simp), List.flatMap_nil]

end Join

/-- The first place of the separator. -/
theorem split_of_idxOf? {i : ℕ} (h : l.idxOf? sep = some i) :
    l = l.take i ++ sep :: l.drop (i + 1) ∧ sep ∉ l.take i := by
  obtain ⟨hlt, hat, hbefore⟩ := List.idxOf?_eq_some_iff.mp h
  refine ⟨?_, fun hmem => ?_⟩
  · rw [← hat, ← List.drop_eq_getElem_cons hlt, List.take_append_drop]
  · obtain ⟨j, hj, hsep⟩ := List.mem_iff_getElem.mp hmem
    rw [List.length_take] at hj
    rw [List.getElem_take] at hsep
    exact hbefore j (by omega) hsep

/-- The last place of the separator. -/
theorem split_of_idxOf?_reverse {i : ℕ} (h : l.reverse.idxOf? sep = some i) :
    l = l.take (l.length - 1 - i) ++ sep :: l.drop (l.length - 1 - i + 1) ∧
      sep ∉ l.drop (l.length - 1 - i + 1) := by
  obtain ⟨hsplit, hfree⟩ := split_of_idxOf? h
  obtain ⟨hlt, -⟩ := List.idxOf?_eq_some_iff.mp h
  rw [List.length_reverse] at hlt
  rw [List.take_reverse] at hsplit hfree
  rw [List.drop_reverse] at hsplit
  have hback := congrArg List.reverse hsplit
  rw [List.reverse_reverse, List.reverse_append, List.reverse_cons, List.reverse_reverse,
    List.reverse_reverse, List.append_assoc] at hback
  have hindex : l.length - 1 - i + 1 = l.length - i := by omega
  have hindex' : l.length - 1 - i = l.length - (i + 1) := by omega
  rw [hindex, hindex']
  exact ⟨hback, fun hmem => hfree (List.mem_reverse.mpr hmem)⟩

end Kyberion
