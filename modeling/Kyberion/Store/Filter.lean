import Kyberion.Latest
import Mathlib.Data.List.Count
import Mathlib.Data.Int.Notation

/-!
The two passes of a parked rewrite over the parked copies. Pass 1 hands every
ordinary line to the filter, pass 2 asks it which lines survive; both count the
same line indices. Oversized lines are kept without asking, blank lines go.
-/

namespace Kyberion.Store

universe u v

variable {α : Type u}

/-- A per-line filter as a function of all lines pass 1 observed. -/
structure LineFilter (α : Type u) where
  oversized : α → Bool
  blank : α → Bool
  keep : List (List α) → α → ℕ → ℕ → Bool

namespace LineFilter

variable (f : LineFilter α)

/-- A line that reaches the filter and takes an index. -/
def observed (line : α) : Bool :=
  !f.oversized line && !f.blank line

/-- The verdict on each line of one copy; `index` counts observed lines over all copies. -/
def fileVerdicts (all : List (List α)) (fileIndex : ℕ) : ℕ → List α → List (α × Bool)
  | _, [] => []
  | index, line :: rest =>
      if f.oversized line then (line, true) :: fileVerdicts all fileIndex index rest
      else if f.blank line then (line, false) :: fileVerdicts all fileIndex index rest
      else (line, f.keep all line index fileIndex) :: fileVerdicts all fileIndex (index + 1) rest

def verdicts (all : List (List α)) : ℕ → ℕ → List (List α) → List (α × Bool)
  | _, _, [] => []
  | index, fileIndex, copy :: rest =>
      f.fileVerdicts all fileIndex index copy ++
        verdicts all (index + copy.countP f.observed) (fileIndex + 1) rest

/-- What pass 2 writes. -/
def survivors (copies : List (List α)) : List α :=
  ((f.verdicts copies 0 0 copies).filter (·.2)).map (·.1)

/-- What pass 2 leaves out. -/
def dropped (copies : List (List α)) : List α :=
  ((f.verdicts copies 0 0 copies).filter (!·.2)).map (·.1)

@[simp] theorem fileVerdicts_lines (all : List (List α)) (fileIndex index : ℕ) (copy : List α) :
    (f.fileVerdicts all fileIndex index copy).map (·.1) = copy := by
  induction copy generalizing index with
  | nil => rfl
  | cons line rest ih =>
      simp only [fileVerdicts]
      split_ifs <;> simp [ih]

@[simp] theorem verdicts_lines (all : List (List α)) (index fileIndex : ℕ)
    (copies : List (List α)) :
    (f.verdicts all index fileIndex copies).map (·.1) = copies.flatten := by
  induction copies generalizing index fileIndex with
  | nil => rfl
  | cons copy rest ih => simp [verdicts, ih]

theorem survivors_sublist (copies : List (List α)) : (f.survivors copies).Sublist copies.flatten := by
  have h := (List.filter_sublist (l := f.verdicts copies 0 0 copies) (p := (·.2))).map (·.1)
  rwa [verdicts_lines] at h

/-- Every line of the copies survives or is dropped, occurrence by occurrence. -/
theorem count_survivors_add_dropped [DecidableEq α] (copies : List (List α)) (line : α) :
    (f.survivors copies).count line + (f.dropped copies).count line =
      copies.flatten.count line := by
  rw [← f.verdicts_lines copies 0 0 copies, survivors, dropped]
  induction f.verdicts copies 0 0 copies with
  | nil => rfl
  | cons v vs ih =>
      rcases v with ⟨l, keep⟩
      cases keep <;> simp [List.count_cons] <;> omega

end LineFilter

/-- How a store's lines are read: which reach the parser, which parse, and their key. -/
structure Format (β : Type u) (κ : Type v) where
  oversized : β → Bool
  blank : β → Bool
  parses : β → Bool
  key : β → Option κ

namespace Format

variable {β : Type u} {κ : Type v} [DecidableEq κ] (fmt : Format β κ)

/-- Malformed lines have no key. -/
def recordKey (line : β) : Option κ :=
  if fmt.parses line then fmt.key line else none

/-- What a reader yields of a line. -/
def readable (line : β) : Bool :=
  !fmt.oversized line && !fmt.blank line && fmt.parses line

/-- The key under which a reader sees a line. -/
def rowKey (line : β) : Option κ :=
  if fmt.readable line then fmt.key line else none

/-- The entry of `lastIndex` for a key after pass 1 over the observed lines. -/
def lastIndex (k : κ) : ℕ → List β → Option ℕ → Option ℕ
  | _, [], found => found
  | index, line :: rest, found =>
      lastIndex k (index + 1) rest (if fmt.recordKey line = some k then some index else found)

theorem lastIndex_absent {k : κ} {index : ℕ} {lines : List β} {found : Option ℕ}
    (h : ∀ line ∈ lines, fmt.recordKey line ≠ some k) :
    fmt.lastIndex k index lines found = found := by
  induction lines generalizing index with
  | nil => rfl
  | cons line rest ih =>
      rw [lastIndex, if_neg (h line List.mem_cons_self)]
      exact ih fun l hl => h l (List.mem_cons_of_mem line hl)

theorem lastIndex_last {k : κ} {index : ℕ} {pre post : List β} {line : β} {found : Option ℕ}
    (hk : fmt.recordKey line = some k) (h : ∀ l ∈ post, fmt.recordKey l ≠ some k) :
    fmt.lastIndex k index (pre ++ line :: post) found = some (index + pre.length) := by
  induction pre generalizing index found with
  | nil =>
      rw [List.nil_append, lastIndex, if_pos hk, fmt.lastIndex_absent h]
      rfl
  | cons l pre ih =>
      rw [List.cons_append, lastIndex, ih]
      simp only [List.length_cons, Option.some.injEq]
      omega

/-- `compactStoreByKey`: keep the last line per key and every line without one. -/
def compactFilter : LineFilter β where
  oversized := fmt.oversized
  blank := fmt.blank
  keep all line index _ :=
    match fmt.recordKey line with
    | none => true
    | some k =>
        fmt.lastIndex k 0 (all.flatten.filter fun l => !fmt.oversized l && !fmt.blank l) none =
          some index

/-- `retainWindow`: drop parsed lines older than `since` unless `keep` holds them. -/
def windowFilter (timeOf : β → Option ℤ) (since : ℤ) (keep : β → Bool) : LineFilter β where
  oversized := fmt.oversized
  blank := fmt.blank
  keep _ line _ _ :=
    !fmt.parses line ||
      match timeOf line with
      | none => true
      | some t => decide (since ≤ t) || keep line

end Format

namespace LineFilter

variable (f : LineFilter α)

theorem mem_fileVerdicts {all : List (List α)} {fileIndex index : ℕ} {pre post : List α} {line : α}
    (h : f.observed line = true) :
    (line, f.keep all line (index + pre.countP f.observed) fileIndex) ∈
      f.fileVerdicts all fileIndex index (pre ++ line :: post) := by
  induction pre generalizing index with
  | nil =>
      simp only [observed, Bool.and_eq_true, Bool.not_eq_true'] at h
      simp [fileVerdicts, h.1, h.2]
  | cons l pre ih =>
      simp only [List.cons_append, fileVerdicts]
      by_cases hover : f.oversized l = true
      · have hcount : (l :: pre).countP f.observed = pre.countP f.observed := by
          simp [observed, hover]
        rw [if_pos hover, hcount]
        exact List.mem_cons_of_mem _ ih
      by_cases hblank : f.blank l = true
      · have hcount : (l :: pre).countP f.observed = pre.countP f.observed := by
          simp [observed, hblank]
        rw [if_neg hover, if_pos hblank, hcount]
        exact List.mem_cons_of_mem _ ih
      · have hcount : index + (l :: pre).countP f.observed =
            index + 1 + pre.countP f.observed := by
          simp [observed, hover, hblank]
          omega
        rw [if_neg hover, if_neg hblank, hcount]
        exact List.mem_cons_of_mem _ ih

/-- An observed line is judged at the number of observed lines before it. -/
theorem mem_verdicts (all : List (List α)) {copies : List (List α)} (index fileIndex : ℕ)
    (pre : List α) {post : List α} {line : α} (h : f.observed line = true) (hflat : copies.flatten = pre ++ line :: post) :
    ∃ file, (line, f.keep all line (index + pre.countP f.observed) file) ∈
      f.verdicts all index fileIndex copies := by
  induction copies generalizing index fileIndex pre with
  | nil => simp at hflat
  | cons copy rest ih =>
      rw [List.flatten_cons] at hflat
      rcases List.append_eq_append_iff.mp hflat with ⟨mid, hpre, hrest⟩ | ⟨mid, hcopy, hpost⟩
      · obtain ⟨file, hmem⟩ := ih (index + copy.countP f.observed) (fileIndex + 1) mid hrest
        refine ⟨file, List.mem_append_right _ ?_⟩
        rw [hpre, List.countP_append]
        rwa [← Nat.add_assoc]
      · cases mid with
        | nil =>
            obtain ⟨file, hmem⟩ := ih (index + copy.countP f.observed) (fileIndex + 1) []
              hpost.symm
            refine ⟨file, List.mem_append_right _ ?_⟩
            rw [List.append_nil] at hcopy
            simpa [hcopy] using hmem
        | cons l mid =>
            obtain ⟨rfl, -⟩ := List.cons.inj hpost
            refine ⟨fileIndex, List.mem_append_left _ ?_⟩
            rw [hcopy]
            exact f.mem_fileVerdicts h

theorem mem_survivors {copies : List (List α)} {pre post : List α} {line : α}
    (h : f.observed line = true) (hflat : copies.flatten = pre ++ line :: post)
    (hkeep : ∀ file, f.keep copies line (pre.countP f.observed) file = true) :
    line ∈ f.survivors copies := by
  obtain ⟨file, hmem⟩ := f.mem_verdicts copies 0 0 pre h hflat
  rw [Nat.zero_add, hkeep file] at hmem
  exact List.mem_map.mpr ⟨_, List.mem_filter.mpr ⟨hmem, rfl⟩, rfl⟩

end LineFilter

namespace Format

variable {β : Type u} {κ : Type v} [DecidableEq κ] (fmt : Format β κ)

omit [DecidableEq κ] in
theorem rowKey_eq_some {line : β} {k : κ} :
    fmt.rowKey line = some k ↔
      (fmt.oversized line = false ∧ fmt.blank line = false) ∧ fmt.recordKey line = some k := by
  cases hover : fmt.oversized line <;> cases hblank : fmt.blank line <;>
    simp [rowKey, readable, recordKey, hover, hblank]

/-- Compaction keeps, for every key, a line at least as new as any it had. -/
theorem covers_survivors {stamp : β → ℕ} {copies : List (List β)}
    (h : InOrder stamp copies.flatten) :
    Covers fmt.rowKey stamp copies.flatten (fmt.compactFilter.survivors copies) := by
  intro a ha k hk
  obtain ⟨pre, b, post, hflat, hb, hpost⟩ :=
    exists_last_split (p := fun line => fmt.rowKey line = some k) ⟨a, ha, hk⟩
  obtain ⟨⟨hover, hblank⟩, hrecord⟩ := fmt.rowKey_eq_some.mp hb
  have hobs : fmt.compactFilter.observed b = true := by
    simp [LineFilter.observed, compactFilter, hover, hblank]
  refine ⟨b, ?_, hb, ?_⟩
  · refine LineFilter.mem_survivors _ hobs hflat ?_
    intro file
    have hlast : ∀ l ∈ post.filter fun l => !fmt.oversized l && !fmt.blank l,
        fmt.recordKey l ≠ some k := by
      intro l hl hkey
      simp only [List.mem_filter, Bool.and_eq_true, Bool.not_eq_true'] at hl
      exact hpost l hl.1 (fmt.rowKey_eq_some.mpr ⟨hl.2, hkey⟩)
    simp only [compactFilter, hrecord, hflat, List.filter_append]
    rw [List.filter_cons_of_pos (by simp [hover, hblank]), fmt.lastIndex_last hrecord hlast]
    simp only [List.countP_eq_length_filter, Nat.zero_add, decide_eq_true_eq]
    rfl
  · rw [hflat] at ha h
    rcases List.mem_append.mp ha with hold | hnew
    · exact Nat.le_of_lt ((List.pairwise_append.mp h).2.2 a hold b List.mem_cons_self)
    · rcases List.mem_cons.mp hnew with rfl | hlater
      · exact Nat.le_refl _
      · exact absurd hk (hpost a hlater)

end Format

end Kyberion.Store
