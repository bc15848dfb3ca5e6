import Kyberion.Work.Target
import Mathlib.Data.List.Infix

/-!
When two patterns overlap. Covering is a match of the glob; overlap compares the
texts before the first wildcard. Only the globs of paths are compared at all:
patterns of any other kind overlap when they are the same text.
-/

namespace Kyberion.Work

open Js (utf16)

theorem workTargetsOverlap_comm (a b : String) :
    workTargetsOverlap a b = workTargetsOverlap b a := by
  unfold workTargetsOverlap
  by_cases hab : a = b
  · rw [if_pos hab, if_pos hab.symm]
  · rw [if_neg hab, if_neg (Ne.symm hab)]
    dsimp only
    by_cases hkind : (splitTarget a).kind = (splitTarget b).kind
    · simp only [hkind, ne_eq, not_true_eq_false, decide_false, Bool.false_or]
      split
      · rfl
      · cases isGlob (splitTarget a).value <;> cases isGlob (splitTarget b).value <;>
          simp [Bool.or_comm]
    · simp [hkind, Ne.symm hkind]

/-- No `*` and no `?`: the pattern stands for one value. -/
def isPlain (value : List ℕ) : Bool :=
  value.all fun u => u ≠ '*'.toNat && u ≠ '?'.toNat

section Globs

variable {u : ℕ} {glob rest value units : List ℕ} {p : ℕ → Bool} {k : List ℕ → Bool}

theorem matchStar_skip (h : k units = true) : matchStar p k units = true := by
  cases units with
  | nil => exact h
  | cons u units => simp [matchStar, h]

theorem matchStar_cons (hu : p u = true) (h : matchStar p k units = true) :
    matchStar p k (u :: units) = true := by
  simp [matchStar, hu, h]

theorem globParts_unit (hstar : u ≠ '*'.toNat) (hone : u ≠ '?'.toNat) :
    globParts (u :: rest) = .unit u :: globParts rest := by
  cases rest with
  | nil => simp only [globParts, if_neg hstar, if_neg hone]
  | cons v rest => rw [globParts, if_neg hstar, if_neg hone]

theorem globTest_unit (hstar : u ≠ '*'.toNat) (hone : u ≠ '?'.toNat) :
    globTest (u :: rest) value = true ↔ ∃ tail, value = u :: tail ∧ globTest rest tail = true := by
  rw [globTest, globParts_unit hstar hone]
  cases value with
  | nil => simp [globMatch]
  | cons v value =>
      simp only [globMatch, Bool.and_eq_true, decide_eq_true_eq, List.cons.injEq, globTest]
      constructor
      · rintro ⟨rfl, h⟩
        exact ⟨value, ⟨rfl, rfl⟩, h⟩
      · rintro ⟨tail, ⟨rfl, rfl⟩, h⟩
        exact ⟨rfl, h⟩

/-- A glob matches itself: each wildcard stands for the characters that spell it. -/
theorem globTest_self (glob : List ℕ) : globTest glob glob = true := by
  unfold globTest
  induction glob using globParts.induct with
  | case1 => rfl
  | case2 u =>
      unfold globParts
      split_ifs with hstar hone
      · subst hstar
        rfl
      · subst hone
        rfl
      · simp [globMatch]
  | case3 rest ih =>
      rw [globParts, if_pos rfl, if_pos rfl, globMatch]
      exact matchStar_cons rfl (matchStar_cons rfl (matchStar_skip ih))
  | case4 v rest hv ih =>
      rw [globParts, if_pos rfl, if_neg hv, globMatch]
      exact matchStar_cons rfl (matchStar_skip ih)
  | case5 v rest _ ih =>
      rw [globParts, if_neg (by decide), if_pos rfl, globMatch]
      simpa using ih
  | case6 u v rest hstar hone ih =>
      rw [globParts, if_neg hstar, if_neg hone, globMatch]
      simpa using ih

/-- What a glob matches begins with the text before the first wildcard. -/
theorem globPrefix_isPrefix (h : globTest glob value = true) : globPrefix glob <+: value := by
  induction glob generalizing value with
  | nil => exact List.nil_prefix
  | cons u rest ih =>
      unfold globPrefix
      rw [List.takeWhile_cons]
      split
      · rename_i hplain
        have hstar : u ≠ '*'.toNat := by
          rintro rfl
          exact absurd hplain (by decide)
        have hone : u ≠ '?'.toNat := by
          rintro rfl
          exact absurd hplain (by decide)
        obtain ⟨tail, rfl, htail⟩ := (globTest_unit hstar hone).mp h
        exact List.cons_prefix_cons.mpr ⟨rfl, ih htail⟩
      · exact List.nil_prefix

/-- A pattern without wildcards matches its own text alone. -/
theorem globTest_plain (hplain : isPlain glob = true) (h : globTest glob value = true) :
    value = glob := by
  induction glob generalizing value with
  | nil => simpa [globTest, globParts, globMatch] using h
  | cons u rest ih =>
      simp only [isPlain, List.all_cons, Bool.and_eq_true, decide_eq_true_eq] at hplain
      obtain ⟨tail, rfl, htail⟩ := (globTest_unit hplain.1.1 hplain.1.2).mp h
      rw [ih hplain.2 htail]

theorem isPlain_of_not_isGlob (h : isGlob value = false) : isPlain value = true := by
  refine List.all_eq_true.mpr fun u hu => ?_
  have hu := List.any_eq_false.mp h u hu
  simp only [globChars, List.map_cons, List.contains_eq_mem, List.mem_cons, decide_eq_true_eq,
    not_or] at hu
  simpa using And.intro hu.1 hu.2.1

end Globs

section Targets

variable {a b pattern target : String}

/-- A target with a kind is its kind, a colon and its value. -/
theorem utf16_of_kind (h : (splitTarget target).kind ≠ []) :
    utf16 target =
      (splitTarget target).kind ++ ':'.toNat :: (splitTarget target).value := by
  cases hindex : (utf16 target).idxOf? ':'.toNat with
  | none =>
      have hsplit : splitTarget target = ⟨[], utf16 target⟩ := by
        simp only [splitTarget, hindex]
      rw [hsplit] at h
      exact absurd rfl h
  | some index =>
      have hsplit : splitTarget target =
          ⟨(utf16 target).take index, (utf16 target).drop (index + 1)⟩ := by
        simp only [splitTarget, hindex]
      obtain ⟨hlt, hcolon, -⟩ := List.idxOf?_eq_some_iff.mp hindex
      rw [hsplit, ← hcolon, List.cons_getElem_drop_succ, List.take_append_drop]

theorem eq_of_split (hkind : (splitTarget a).kind = (splitTarget b).kind)
    (hvalue : (splitTarget a).value = (splitTarget b).value)
    (hne : (splitTarget a).kind ≠ []) : a = b := by
  refine Js.utf16_injective ?_
  rw [utf16_of_kind hne, utf16_of_kind (hkind ▸ hne), hkind, hvalue]

theorem covers_split (h : workTargetPatternCovers pattern target = true) :
    (splitTarget pattern).kind = (splitTarget target).kind ∧
      globTest (splitTarget pattern).value (splitTarget target).value = true := by
  unfold workTargetPatternCovers at h
  split at h
  · rename_i hsame
    subst hsame
    exact ⟨rfl, globTest_self _⟩
  · simpa using h

theorem overlap_of_kind_ne (hkind : (splitTarget a).kind ≠ utf16 "path") :
    workTargetsOverlap a b = true ↔ a = b := by
  unfold workTargetsOverlap
  by_cases hab : a = b <;> simp [hab, hkind]

/-- Two patterns of paths that cover one target. -/
theorem overlap_of_path (ha : workTargetPatternCovers a target = true)
    (hb : workTargetPatternCovers b target = true)
    (hpath : (splitTarget target).kind = utf16 "path") : workTargetsOverlap a b = true := by
  obtain ⟨hkinda, hmatcha⟩ := covers_split ha
  obtain ⟨hkindb, hmatchb⟩ := covers_split hb
  have hkind : (splitTarget a).kind = (splitTarget b).kind := hkinda.trans hkindb.symm
  unfold workTargetsOverlap
  by_cases hab : a = b
  · rw [if_pos hab]
  rw [if_neg hab]
  dsimp only
  rw [if_neg (by simp [hkind, hkindb, hpath])]
  cases hlg : isGlob (splitTarget a).value with
  | false =>
      -- the left value is the target's, and the right pattern matches it
      have hvalue := globTest_plain (isPlain_of_not_isGlob hlg) hmatcha
      rw [hvalue] at hmatchb
      cases hrg : isGlob (splitTarget b).value with
      | false =>
          have hsame := globTest_plain (isPlain_of_not_isGlob hrg) hmatchb
          refine absurd (eq_of_split hkind hsame ?_) hab
          rw [hkinda, hpath]
          decide
      | true => simp [hmatchb]
  | true =>
      cases hrg : isGlob (splitTarget b).value with
      | false =>
          have hvalue := globTest_plain (isPlain_of_not_isGlob hrg) hmatchb
          rw [hvalue] at hmatcha
          simp [hmatcha]
      | true =>
          -- both begin with the text before their first wildcard
          have hprefix := List.prefix_or_prefix_of_prefix (globPrefix_isPrefix hmatcha)
            (globPrefix_isPrefix hmatchb)
          rw [← List.isPrefixOf_iff_prefix, ← List.isPrefixOf_iff_prefix] at hprefix
          rcases hprefix with hleft | hright
          · simp [hleft]
          · simp [hright]

/-- Two patterns without wildcards that cover one target. -/
theorem eq_of_plain (ha : workTargetPatternCovers a target = true)
    (hb : workTargetPatternCovers b target = true) (hkind : (splitTarget target).kind ≠ [])
    (hplaina : isPlain (splitTarget a).value = true)
    (hplainb : isPlain (splitTarget b).value = true) : a = b := by
  obtain ⟨hkinda, hmatcha⟩ := covers_split ha
  obtain ⟨hkindb, hmatchb⟩ := covers_split hb
  refine eq_of_split (hkinda.trans hkindb.symm) ?_ (hkinda ▸ hkind)
  rw [← globTest_plain hplaina hmatcha, ← globTest_plain hplainb hmatchb]

/-- Patterns that cover one target overlap if it is a path, or if it has a kind and they have no
wildcards; of another kind, only equal patterns overlap. Overlap is symmetric. -/
theorem covered_targets_overlap :
    (∀ a b target, workTargetPatternCovers a target = true →
      workTargetPatternCovers b target = true →
      (splitTarget target).kind = utf16 "path" ∨ (splitTarget target).kind ≠ [] ∧
        isPlain (splitTarget a).value = true ∧ isPlain (splitTarget b).value = true →
      workTargetsOverlap a b = true) ∧
    (∀ a b, (splitTarget a).kind ≠ utf16 "path" → (workTargetsOverlap a b = true ↔ a = b)) ∧
    ∀ a b, workTargetsOverlap a b = workTargetsOverlap b a := by
  refine ⟨fun a b target ha hb hkind => ?_, fun a b => overlap_of_kind_ne,
    workTargetsOverlap_comm⟩
  rcases hkind with hpath | ⟨hkind, hplaina, hplainb⟩
  · exact overlap_of_path ha hb hpath
  · obtain rfl := eq_of_plain ha hb hkind hplaina hplainb
    exact if_pos rfl

theorem covered_targets_overlap_glob : workTargetsOverlap "path:src/**" "path:src/*/x" = true :=
  covered_targets_overlap.1 _ _ "path:src/a/x" (by decide +kernel) (by decide +kernel)
    (.inl (by decide +kernel))

/-- A wildcard of another kind than `path` covers, but does not overlap. -/
theorem service_wildcard_misses : ¬ ∀ a b target, workTargetPatternCovers a target = true →
    workTargetPatternCovers b target = true → workTargetsOverlap a b = true := by
  intro h
  have hoverlap := h "service:*" "service:api" "service:api" (by decide +kernel)
    (by decide +kernel)
  revert hoverlap
  decide +kernel

end Targets

end Kyberion.Work
