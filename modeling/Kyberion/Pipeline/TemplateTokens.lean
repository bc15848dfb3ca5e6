import Kyberion.Js.RegExp
import Mathlib.Control.Monad.Basic

/-!
The replacement of template tokens in the texts of a pipeline. A scanner that
takes every opening once stands in for a regular expression, which would look
for the end of the token again from each opening.
-/

namespace Kyberion.Pipeline

open Js

variable {σ ε : Type}

section Scanner

def LINE_TERMINATOR (c : UInt16) : Bool :=
  c = 0x0A || c = 0x0D || c = 0x2028 || c = 0x2029

/-- Two opening braces. -/
def OPENING : Units := [0x7B, 0x7B]

def CLOSING : Units := [0x7D, 0x7D]

/-- A replacer may keep a state and may throw. -/
abbrev Replacer (σ ε : Type) := Units → Units → StateT σ (Except ε) Units

/-- The loop of `replaceTemplateTokens`. -/
def scanTokens (str : Units) (replacer : Replacer σ ε) (out : Units) (cursor searchFrom : ℕ) :
    StateT σ (Except ε) Units :=
  if searchFrom < str.length then
    match hstart : indexOf str OPENING searchFrom with
    | none => pure (out ++ str.drop cursor)
    | some start =>
        match hend : indexOf str CLOSING (start + 2) with
        | none => pure (out ++ str.drop cursor)
        | some stop =>
            let token := slice str (start + 2) stop
            match token.findIdx? LINE_TERMINATOR with
            | some lineBreak =>
                -- no match starts before the line break and crosses it
                scanTokens str replacer out cursor (start + 2 + lineBreak + 1)
            | none => do
                let replaced ← replacer (slice str start (stop + 2)) token
                scanTokens str replacer (out ++ (slice str cursor start ++ replaced)) (stop + 2)
                  (stop + 2)
  else pure (out ++ str.drop cursor)
termination_by str.length - searchFrom
decreasing_by
  · have hfirst := (indexOf_some hstart).1
    omega
  · have hfirst := (indexOf_some hstart).1
    have hlast := (indexOf_some hend).1
    omega

def replaceTemplateTokens (str : Units) (replacer : Replacer σ ε) : StateT σ (Except ε) Units :=
  scanTokens str replacer [] 0 0

end Scanner

section Expression

/-- `{{(.*?)}}`; a dot matches no line terminator. -/
def templateToken : RegExp :=
  .seq (.set (· = 0x7B)) (.seq (.set (· = 0x7B)) (.seq (.capture (.lazyMany (!LINE_TERMINATOR ·)))
    (.seq (.set (· = 0x7D)) (.set (· = 0x7D)))))

/-- The replacer of a match, called with the token. -/
def Replacer.onMatch (replacer : Replacer σ ε) (found : Units) (captures : List Units) :
    StateT σ (Except ε) Units :=
  replacer found (captures.headD [])

theorem run_twice {β : Type} (a : UInt16) (cs : Units) (captures : List Units)
    (next : Units → List Units → Option β) :
    (RegExp.seq (.set (· = a)) (.set (· = a))).run cs captures next =
      if [a, a] <+: cs then next (cs.drop 2) captures else none := by
  match cs with
  | [] => rfl
  | [b] => by_cases hb : b = a <;> simp [RegExp.run, hb]
  | b :: c :: rest =>
      simp only [RegExp.run, List.cons_prefix_cons, List.nil_prefix, and_true, decide_eq_true_eq,
        @eq_comm _ a, List.drop_succ_cons, List.drop_zero, ite_and]

theorem matchAt_eq (cs : Units) : templateToken.matchAt cs =
    if OPENING <+: cs then
      RegExp.lazyRun (!LINE_TERMINATOR ·) (fun rest =>
        if CLOSING <+: rest then
          some (cs.length - (rest.drop 2).length,
            [(cs.drop 2).take ((cs.drop 2).length - rest.length)])
        else none) (cs.drop 2)
    else none := by
  have hopening := run_twice 0x7B cs [] fun rest captures =>
    (RegExp.seq (.capture (.lazyMany (!LINE_TERMINATOR ·)))
      (.seq (.set (· = 0x7D)) (.set (· = 0x7D)))).run rest captures fun rest captures =>
        some (cs.length - rest.length, captures)
  refine hopening.trans (if_congr Iff.rfl ?_ rfl)
  exact congrArg (fun next => RegExp.lazyRun _ next (cs.drop 2))
    (funext fun rest => run_twice 0x7D rest _ _)

variable {cs : Units}

theorem matchAt_none (h : OPENING <+: cs → ∀ n,
      (∀ c ∈ (cs.drop 2).take n, LINE_TERMINATOR c = false) → ¬ CLOSING <+: cs.drop (2 + n)) :
    templateToken.matchAt cs = none := by
  rw [matchAt_eq]
  split
  · rename_i hopen
    refine RegExp.lazyRun_none fun n hplain => if_neg ?_
    rw [List.drop_drop]
    exact h hopen n fun c hc => by simpa using hplain c hc
  · rfl

theorem matchAt_some {n : ℕ} (hopen : OPENING <+: cs)
    (hplain : ∀ c ∈ (cs.drop 2).take n, LINE_TERMINATOR c = false)
    (hclose : CLOSING <+: cs.drop (2 + n)) (hfirst : ∀ i < n, ¬ CLOSING <+: cs.drop (2 + i)) :
    templateToken.matchAt cs = some (n + 3 + 1, [(cs.drop 2).take n]) := by
  have hlength : 2 ≤ cs.length - (2 + n) := by
    have hle := hclose.length_le
    rwa [List.length_drop] at hle
  have hend : cs.length - (cs.length - (2 + n + 2)) = n + 3 + 1 := by omega
  have htoken : cs.length - 2 - (cs.length - (2 + n)) = n := by omega
  rw [matchAt_eq, if_pos hopen]
  refine RegExp.lazyRun_some (n := n) (fun c hc => by simp [hplain c hc]) ?_ fun i hi => ?_
  · simp only [List.drop_drop, if_pos hclose, List.length_drop, hend, htoken]
  · rw [List.drop_drop]
    exact if_neg (hfirst i hi)

end Expression

section Scan

variable {str : Units} {replacer : Replacer σ ε}

/-- No match starts where no opening does. -/
theorem no_opening {i : ℕ} (h : ¬ OPENING <+: str.drop i) :
    templateToken.matchAt (str.drop i) = none :=
  matchAt_none fun hopen => absurd hopen h

/-- No match starts where no closing follows. -/
theorem no_closing {start i : ℕ} (h : indexOf str CLOSING (start + 2) = none) (hi : start ≤ i) :
    templateToken.matchAt (str.drop i) = none := by
  refine matchAt_none fun _ n _ => ?_
  rw [List.drop_drop]
  exact indexOf_none h (by decide) (by omega)

/-- Where the first line break of a token stands in the text. -/
theorem findIdx_slice {start stop lineBreak : ℕ}
    (h : (slice str start stop).findIdx? LINE_TERMINATOR = some lineBreak) :
    ∃ c, str[start + lineBreak]? = some c ∧ LINE_TERMINATOR c = true ∧
      start + lineBreak < stop := by
  obtain ⟨hlt, hterminator, -⟩ := List.findIdx?_eq_some_iff_getElem.mp h
  have hget := List.getElem?_eq_getElem hlt
  have hlength := hlt
  rw [slice, List.length_drop, List.length_take] at hlength
  refine ⟨_, ?_, hterminator, by omega⟩
  rw [← hget, slice, List.getElem?_drop, List.getElem?_take_of_lt (by omega)]

/-- No match starts between an opening and a line break before the first closing. -/
theorem no_crossing {start stop lineBreak i : ℕ}
    (hstop : indexOf str CLOSING (start + 2) = some stop)
    (hbreak : (slice str (start + 2) stop).findIdx? LINE_TERMINATOR = some lineBreak)
    (hi : start ≤ i) (hi' : i ≤ start + 2 + lineBreak) :
    templateToken.matchAt (str.drop i) = none := by
  obtain ⟨-, -, -, hfirst⟩ := indexOf_some hstop
  obtain ⟨c, hc, hterminator, hinside⟩ := findIdx_slice hbreak
  refine matchAt_none fun hopen n hplain hclose => ?_
  rw [List.drop_drop] at hclose
  -- the match would close behind the first closing
  have hbehind : stop ≤ i + (2 + n) := by
    by_contra hbefore
    exact hfirst _ (by omega) (by omega) hclose
  have hbrace : str[i]? = some 0x7B ∧ str[i + 1]? = some 0x7B := by
    obtain ⟨rest, hrest⟩ := hopen
    have hget (j : ℕ) : str[i + j]? = (OPENING ++ rest)[j]? := by
      rw [hrest, List.getElem?_drop]
    exact ⟨hget 0, hget 1⟩
  -- and the line break is none of the opening braces
  have hinner : i + 2 ≤ start + 2 + lineBreak := by
    by_contra hbefore
    obtain heq | heq : start + 2 + lineBreak = i ∨ start + 2 + lineBreak = i + 1 := by omega
    · rw [heq, hbrace.1] at hc
      obtain rfl := Option.some.inj hc
      cases hterminator
    · rw [heq, hbrace.2] at hc
      obtain rfl := Option.some.inj hc
      cases hterminator
  have hmem : c ∈ ((str.drop i).drop 2).take n := by
    refine List.mem_of_getElem? (i := start + 2 + lineBreak - (i + 2)) ?_
    rw [List.getElem?_take_of_lt (by omega), List.getElem?_drop, List.getElem?_drop, ← hc]
    congr 1
    omega
  rw [hplain c hmem] at hterminator
  cases hterminator

/-- A token without a line break is matched from its opening up to the first closing. -/
theorem matchAt_token {start stop : ℕ} (hopen : OPENING <+: str.drop start) (h : start + 2 ≤ stop)
    (hclose : CLOSING <+: str.drop stop)
    (hfirst : ∀ j, start + 2 ≤ j → j < stop → ¬ CLOSING <+: str.drop j)
    (hplain : (slice str (start + 2) stop).findIdx? LINE_TERMINATOR = none) :
    templateToken.matchAt (str.drop start) =
      some (stop - start + 1 + 1, [slice str (start + 2) stop]) := by
  have htoken : ((str.drop start).drop 2).take (stop - (start + 2)) =
      slice str (start + 2) stop := by
    rw [List.drop_drop, slice, List.drop_take]
  have hlength : stop - start + 1 = stop - (start + 2) + 3 := by omega
  rw [hlength, ← htoken]
  refine matchAt_some hopen (fun c hc => ?_) ?_ fun i hi => ?_
  · rw [htoken] at hc
    exact List.findIdx?_eq_none_iff.mp hplain c hc
  · rw [List.drop_drop, show start + (2 + (stop - (start + 2))) = stop by omega]
    exact hclose
  · rw [List.drop_drop]
    exact hfirst _ (by omega) (by omega)

variable (str replacer) in
theorem skip_none {start stop : ℕ} (h : start ≤ stop) (hstop : stop ≤ str.length)
    (hnone : ∀ i, start ≤ i → i < stop → templateToken.matchAt (str.drop i) = none) :
    templateToken.replaceFrom replacer.onMatch 0
        (str.drop start) =
      (slice str start stop ++ ·) <$>
        templateToken.replaceFrom replacer.onMatch 0
          (str.drop stop) := by
  have hlength : stop - start ≤ (str.drop start).length := by
    rw [List.length_drop]
    omega
  rw [RegExp.replaceFrom_skip hlength fun i hi => ?_]
  · rw [List.drop_drop, Nat.add_sub_cancel' h, slice, List.drop_take]
  · rw [List.drop_drop]
    exact hnone _ (Nat.le_add_right _ i) (by omega)

theorem scanTokens_eq (out : Units) {cursor searchFrom : ℕ} (h : cursor ≤ searchFrom) :
    scanTokens str replacer out cursor searchFrom =
      (fun new => out ++ (slice str cursor searchFrom ++ new)) <$>
        templateToken.replaceFrom replacer.onMatch 0
          (str.drop searchFrom) := by
  fun_induction scanTokens str replacer out cursor searchFrom with
  | case1 out cursor searchFrom hlt hstart =>
      rw [RegExp.replaceFrom_none, map_pure, slice_drop h]
      intro i
      rw [List.drop_drop]
      exact no_opening (indexOf_none hstart (by decide) (Nat.le_add_right _ i))
  | case2 out cursor searchFrom hlt start hstart hend =>
      rw [RegExp.replaceFrom_none, map_pure, slice_drop h]
      intro i
      rw [List.drop_drop]
      obtain ⟨-, -, -, hfirst⟩ := indexOf_some hstart
      by_cases hi : searchFrom + i < start
      · exact no_opening (hfirst _ (Nat.le_add_right _ i) hi)
      · exact no_closing hend (Nat.le_of_not_lt hi)
  | case3 out cursor searchFrom hlt start hstart stop hend token lineBreak hbreak ih =>
      obtain ⟨hle, -, -, hfirst⟩ := indexOf_some hstart
      obtain ⟨-, hstop, -, -⟩ := indexOf_some hend
      obtain ⟨-, -, -, hinside⟩ := findIdx_slice hbreak
      have hskip := skip_none str replacer
        (show searchFrom ≤ start + 2 + lineBreak + 1 by omega) (by omega) fun i hi hi' => ?_
      · rw [hskip, ih (by omega), Functor.map_map, ← slice_append h (by omega)]
        simp only [List.append_assoc]
      · by_cases hbefore : i < start
        · exact no_opening (hfirst i hi hbefore)
        · exact no_crossing hend hbreak (Nat.le_of_not_lt hbefore) (by omega)
  | case4 out cursor searchFrom hlt start hstart stop hend token hplain ih =>
      obtain ⟨hle, hinside, hopen, hfirst⟩ := indexOf_some hstart
      obtain ⟨hle', hinside', hclose, hfirst'⟩ := indexOf_some hend
      have hskip := skip_none str replacer hle (Nat.le_of_lt hinside) fun i hi hi' =>
        no_opening (hfirst i hi hi')
      have hmatch := matchAt_token hopen hle' hclose hfirst' hplain
      have hfound : (str.drop start).take (stop - start + 1 + 1) = slice str start (stop + 2) := by
        rw [slice, List.drop_take]
        congr 1
        omega
      have hrest : (str.drop start).drop (stop - start + 1 + 1) = str.drop (stop + 2) := by
        rw [List.drop_drop]
        congr 1
        omega
      rw [hskip, RegExp.replaceFrom_match hmatch (List.ne_nil_of_length_pos (by
        rw [List.length_drop]
        omega)), hfound, hrest, Functor.map_map, map_bind]
      refine bind_congr fun replaced => ?_
      have hnone : slice str (stop + 2) (stop + 2) = [] := by
        rw [slice, List.drop_take, Nat.sub_self, List.take_zero]
      rw [ih replaced (Nat.le_refl _), hnone, Functor.map_map, ← slice_append h hle]
      simp only [List.append_assoc, List.nil_append]
  | case5 out cursor searchFrom hge =>
      rw [List.drop_eq_nil_of_le (Nat.le_of_not_lt hge), RegExp.replaceFrom_none, map_pure,
        ← slice_drop h, List.drop_eq_nil_of_le (Nat.le_of_not_lt hge)]
      intro i
      rw [List.drop_nil]
      rfl

/-- The scanner replaces the matches of the expression. -/
theorem scanner_replaces_matches (str : Units) (replacer : Replacer σ ε) :
    replaceTemplateTokens str replacer =
      templateToken.replaceAll str replacer.onMatch := by
  rw [replaceTemplateTokens, scanTokens_eq [] (Nat.le_refl 0), RegExp.replaceAll, List.drop_zero]
  exact id_map _

end Scan

end Kyberion.Pipeline
