import Mathlib.Data.List.Basic
import Mathlib.Data.List.TakeDrop

/-!
Texts as code units, and regular expressions over them as the runtime matches
them: sets of code units, sequences, repetitions of a set, captures and the end
of the text. The matcher backtracks through a continuation; a search and a
global replacement go through the text from left to right.
-/

namespace Kyberion.Js

abbrev Units := List UInt16

section Positions

/-- `indexOf` for a text that is not empty. -/
def indexOf (s sub : Units) (start : ℕ) : Option ℕ :=
  (List.range' start (s.length - start)).find? fun i => sub.isPrefixOf (s.drop i)

def slice (s : Units) (start stop : ℕ) : Units :=
  (s.take stop).drop start

variable {s sub : Units} {start : ℕ}

theorem slice_append {mid stop : ℕ} (h : start ≤ mid) (h' : mid ≤ stop) :
    slice s start mid ++ slice s mid stop = slice s start stop := by
  have hlength : stop - start = (mid - start) + (stop - mid) := by omega
  rw [slice, slice, slice, List.drop_take, List.drop_take, List.drop_take, hlength, List.take_add,
    List.drop_drop, Nat.add_sub_cancel' h]

theorem slice_drop {mid : ℕ} (h : start ≤ mid) :
    slice s start mid ++ s.drop mid = s.drop start := by
  conv_rhs => rw [← List.take_append_drop (mid - start) (s.drop start)]
  rw [slice, List.drop_take, List.drop_drop, Nat.add_sub_cancel' h]

theorem indexOf_some {i : ℕ} (h : indexOf s sub start = some i) :
    start ≤ i ∧ i < s.length ∧ sub <+: s.drop i ∧
      ∀ j, start ≤ j → j < i → ¬ sub <+: s.drop j := by
  obtain ⟨hfound, before, after, hsplit, hbefore⟩ := List.find?_eq_some_iff_append.mp h
  have hmem : i ∈ List.range' start (s.length - start) := by
    rw [hsplit]
    exact List.mem_append_right _ List.mem_cons_self
  rw [List.mem_range'_1] at hmem
  refine ⟨hmem.1, by omega, List.isPrefixOf_iff_prefix.mp hfound, fun j hj hji hprefix => ?_⟩
  have hjmem : j ∈ before ++ i :: after := by
    rw [← hsplit, List.mem_range'_1]
    omega
  have hsorted := List.pairwise_lt_range' (s := start) (n := s.length - start)
  rw [hsplit, List.pairwise_append, List.pairwise_cons] at hsorted
  rcases List.mem_append.mp hjmem with hold | hrest
  · have hno := hbefore j hold
    rw [Bool.not_eq_true', ← Bool.not_eq_true, List.isPrefixOf_iff_prefix] at hno
    exact hno hprefix
  · rcases List.mem_cons.mp hrest with rfl | hlater
    · exact Nat.lt_irrefl _ hji
    · exact Nat.lt_asymm hji (hsorted.2.1.1 j hlater)

theorem indexOf_none (h : indexOf s sub start = none) (hsub : sub ≠ []) {j : ℕ} (hj : start ≤ j) :
    ¬ sub <+: s.drop j := by
  intro hprefix
  by_cases hend : j < s.length
  · refine List.find?_eq_none.mp h j ?_ (List.isPrefixOf_iff_prefix.mpr hprefix)
    rw [List.mem_range'_1]
    omega
  · rw [List.drop_eq_nil_of_le (by omega), List.prefix_nil] at hprefix
    exact hsub hprefix

end Positions

inductive RegExp
  | empty
  | set (p : UInt16 → Bool)
  | seq (r r' : RegExp)
  | many (p : UInt16 → Bool)
  | lazyMany (p : UInt16 → Bool)
  | capture (r : RegExp)
  | atEnd

namespace RegExp

/-- The code units of a word, and what follows it. -/
def word (cs : Units) (r : RegExp) : RegExp :=
  cs.foldr (fun c r => .seq (.set (· = c)) r) r

/-- A set so many times, and what follows it. -/
def times (n : ℕ) (p : UInt16 → Bool) (r : RegExp) : RegExp :=
  n.repeat (fun r => .seq (.set p) r) r

section Match

variable {β : Type}

/-- Goes on at once, and past one more code unit only where that fails. -/
def lazyRun (p : UInt16 → Bool) (next : Units → Option β) : Units → Option β
  | [] => next []
  | c :: cs =>
      match next (c :: cs) with
      | some b => some b
      | none => if p c then lazyRun p next cs else none

/-- Goes on past one more code unit, and at once only where that fails. -/
def greedyRun (p : UInt16 → Bool) (next : Units → Option β) : Units → Option β
  | [] => next []
  | c :: cs =>
      match if p c then greedyRun p next cs else none with
      | some b => some b
      | none => next (c :: cs)

/-- Matches at the front of a text and goes on with the rest and the captures, which come in the
order in which their groups end. -/
def run : RegExp → Units → List Units → (Units → List Units → Option β) → Option β
  | empty, cs, captures, next => next cs captures
  | set _, [], _, _ => none
  | set p, c :: cs, captures, next => if p c then next cs captures else none
  | seq r r', cs, captures, next => r.run cs captures fun cs captures => r'.run cs captures next
  | many p, cs, captures, next => greedyRun p (fun rest => next rest captures) cs
  | lazyMany p, cs, captures, next => lazyRun p (fun rest => next rest captures) cs
  | capture r, cs, captures, next =>
      r.run cs captures fun rest captures =>
        next rest (captures ++ [cs.take (cs.length - rest.length)])
  | atEnd, cs, captures, next => if cs = [] then next cs captures else none

/-- The length of the match at the front of a text, and its captures. -/
def matchAt (r : RegExp) (cs : Units) : Option (ℕ × List Units) :=
  r.run cs [] fun rest captures => some (cs.length - rest.length, captures)

/-- The captures of the first match in a text. -/
def exec (r : RegExp) : Units → Option (List Units)
  | [] => (r.matchAt []).map (·.2)
  | c :: cs =>
      match r.matchAt (c :: cs) with
      | some (_, captures) => some captures
      | none => r.exec cs

variable {p : UInt16 → Bool} {next : Units → Option β}

/-- A lazy repetition takes the fewest code units with which the rest matches. -/
theorem lazyRun_some {cs : Units} {n : ℕ} {b : β} (hset : ∀ c ∈ cs.take n, p c = true)
    (hnext : next (cs.drop n) = some b) (hfewest : ∀ i < n, next (cs.drop i) = none) :
    lazyRun p next cs = some b := by
  induction cs generalizing n with
  | nil => rwa [List.drop_nil] at hnext
  | cons c cs ih =>
      rw [lazyRun]
      cases n with
      | zero => rw [show next (c :: cs) = some b from hnext]
      | succ n =>
          have hfirst : next (c :: cs) = none := hfewest 0 (Nat.zero_lt_succ n)
          rw [List.take_succ_cons] at hset
          obtain ⟨hc, hrest⟩ := List.forall_mem_cons.mp hset
          rw [hfirst, if_pos hc]
          exact ih hrest hnext fun i hi => hfewest (i + 1) (Nat.succ_lt_succ hi)

theorem lazyRun_none {cs : Units}
    (h : ∀ n, (∀ c ∈ cs.take n, p c = true) → next (cs.drop n) = none) :
    lazyRun p next cs = none := by
  induction cs with
  | nil => exact h 0 (List.forall_mem_nil _)
  | cons c cs ih =>
      have hfirst : next (c :: cs) = none := h 0 (List.forall_mem_nil _)
      rw [lazyRun, hfirst]
      by_cases hc : p c = true
      · rw [if_pos hc]
        exact ih fun n hset => h (n + 1) (List.forall_mem_cons.mpr ⟨hc, hset⟩)
      · rw [if_neg hc]

theorem lazyRun_takes {cs : Units} {b : β} (h : lazyRun p next cs = some b) :
    ∃ taken rest, cs = taken ++ rest ∧ (∀ c ∈ taken, p c = true) ∧ next rest = some b := by
  induction cs with
  | nil => exact ⟨[], [], rfl, List.forall_mem_nil _, h⟩
  | cons c cs ih =>
      rw [lazyRun] at h
      split at h
      · rename_i hnow
        obtain rfl := Option.some.inj h
        exact ⟨[], c :: cs, rfl, List.forall_mem_nil _, hnow⟩
      · split at h
        · rename_i hc
          obtain ⟨taken, rest, rfl, hset, hnext⟩ := ih h
          exact ⟨c :: taken, rest, rfl, List.forall_mem_cons.mpr ⟨hc, hset⟩, hnext⟩
        · cases h

theorem greedyRun_takes {cs : Units} {b : β} (h : greedyRun p next cs = some b) :
    ∃ taken rest, cs = taken ++ rest ∧ (∀ c ∈ taken, p c = true) ∧ next rest = some b := by
  induction cs with
  | nil => exact ⟨[], [], rfl, List.forall_mem_nil _, h⟩
  | cons c cs ih =>
      rw [greedyRun] at h
      split at h
      · rename_i hmore
        obtain rfl := Option.some.inj h
        split at hmore
        · rename_i hc
          obtain ⟨taken, rest, rfl, hset, hnext⟩ := ih hmore
          exact ⟨c :: taken, rest, rfl, List.forall_mem_cons.mpr ⟨hc, hset⟩, hnext⟩
        · cases hmore
      · exact ⟨[], c :: cs, rfl, List.forall_mem_nil _, h⟩

/-- The texts that an expression takes from the front of a text, with what they leave. -/
def Takes : RegExp → Units → Units → Prop
  | empty, taken, _ => taken = []
  | set p, taken, _ => ∃ c, taken = [c] ∧ p c = true
  | seq r r', taken, rest => ∃ front back, taken = front ++ back ∧
      r.Takes front (back ++ rest) ∧ r'.Takes back rest
  | many p, taken, _ => ∀ c ∈ taken, p c = true
  | lazyMany p, taken, _ => ∀ c ∈ taken, p c = true
  | capture r, taken, rest => r.Takes taken rest
  | atEnd, taken, rest => taken = [] ∧ rest = []

/-- A run goes on behind what the expression takes. -/
theorem run_takes (r : RegExp) {cs : Units} {captures : List Units}
    {next : Units → List Units → Option β} {b : β} (h : r.run cs captures next = some b) :
    ∃ taken rest captures', cs = taken ++ rest ∧ r.Takes taken rest ∧
      next rest captures' = some b := by
  induction r generalizing cs captures next with
  | empty => exact ⟨[], cs, captures, rfl, rfl, h⟩
  | set p =>
      cases cs with
      | nil => cases h
      | cons c cs =>
          rw [run] at h
          split at h
          · exact ⟨[c], cs, captures, rfl, ⟨c, rfl, ‹_›⟩, h⟩
          · cases h
  | seq r r' ih ih' =>
      obtain ⟨front, rest, captures', rfl, hfront, hnext⟩ := ih h
      obtain ⟨back, rest', captures'', rfl, hback, hlast⟩ := ih' hnext
      exact ⟨front ++ back, rest', captures'', (List.append_assoc _ _ _).symm,
        ⟨front, back, rfl, hfront, hback⟩, hlast⟩
  | many p =>
      obtain ⟨taken, rest, rfl, hset, hnext⟩ := greedyRun_takes h
      exact ⟨taken, rest, captures, rfl, hset, hnext⟩
  | lazyMany p =>
      obtain ⟨taken, rest, rfl, hset, hnext⟩ := lazyRun_takes h
      exact ⟨taken, rest, captures, rfl, hset, hnext⟩
  | capture r ih =>
      obtain ⟨taken, rest, captures', rfl, htaken, hnext⟩ := ih h
      exact ⟨taken, rest, _, rfl, htaken, hnext⟩
  | atEnd =>
      rw [run] at h
      split at h
      · rename_i hend
        exact ⟨[], cs, captures, rfl, ⟨rfl, hend⟩, h⟩
      · cases h

theorem matchAt_takes {r : RegExp} {cs : Units} {found : ℕ × List Units}
    (h : r.matchAt cs = some found) : ∃ taken rest, cs = taken ++ rest ∧ r.Takes taken rest := by
  obtain ⟨taken, rest, -, hcs, htaken, -⟩ := r.run_takes h
  exact ⟨taken, rest, hcs, htaken⟩

theorem exec_takes {r : RegExp} {cs : Units} {captures : List Units}
    (h : r.exec cs = some captures) :
    ∃ front taken rest, cs = front ++ (taken ++ rest) ∧ r.Takes taken rest := by
  induction cs with
  | nil =>
      obtain ⟨found, hfound, -⟩ := Option.map_eq_some_iff.mp h
      obtain ⟨taken, rest, hcs, htaken⟩ := matchAt_takes hfound
      exact ⟨[], taken, rest, hcs, htaken⟩
  | cons c cs ih =>
      rw [exec] at h
      split at h
      · rename_i hfound
        obtain ⟨taken, rest, hcs, htaken⟩ := matchAt_takes hfound
        exact ⟨[], taken, rest, hcs, htaken⟩
      · obtain ⟨front, taken, rest, rfl, htaken⟩ := ih h
        exact ⟨c :: front, taken, rest, rfl, htaken⟩

end Match

section Replace

variable {m : Type → Type} [Monad m]

/-- `replace` for a global expression, with so many code units of the last match to skip. A match
of no code units is followed by the code unit it stands before. -/
def replaceFrom (r : RegExp) (replacer : Units → List Units → m Units) : ℕ → Units → m Units
  | _, [] =>
      match r.matchAt [] with
      | some (_, captures) => replacer [] captures
      | none => pure []
  | skip + 1, _ :: cs => replaceFrom r replacer skip cs
  | 0, c :: cs =>
      match r.matchAt (c :: cs) with
      | none => (c :: ·) <$> replaceFrom r replacer 0 cs
      | some (0, captures) => do
          let new ← replacer [] captures
          (new ++ c :: ·) <$> replaceFrom r replacer 0 cs
      | some (n + 1, captures) => do
          let new ← replacer ((c :: cs).take (n + 1)) captures
          (new ++ ·) <$> replaceFrom r replacer n cs

def replaceAll (r : RegExp) (s : Units) (replacer : Units → List Units → m Units) : m Units :=
  replaceFrom r replacer 0 s

variable {r : RegExp} {replacer : Units → List Units → m Units} {cs : Units}

theorem replaceFrom_drop (n : ℕ) (cs : Units) :
    replaceFrom r replacer n cs = replaceFrom r replacer 0 (cs.drop n) := by
  induction cs generalizing n with
  | nil => rw [List.drop_nil, replaceFrom, replaceFrom]
  | cons c cs ih =>
      cases n with
      | zero => rfl
      | succ n => exact ih n

theorem replaceFrom_match {n : ℕ} {captures : List Units}
    (h : r.matchAt cs = some (n + 1, captures)) (hcs : cs ≠ []) :
    replaceFrom r replacer 0 cs = replacer (cs.take (n + 1)) captures >>= fun new =>
      (new ++ ·) <$> replaceFrom r replacer 0 (cs.drop (n + 1)) := by
  cases cs with
  | nil => exact absurd rfl hcs
  | cons c cs =>
      rw [replaceFrom, h]
      dsimp only
      rw [replaceFrom_drop, List.drop_succ_cons]

variable [LawfulMonad m]

/-- What stands before the first match stays as it is. -/
theorem replaceFrom_skip {n : ℕ} (hn : n ≤ cs.length) (h : ∀ i < n, r.matchAt (cs.drop i) = none) :
    replaceFrom r replacer 0 cs =
      (cs.take n ++ ·) <$> replaceFrom r replacer 0 (cs.drop n) := by
  induction cs generalizing n with
  | nil => simp
  | cons c cs ih =>
      cases n with
      | zero => simp
      | succ n =>
          have hfirst : r.matchAt (c :: cs) = none := h 0 (Nat.zero_lt_succ n)
          rw [replaceFrom, hfirst]
          dsimp only
          rw [ih (Nat.le_of_succ_le_succ hn) fun i hi => h (i + 1) (Nat.succ_lt_succ hi),
            Functor.map_map]
          rfl

theorem replaceFrom_none (h : ∀ i, r.matchAt (cs.drop i) = none) :
    replaceFrom r replacer 0 cs = pure cs := by
  have hend : r.matchAt [] = none := by
    have hlast := h cs.length
    rwa [List.drop_length] at hlast
  rw [replaceFrom_skip (Nat.le_refl _) fun i _ => h i, List.drop_length, List.take_length,
    replaceFrom, hend]
  simp

end Replace

end RegExp

end Kyberion.Js
