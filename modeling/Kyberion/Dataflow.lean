import Mathlib.Data.List.Nodup
import Mathlib.Data.List.Induction

/-!
Nodes that each write keys of their own and read keys of the nodes before them. Every order that
respects the precedence computes the same values, and a key has its value from the point on at
which its owner is done.
-/

namespace Kyberion

section Preceded

variable {α : Type}

/-- Each element has the property with respect to what is before it. -/
def Preceded (P : List α → α → Prop) (l : List α) : Prop :=
  ∀ pre a post, l = pre ++ a :: post → P pre a

theorem Preceded.nil {P : List α → α → Prop} : Preceded P [] :=
  fun pre a post h => absurd h (by simp)

theorem Preceded.snoc {P : List α → α → Prop} {l : List α} {a : α} (h : Preceded P l) (ha : P l a) :
    Preceded P (l ++ [a]) := by
  intro pre b post hl
  cases post using List.reverseRecOn with
  | nil =>
      obtain ⟨rfl, hb⟩ := List.append_inj' hl rfl
      obtain rfl := List.singleton_inj.mp hb
      exact ha
  | append_singleton post c =>
      rw [← List.cons_append, ← List.append_assoc] at hl
      exact h pre b post (List.append_inj' hl rfl).1

theorem Preceded.of_append {P : List α → α → Prop} {l l' : List α} (h : Preceded P (l ++ l')) :
    Preceded P l :=
  fun pre a post hl => h pre a (post ++ l') (by rw [hl, List.append_assoc, List.cons_append])

end Preceded

variable {N K W : Type}

/-- `own n k` says that `n` writes `k`; `before m n` that `n` may read what `m` writes. -/
structure Dataflow (N K W : Type) where
  step : N → (K → W) → K → W
  own : N → K → Prop
  before : N → N → Prop
  frame : ∀ n c k, ¬ own n k → step n c k = c k
  disjoint : ∀ m n k, own m k → own n k → m = n
  reads : ∀ n c c', (∀ k, (∀ m, own m k → m = n ∨ before m n) → c k = c' k) →
    ∀ k, own n k → step n c k = step n c' k

namespace Dataflow

variable (F : Dataflow N K W) {l l' pre post : List N} {c : K → W} {n : N} {k : K}

/-- The nodes one at a time. -/
def run (l : List N) (c : K → W) : K → W :=
  l.foldl (fun c n => F.step n c) c

/-- Every node comes once, and after the nodes that it may read from. -/
structure Topological (l : List N) : Prop where
  nodup : l.Nodup
  closed : Preceded (fun pre n => ∀ m, F.before m n → m ∈ pre) l

variable {F}

theorem run_append : F.run (l ++ l') c = F.run l' (F.run l c) :=
  List.foldl_append

theorem run_snoc : F.run (l ++ [n]) c = F.step n (F.run l c) :=
  run_append

/-- A key is left alone by nodes that do not own it. -/
theorem run_frame (h : ∀ n ∈ l, ¬ F.own n k) : F.run l c k = c k := by
  induction l generalizing c with
  | nil => rfl
  | cons n rest ih =>
      rw [List.forall_mem_cons] at h
      exact (ih h.2).trans (F.frame n c k h.1)

/-- A key keeps its value when the nodes that follow do not own it. -/
theorem run_prefix (hnodup : (pre ++ post).Nodup) (hn : n ∈ pre) (hk : F.own n k) :
    F.run (pre ++ post) c k = F.run pre c k := by
  rw [run_append]
  refine run_frame fun m hm hown => ?_
  obtain rfl := F.disjoint m n k hown hk
  exact (List.disjoint_of_nodup_append hnodup) hn hm

/-- Before its node has run, a key has the value it started with. -/
theorem run_start (hn : n ∉ pre) (hk : F.own n k) : F.run pre c k = c k := by
  refine run_frame fun m hm hown => hn ?_
  rw [← F.disjoint m n k hown hk]
  exact hm

theorem Topological.of_append (h : F.Topological (l ++ l')) : F.Topological l :=
  ⟨h.nodup.of_append_left, h.closed.of_append⟩

theorem Topological.snoc (h : F.Topological l) (hfresh : n ∉ l)
    (hbefore : ∀ m, F.before m n → m ∈ l) : F.Topological (l ++ [n]) where
  nodup := h.nodup.append (List.nodup_singleton n) (List.disjoint_singleton.mpr hfresh)
  closed := h.closed.snoc hbefore

theorem Topological.split (h : F.Topological l) (hn : n ∈ l) :
    ∃ pre post, l = pre ++ n :: post ∧ n ∉ pre ∧ ∀ m, F.before m n → m ∈ pre := by
  obtain ⟨pre, post, rfl⟩ := List.append_of_mem hn
  refine ⟨pre, post, rfl, ?_, h.closed pre n post rfl⟩
  have hnodup := h.nodup
  rw [List.nodup_append] at hnodup
  exact fun hmem => hnodup.2.2 n hmem n List.mem_cons_self rfl

/-- In any two orders of the same nodes, the keys of a prefix of the one get the same values. -/
theorem Topological.run_prefix_eq (h : F.Topological l) (h' : F.Topological l')
    (hmem : ∀ n, n ∈ l → n ∈ l') {pre post : List N} (hpre : l = pre ++ post) :
    ∀ n ∈ pre, ∀ k, F.own n k → F.run l c k = F.run l' c k := by
  induction pre using List.reverseRecOn generalizing post with
  | nil => exact fun n hn => nomatch hn
  | append_singleton pre n ih =>
      rw [List.append_assoc, List.singleton_append] at hpre
      have hrest := ih hpre
      refine fun m hm k hk => (List.mem_append.mp hm).elim (fun hold => hrest m hold k hk) fun hnew => ?_
      obtain rfl := List.mem_singleton.mp hnew
      obtain ⟨pre', post', hpre', hfresh', hbefore'⟩ := h'.split (hmem m (by simp [hpre]))
      have hbefore := h.closed pre m post hpre
      have hnodup : (pre ++ [m] ++ post).Nodup := by
        rw [List.append_assoc, List.singleton_append, ← hpre]
        exact h.nodup
      have hnodup' : (pre' ++ [m] ++ post').Nodup := by
        rw [List.append_assoc, List.singleton_append, ← hpre']
        exact h'.nodup
      have hfresh : m ∉ pre := fun hmem => by
        simpa [hmem] using List.disjoint_of_nodup_append hnodup.of_append_left hmem
      have hsplit : l = pre ++ [m] ++ post := by rw [hpre, List.append_assoc, List.singleton_append]
      have hsplit' : l' = pre' ++ [m] ++ post' := by
        rw [hpre', List.append_assoc, List.singleton_append]
      calc F.run l c k
          _ = F.step m (F.run pre c) k := by
            rw [hsplit, run_prefix hnodup (by simp) hk, run_snoc]
          _ = F.step m (F.run pre' c) k := F.reads m _ _ (fun k' howners => ?_) k hk
          _ = F.run l' c k := by rw [hsplit', run_prefix hnodup' (by simp) hk, run_snoc]
      by_cases howned : ∃ d, F.own d k'
      · obtain ⟨d, hd⟩ := howned
        rcases howners d hd with rfl | hdm
        · rw [run_start hfresh hd, run_start hfresh' hd]
        · have hvalue := hrest d (hbefore d hdm) k' hd
          rw [hpre, run_prefix (hpre ▸ h.nodup) (hbefore d hdm) hd] at hvalue
          rw [hvalue, hpre', run_prefix (hpre' ▸ h'.nodup) (hbefore' d hdm) hd]
      · have hfree : ∀ d, ¬ F.own d k' := fun d hd => howned ⟨d, hd⟩
        rw [run_frame fun d _ => hfree d, run_frame fun d _ => hfree d]

/-- Orders of the same nodes that respect the precedence compute the same values. -/
theorem Topological.run_eq (h : F.Topological l) (h' : F.Topological l')
    (hmem : ∀ n, n ∈ l ↔ n ∈ l') : F.run l c = F.run l' c := by
  funext k
  by_cases howned : ∃ n ∈ l, F.own n k
  · obtain ⟨n, hn, hk⟩ := howned
    exact h.run_prefix_eq h' (fun n hn => (hmem n).mp hn) (List.append_nil l).symm n hn k hk
  · have hfree : ∀ n ∈ l, ¬ F.own n k := fun n hn hk => howned ⟨n, hn, hk⟩
    rw [run_frame hfree, run_frame fun n hn => hfree n ((hmem n).mpr hn)]

/-- A key has its value once all its owners are done. -/
theorem run_agree (hnodup : (pre ++ post).Nodup) (howners : ∀ m, F.own m k → m ∈ pre) :
    F.run pre c k = F.run (pre ++ post) c k := by
  rw [run_append]
  refine (run_frame fun m hm hown => ?_).symm
  exact (List.disjoint_of_nodup_append hnodup) (howners m hown) hm

end Dataflow

end Kyberion
