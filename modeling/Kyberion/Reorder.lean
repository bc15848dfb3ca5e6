import Mathlib.Data.List.Sort
import Mathlib.Logic.Function.Iterate

/-!
Runs of actions by several parties, named by their numbers. When a party is only ever overtaken by
one whose actions commute with its own, the run ends as the parties do one after another.
-/

namespace Kyberion.Reorder

variable {σ : Type} (act : ℕ → σ → σ)

def run (l : List ℕ) (s : σ) : σ :=
  l.foldl (fun s i => act i s) s

def Commutes (i j : ℕ) : Prop :=
  ∀ s, act i (act j s) = act j (act i s)

variable {act} {l l' : List ℕ} {s : σ} {i j : ℕ}

@[simp] theorem run_nil : run act [] s = s := rfl

@[simp] theorem run_cons : run act (i :: l) s = run act l (act i s) := rfl

theorem run_append : run act (l ++ l') s = run act l' (run act l s) :=
  List.foldl_append

theorem run_replicate (n : ℕ) : run act (List.replicate n i) s = (act i)^[n] s := by
  induction n generalizing s with
  | zero => rfl
  | succ n ih => exact ih

/-- An action moves behind those of smaller numbers that it commutes with. -/
theorem run_orderedInsert (h : ∀ j ∈ l, j < i → Commutes act i j) :
    run act (l.orderedInsert (· ≤ ·) i) s = run act (i :: l) s := by
  induction l generalizing s with
  | nil => rfl
  | cons j rest ih =>
      rw [List.orderedInsert_cons]
      split
      · rfl
      · rename_i hle
        have hcomm : Commutes act i j := h j List.mem_cons_self (by omega)
        rw [run_cons, ih fun k hk => h k (List.mem_cons_of_mem j hk), run_cons, run_cons, run_cons,
          hcomm]

theorem run_insertionSort (h : l.Pairwise fun a b => b < a → Commutes act a b) :
    run act (l.insertionSort (· ≤ ·)) s = run act l s := by
  induction l generalizing s with
  | nil => rfl
  | cons i rest ih =>
      obtain ⟨hi, hrest⟩ := List.pairwise_cons.mp h
      rw [List.insertionSort_cons, run_orderedInsert, run_cons, run_cons, ih hrest]
      intro j hj
      exact hi j ((List.perm_insertionSort _ rest).mem_iff.mp hj)

/-- The actions of the parties below `n`, one party after another. -/
def blocks (l : List ℕ) (n : ℕ) : List ℕ :=
  (List.range n).flatMap fun i => List.replicate (l.count i) i

theorem blocks_succ (n : ℕ) :
    blocks l (n + 1) = blocks l n ++ List.replicate (l.count n) n := by
  simp [blocks, List.range_succ]

theorem count_blocks (n i : ℕ) : (blocks l n).count i = if i < n then l.count i else 0 := by
  induction n with
  | zero => simp [blocks]
  | succ n ih =>
      rw [blocks_succ, List.count_append, ih, List.count_replicate]
      rcases Nat.lt_trichotomy i n with h | rfl | h
      · have hsucc : i < n + 1 := by omega
        simp [h, h.ne', hsucc]
      · simp
      · have hle : ¬i < n := by omega
        have hsucc : ¬i < n + 1 := by omega
        simp [h.ne, hle, hsucc]

theorem sorted_blocks (n : ℕ) : (blocks l n).Pairwise (· ≤ ·) := by
  unfold blocks
  rw [List.pairwise_flatMap]
  refine ⟨fun i _ => List.pairwise_replicate.mpr (.inr le_rfl), ?_⟩
  refine List.pairwise_lt_range.imp fun {i j} hlt a ha b hb => ?_
  rw [List.eq_of_mem_replicate ha, List.eq_of_mem_replicate hb]
  exact hlt.le

/-- The sorted run goes through the parties one after another. -/
theorem insertionSort_eq_blocks {n : ℕ} (h : ∀ i ∈ l, i < n) :
    l.insertionSort (· ≤ ·) = blocks l n := by
  refine List.Perm.eq_of_pairwise (fun a b _ _ hab hba => le_antisymm hab hba)
    (List.pairwise_insertionSort (· ≤ ·) l) (sorted_blocks n) ?_
  refine (List.perm_insertionSort _ l).trans (List.perm_iff_count.mpr fun i => ?_)
  rw [count_blocks]
  split
  · rfl
  · rename_i hlt
    exact List.count_eq_zero.mpr fun hmem => hlt (h i hmem)

/-- A run in which nobody overtakes a party that it interferes with is the run of the parties one
after another. -/
theorem run_eq_blocks {n : ℕ} (hbound : ∀ i ∈ l, i < n)
    (h : l.Pairwise fun a b => b < a → Commutes act a b) :
    run act l s = run act (blocks l n) s := by
  rw [← insertionSort_eq_blocks hbound, run_insertionSort h]

end Kyberion.Reorder
