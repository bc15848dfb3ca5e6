import Kyberion.Dataflow
import Mathlib.Data.List.Perm.Subperm
import Mathlib.Data.Set.Finite.Basic
import Mathlib.Logic.Relation
import Mathlib.Order.WellFounded

/-!
Visiting the nodes of a graph that may have several edges between two nodes. A node has a number of
edges that it needs, and is visited when that many edges from visited nodes lead into it.
-/

namespace Kyberion.Visit

variable {α ε : Type} [DecidableEq α]

section Acyclic

omit [DecidableEq α] in
/-- Some node of a list has no predecessor in it, unless the relation has a cycle. -/
theorem exists_first {r : α → α → Prop} (h : ∀ a, ¬ Relation.TransGen r a a) {l : List α}
    (hne : l ≠ []) : ∃ v ∈ l, ∀ u ∈ l, ¬ r u v := by
  let below (a b : {a // a ∈ l}) : Prop := Relation.TransGen r a b
  have : IsTrans {a // a ∈ l} below := ⟨fun _ _ _ => Relation.TransGen.trans⟩
  have : Std.Irrefl below := ⟨fun a => h a⟩
  have : Finite {a // a ∈ l} := List.finite_toSet l
  obtain ⟨a, ha⟩ := List.exists_mem_of_ne_nil l hne
  obtain ⟨⟨v, hv⟩, -, hmin⟩ :=
    (Finite.wellFounded_of_trans_of_irrefl below).has_min Set.univ ⟨⟨a, ha⟩, trivial⟩
  exact ⟨v, hv, fun u hu huv => hmin ⟨u, hu⟩ trivial (.single huv)⟩

end Acyclic

variable (source target : ε → α)

/-- The edges into a node from the nodes of a list. -/
def countInto (edges : List ε) (front : List α) (v : α) : ℕ :=
  edges.countP fun e => decide (target e = v) && decide (source e ∈ front)

/-- One edge less is missing; at zero the node is ready. -/
def releaseEdge (state : (α → ℤ) × List α) (e : ε) : (α → ℤ) × List α :=
  let next := state.1 (target e) - 1
  (fun v => if v = target e then next else state.1 v,
    if next = 0 then state.2 ++ [target e] else state.2)

def visits (edges : List ε) : ℕ → List α → (α → ℤ) → List α
  | 0, _, _ => []
  | _, [], _ => []
  | fuel + 1, current :: queue, remaining =>
      let (remaining, ready) :=
        (edges.filter fun e => source e = current).foldl (releaseEdge target) (remaining, [])
      current :: visits edges fuel (queue ++ ready) remaining

variable {source target} {edges : List ε} {nodes front : List α} {need : α → ℕ} {v : α}

section Counting

theorem countInto_mono {front' : List α} (h : front ⊆ front') :
    countInto source target edges front v ≤ countInto source target edges front' v := by
  refine List.countP_mono_left fun e _ he => ?_
  simp only [Bool.and_eq_true, decide_eq_true_eq] at he ⊢
  exact ⟨he.1, h he.2⟩

theorem countInto_snoc {current : α} (h : current ∉ front) :
    countInto source target edges (front ++ [current]) v =
      countInto source target edges front v +
        (edges.filter fun e => source e = current).countP fun e => target e = v := by
  rw [List.countP_filter]
  induction edges with
  | nil => rfl
  | cons e edges ih =>
      have hnot : source e = current → source e ∉ front := fun heq => heq ▸ h
      simp only [countInto, List.countP_cons, Bool.and_eq_true, decide_eq_true_eq, List.mem_append,
        List.mem_singleton] at ih ⊢
      rw [ih]
      by_cases hv : target e = v
      · by_cases hcurrent : source e = current
        · simp only [hv, hcurrent, h, or_true, true_and, and_true, if_true, if_false]
          omega
        · simp only [hv, hcurrent, or_false, true_and, and_false, if_false]
          omega
      · simp only [hv, false_and, if_false]
        omega

/-- After the edges of one node: each target misses as many edges less, and those that reached zero
are ready. -/
theorem foldl_releaseEdge (target : ε → α) (es : List ε) (remaining : α → ℤ) (ready : List α) :
    (∀ v, (es.foldl (releaseEdge target) (remaining, ready)).1 v =
        remaining v - es.countP fun e => target e = v) ∧
      ∃ news, (es.foldl (releaseEdge target) (remaining, ready)).2 = ready ++ news ∧ news.Nodup ∧
        ∀ v, v ∈ news ↔ 0 < remaining v ∧ remaining v ≤ es.countP fun e => target e = v := by
  induction es generalizing remaining ready with
  | nil => exact ⟨fun v => by simp, [], by simp, List.nodup_nil, fun v => by simp⟩
  | cons e es ih =>
      obtain ⟨hleft, news, hready, hnodup, hnews⟩ := ih
        (fun v => if v = target e then remaining (target e) - 1 else remaining v)
        (if remaining (target e) - 1 = 0 then ready ++ [target e] else ready)
      rw [List.foldl_cons]
      refine ⟨fun v => ?_, ?_⟩
      · refine (hleft v).trans ?_
        by_cases hv : v = target e
        · subst hv
          simp
          omega
        · simp [hv, Ne.symm hv]
      · by_cases hzero : remaining (target e) - 1 = 0
        · refine ⟨target e :: news, ?_, List.nodup_cons.mpr ⟨?_, hnodup⟩, fun v => ?_⟩
          · refine hready.trans ?_
            rw [if_pos hzero, List.append_assoc, List.singleton_append]
          · rw [hnews, if_pos rfl]
            omega
          · rw [List.mem_cons, hnews]
            by_cases hv : v = target e
            · subst hv
              simp
              omega
            · simp [hv, Ne.symm hv]
        · refine ⟨news, ?_, hnodup, fun v => ?_⟩
          · refine hready.trans ?_
            rw [if_neg hzero]
          · rw [hnews]
            by_cases hv : v = target e
            · subst hv
              simp
              omega
            · simp [hv, Ne.symm hv]

end Counting

section Runs

/-- The visited nodes and the queue are the nodes that have what they need from the visited ones. -/
structure Visiting (source target : ε → α) (edges : List ε) (nodes : List α) (need : α → ℕ)
    (visited queue : List α) (remaining : α → ℤ) : Prop where
  nodup : (visited ++ queue).Nodup
  known : visited ++ queue ⊆ nodes
  left : ∀ v ∈ nodes, remaining v = need v - countInto source target edges visited v
  ready : ∀ v ∈ nodes, v ∈ visited ++ queue ↔ need v ≤ countInto source target edges visited v
  enough : Preceded (fun front v => need v ≤ countInto source target edges front v) visited

variable {visited queue : List α} {remaining : α → ℤ}

theorem Visiting.step (htarget : ∀ e ∈ edges, target e ∈ nodes) {current : α}
    (h : Visiting source target edges nodes need visited (current :: queue) remaining) :
    let next := (edges.filter fun e => source e = current).foldl (releaseEdge target) (remaining, [])
    Visiting source target edges nodes need (visited ++ [current]) (queue ++ next.2) next.1 := by
  obtain ⟨hleft, news, hready, hnodup, hnews⟩ :=
    foldl_releaseEdge target (edges.filter fun e => source e = current) remaining []
  rw [List.nil_append] at hready
  have hcurrent : current ∉ visited := by
    have hdisjoint := List.disjoint_of_nodup_append h.nodup
    exact fun hmem => hdisjoint hmem List.mem_cons_self
  have hcount (v : α) : countInto source target edges (visited ++ [current]) v = _ :=
    countInto_snoc hcurrent
  have hmem (v : α) : v ∈ visited ++ [current] ++ (queue ++ news) ↔
      v ∈ visited ++ current :: queue ∨ v ∈ news := by
    simp only [List.mem_append, List.mem_cons, List.not_mem_nil, or_false]
    tauto
  have hnewsKnown : ∀ v ∈ news, v ∈ nodes := by
    intro v hv
    obtain ⟨hpos, hle⟩ := (hnews v).mp hv
    obtain ⟨e, he, htv⟩ := List.countP_pos_iff.mp (by omega : 0 <
      (edges.filter fun e => source e = current).countP fun e => target e = v)
    rw [decide_eq_true_eq] at htv
    exact htv ▸ htarget e (List.mem_filter.mp he).1
  dsimp only
  rw [hready]
  refine ⟨?_, fun v hv => ?_, fun v hv => ?_, fun v hv => ?_, ?_⟩
  · rw [← List.append_assoc, List.append_assoc visited, List.singleton_append]
    refine h.nodup.append hnodup fun v hold hnew => ?_
    obtain ⟨hpos, -⟩ := (hnews v).mp hnew
    have hv := h.known hold
    have hdone := (h.ready v hv).mp hold
    have hremaining := h.left v hv
    omega
  · rcases (hmem v).mp hv with hold | hnew
    · exact h.known hold
    · exact hnewsKnown v hnew
  · rw [hleft, h.left v hv, hcount]
    omega
  · rw [hmem, hnews, h.ready v hv, h.left v hv, hcount]
    omega
  · refine h.enough.snoc ?_
    exact (h.ready current (h.known (by simp))).mp (by simp)

/-- With enough fuel the queue is emptied. -/
theorem Visiting.run (htarget : ∀ e ∈ edges, target e ∈ nodes) {fuel : ℕ}
    (h : Visiting source target edges nodes need visited queue remaining)
    (hfuel : nodes.length ≤ fuel + visited.length) :
    ∃ rest, Visiting source target edges nodes need
      (visited ++ visits source target edges fuel queue remaining) [] rest := by
  induction fuel generalizing visited queue remaining with
  | zero =>
      have hle := (h.nodup.subperm h.known).length_le
      rw [List.length_append] at hle
      obtain rfl : queue = [] := List.eq_nil_of_length_eq_zero (by omega)
      exact ⟨remaining, by simpa [visits] using h⟩
  | succ fuel ih =>
      cases queue with
      | nil => exact ⟨remaining, by simpa [visits] using h⟩
      | cons current queue =>
          obtain ⟨rest, hrest⟩ := ih (h.step htarget) (by simp; omega)
          refine ⟨rest, ?_⟩
          rwa [List.append_assoc, List.singleton_append] at hrest

/-- From the nodes that need nothing. -/
theorem Visiting.start (hnodes : nodes.Nodup) (hremaining : ∀ v ∈ nodes, remaining v = need v) :
    Visiting source target edges nodes need [] (nodes.filter fun v => need v = 0) remaining where
  nodup := hnodes.filter _
  known := List.filter_subset_self nodes
  left v hv := by simp [hremaining v hv, countInto]
  ready v hv := by simp [hv, countInto]
  enough := Preceded.nil

end Runs

section Result

omit [DecidableEq α] in
/-- The fuel of a queue entry for each node that needs nothing and one for each edge suffices. -/
theorem length_le_fuel (hneed : ∀ v ∈ nodes, 0 < need v → ∃ e ∈ edges, target e = v)
    (hnodes : nodes.Nodup) :
    nodes.length ≤ (nodes.filter fun v => need v = 0).length + edges.length := by
  have hsplit := List.length_eq_length_filter_add (l := nodes) fun v => decide (need v = 0)
  have hsub : nodes.filter (fun v => !decide (need v = 0)) ⊆ edges.map target := by
    intro v hv
    obtain ⟨hmem, hpos⟩ := List.mem_filter.mp hv
    obtain ⟨e, he, rfl⟩ := hneed v hmem (by simpa [Nat.pos_iff_ne_zero] using hpos)
    exact List.mem_map_of_mem he
  have hle := ((hnodes.filter _).subperm hsub).length_le
  rw [List.length_map] at hle
  omega

variable {remaining : α → ℤ} {fuel : ℕ} (hnodes : nodes.Nodup)
  (htarget : ∀ e ∈ edges, target e ∈ nodes) (hremaining : ∀ v ∈ nodes, remaining v = need v)
  (hfuel : nodes.length ≤ fuel)

variable (source)

include hnodes htarget hremaining hfuel

/-- Every node is visited exactly if some order of them gives each what it needs from the nodes
before it. -/
theorem visits_all_iff :
    (visits source target edges fuel (nodes.filter fun v => need v = 0) remaining).length =
        nodes.length ↔
      ∃ order : List α, order.Perm nodes ∧
        Preceded (fun front v => need v ≤ countInto source target edges front v) order := by
  have hstart : Visiting source target edges nodes need [] _ remaining := .start hnodes hremaining
  obtain ⟨rest, h⟩ := hstart.run htarget (hfuel.trans (Nat.le_add_right fuel _))
  rw [List.nil_append] at h
  generalize visits source target edges fuel _ remaining = visited at h
  have hnodup : visited.Nodup := by simpa using h.nodup
  have hknown : visited ⊆ nodes := by simpa using h.known
  constructor
  · intro hlength
    exact ⟨visited, (hnodup.subperm hknown).perm_of_length_le hlength.ge, h.enough⟩
  · rintro ⟨order, hperm, henough⟩
    have hall : ∀ l rest, order = l ++ rest → l ⊆ visited := by
      intro l
      induction l using List.reverseRecOn with
      | nil => exact fun _ _ => List.nil_subset _
      | append_singleton l v ih =>
          intro rest horder
          rw [List.append_assoc, List.singleton_append] at horder
          have hl := ih _ horder
          have hv : v ∈ nodes := hperm.subset (by simp [horder])
          have hmem := (h.ready v hv).mpr ((henough l v rest horder).trans (countInto_mono hl))
          rw [List.append_nil] at hmem
          exact List.append_subset.mpr ⟨hl, by simpa using hmem⟩
    have hsub : nodes ⊆ visited := fun v hv =>
      hall order [] (List.append_nil order).symm (hperm.symm.subset hv)
    exact ((hnodup.subperm hknown).length_le).antisymm ((hnodes.subperm hsub).length_le)

/-- Without a cycle every node is visited, when as many edges lead into it as it needs from the
nodes that precede it. -/
theorem visits_all_of_acyclic {r : α → α → Prop} (hacyclic : ∀ a, ¬ Relation.TransGen r a a)
    (henough : ∀ v ∈ nodes, ∀ front, (∀ u ∈ nodes, r u v → u ∈ front) →
      need v ≤ countInto source target edges front v) :
    (visits source target edges fuel (nodes.filter fun v => need v = 0) remaining).length =
      nodes.length := by
  have hstart : Visiting source target edges nodes need [] _ remaining := .start hnodes hremaining
  obtain ⟨rest, h⟩ := hstart.run htarget (hfuel.trans (Nat.le_add_right fuel _))
  rw [List.nil_append] at h
  generalize visits source target edges fuel _ remaining = visited at h
  have hnodup : visited.Nodup := by simpa using h.nodup
  have hknown : visited ⊆ nodes := by simpa using h.known
  suffices hall : nodes.filter (fun v => v ∉ visited) = [] by
    have hsub : nodes ⊆ visited := by
      intro v hv
      simpa using List.filter_eq_nil_iff.mp hall v hv
    exact ((hnodup.subperm hknown).length_le).antisymm ((hnodes.subperm hsub).length_le)
  by_contra hne
  obtain ⟨v, hv, hfirst⟩ := exists_first hacyclic hne
  obtain ⟨hmem, hout⟩ := List.mem_filter.mp hv
  have hdone := (h.ready v hmem).mpr (henough v hmem visited fun u hu huv => by
    by_contra hnot
    exact hfirst u (List.mem_filter.mpr ⟨hu, by simpa using hnot⟩) huv)
  simp at hdone hout
  exact hout hdone

end Result

end Kyberion.Visit
