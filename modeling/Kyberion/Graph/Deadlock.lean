import Kyberion.Graph.DispatchSafety
import Kyberion.Visit

/-!
When the loop of `executeGraph` gets stuck: exactly on the graphs whose dependencies form a cycle.
-/

namespace Kyberion.Graph

open Kyberion.Pipeline (GraphNode)
open Transition

variable {V C : Type} {options : GraphExecutionOptions V C} {nodes : List (GraphNode V)}
  {s : Scheduler C}

/-- The node `v` of a graph has `u` among its dependencies. -/
def WaitsFor (nodes : List (GraphNode V)) (u v : String) : Prop :=
  ∃ node ∈ nodes, node.id = v ∧ u ∈ node.dependencies

section Progress

theorem MaxConcurrency.limit_pos {m : MaxConcurrency} {limit : ℕ} (h : m.limit = some limit) :
    0 < limit := by
  cases m with
  | unset =>
      obtain rfl := Option.some.inj h
      exact Nat.one_pos
  | finite q =>
      obtain rfl := Option.some.inj h
      exact Int.lt_toNat.mpr (by simp)
  | unbounded => cases h

/-- A fold that raises a flag with every change leaves it down only when nothing changes. -/
theorem foldl_idle {σ α : Type} {f : σ → α → Option σ} {op : σ × Bool → α → σ × Bool}
    (hnone : ∀ s flag a, f s a = none → op (s, flag) a = (s, flag))
    (hsome : ∀ s flag a t, f s a = some t → op (s, flag) a = (t, true)) {l : List α} {s : σ}
    (h : (l.foldl op (s, false)).2 = false) :
    (l.foldl op (s, false)).1 = s ∧ ∀ a ∈ l, f s a = none := by
  have hkeeps : ∀ (l : List α) (s : σ), (l.foldl op (s, true)).2 = true := by
    intro l
    induction l with
    | nil => exact fun _ => rfl
    | cons a rest ih =>
        intro s
        rw [List.foldl_cons]
        cases ha : f s a with
        | none => rw [hnone s true a ha, ih]
        | some t => rw [hsome s true a t ha, ih]
  induction l with
  | nil => exact ⟨rfl, by simp⟩
  | cons a rest ih =>
      rw [List.foldl_cons] at h ⊢
      cases ha : f s a with
      | none =>
          rw [hnone s false a ha] at h ⊢
          obtain ⟨hsame, hrest⟩ := ih h
          exact ⟨hsame, List.forall_mem_cons.mpr ⟨ha, hrest⟩⟩
      | some t =>
          rw [hsome s false a t ha, hkeeps] at h
          cases h

/-- A pass that does nothing has nothing to do. -/
theorem dispatchPass_idle (h : (dispatchPass options nodes s).2 = false) :
    (dispatchPass options nodes s).1 = s ∧ ∀ node ∈ nodes, dispatchNode options s node = none := by
  refine foldl_idle ?_ ?_ h
  · intro s progressed node hnode
    simp only [hnode]
  · intro s progressed node s' hnode
    simp only [hnode]

theorem dispatchPass_of_none (h : ∀ node ∈ nodes, dispatchNode options s node = none) :
    dispatchPass options nodes s = (s, false) := by
  unfold dispatchPass
  induction nodes with
  | nil => rfl
  | cons node rest ih =>
      rw [List.foldl_cons]
      simp only [h node List.mem_cons_self]
      exact ih fun other hother => h other (List.mem_cons_of_mem node hother)

/-- With no slot in use, a pending node whose dependencies are settled is not passed over. -/
theorem dispatchNode_ne_none {node : GraphNode V} (hpending : s.statuses node.id = some .pending)
    (hactive : s.active = []) (hinUse : s.claimsInUse = [])
    (hdeps : ∀ d ∈ node.dependencies, s.isTerminal d = true) :
    dispatchNode options s node ≠ none := by
  have hroom : ¬ (s.statuses node.id ≠ some .pending ∨
      (options.maxConcurrency.limit.any fun limit => limit ≤ s.active.length) = true) := by
    rw [not_or, not_not, Bool.not_eq_true, Option.any_eq_false]
    refine ⟨hpending, fun limit hlimit => ?_⟩
    have hpos := MaxConcurrency.limit_pos hlimit
    simp [hactive, hpos.ne']
  have hclaim : ∀ claims, s.canClaim claims = true := by
    intro claims
    simp [Scheduler.canClaim, hinUse]
  have hall : ¬ (node.dependencies.all s.isTerminal) = false := by
    rw [Bool.not_eq_false, List.all_eq_true]
    exact hdeps
  unfold dispatchNode
  rw [if_neg hroom, if_neg hall, if_pos (hclaim _)]
  split
  · simp
  · split <;> simp

variable (hids : (nodes.map (·.id)).Nodup)
  (hdeps : ∀ node ∈ nodes, ∀ d ∈ node.dependencies, d ∈ nodes.map (·.id))
  (hacyclic : ∀ v, ¬ Relation.TransGen (WaitsFor nodes) v v)

include hdeps hacyclic in
/-- While a node is unsettled and no handler runs, the first of the pending nodes can go on. -/
theorem exists_ready (h : SchedulerInv options nodes s) (hunsettled : hasUnsettled nodes s = true)
    (hactive : s.active = []) : ∃ node ∈ nodes, dispatchNode options s node ≠ none := by
  have hrunning : ∀ id, s.statuses id ≠ some .running := by
    intro id hid
    simpa [hactive] using (h.slots.running id).mp hid
  have hinUse : s.claimsInUse = [] := by simpa [hactive] using h.slots.inUse
  have hne : (nodes.map (·.id)).filter (fun id => s.statuses id = some .pending) ≠ [] := by
    obtain ⟨node, hnode, hopen⟩ := List.any_eq_true.mp hunsettled
    have hpending : s.statuses node.id = some .pending := by
      simpa [hrunning node.id] using hopen
    refine List.ne_nil_of_mem (a := node.id) (List.mem_filter.mpr ⟨List.mem_map_of_mem hnode, ?_⟩)
    simpa using hpending
  obtain ⟨v, hv, hfirst⟩ := Visit.exists_first hacyclic hne
  obtain ⟨hmem, hpending⟩ := List.mem_filter.mp hv
  obtain ⟨node, hnode, rfl⟩ := List.mem_map.mp hmem
  refine ⟨node, hnode, dispatchNode_ne_none (by simpa using hpending) hactive hinUse fun d hd => ?_⟩
  obtain ⟨other, hother, rfl⟩ := List.mem_map.mp (hdeps node hnode d hd)
  cases hstatus : s.statuses other.id with
  | none => exact absurd hstatus (h.tables.known other hother)
  | some status =>
      cases status with
      | pending =>
          have hpendingOther : other.id ∈
              (nodes.map (·.id)).filter fun id => s.statuses id = some .pending :=
            List.mem_filter.mpr ⟨List.mem_map_of_mem hother, by simpa using hstatus⟩
          exact absurd ⟨node, hnode, rfl, hd⟩ (hfirst _ hpendingOther)
      | running => exact absurd hstatus (hrunning other.id)
      | terminal status => exact isTerminal_iff.mpr ⟨status, hstatus⟩

include hids hdeps hacyclic in
/-- Without a cycle no run ends in the deadlock error. -/
theorem deadlockFree_of_acyclic (h : (executeGraph options nodes).Reachable s) :
    s.phase ≠ .deadlocked := by
  suffices hinv : SchedulerInv options nodes s ∧ s.phase ≠ .deadlocked from hinv.2
  refine h.invariant (I := fun s => SchedulerInv options nodes s ∧ s.phase ≠ .deadlocked)
    (fun s h0 => ?_) fun s a s' ⟨hs, hphase⟩ _ hstep => ⟨hs.step hids hstep, ?_⟩
  · rw [show s = openScheduler options nodes from h0]
    refine ⟨openScheduler_inv options nodes, ?_⟩
    exact openScheduler_induction (P := fun s => s.phase ≠ .deadlocked) (fun _ => by simp)
      (fun _ _ _ h => h) fun _ _ h => h
  · have hstep : executeGraphStep options nodes s a = some s' := hstep
    cases a with
    | schedule =>
        obtain ⟨hlooping, hstep⟩ := Option.ite_none_right_eq_some.mp hstep
        obtain rfl := Option.some.inj hstep
        unfold schedule
        split
        · rename_i hunsettled
          dsimp only
          split
          · simp
          · rename_i hactive
            rw [not_not] at hactive
            split
            · rw [dispatchPass_phase, hlooping]
              simp
            · rename_i hidle
              obtain ⟨hsame, hnone⟩ := dispatchPass_idle (by simpa using hidle)
              rw [hsame] at hactive
              obtain ⟨node, hnode, hready⟩ := exists_ready hdeps hacyclic hs hunsettled hactive
              exact absurd (hnone node hnode) hready
        · simp
    | finish id end_ =>
        obtain ⟨-, rfl⟩ := finish_cases hstep
        exact hphase
    | race id =>
        obtain ⟨-, slot, -, -, end_, -, ⟨outcome, -, rfl⟩ | ⟨-, rfl⟩⟩ := race_cases hstep
        · obtain ⟨context, heq⟩ := completeNode_eq options nodes s slot outcome
          rw [heq]
          simp
        · simp

end Progress

section Stuck

theorem preskip_pending_iff {a id : String} :
    (preskip s a).statuses id = some .pending ↔ s.statuses id = some .pending ∧ id ≠ a := by
  unfold preskip
  split
  · rw [settleNode_statuses]
    split <;> simp_all
  · rename_i hnot
    refine ⟨fun h => ⟨h, ?_⟩, fun h => h.1⟩
    rintro rfl
    exact hnot h

theorem preskips_pending_iff {l : List String} {id : String} :
    (l.foldl preskip s).statuses id = some .pending ↔
      s.statuses id = some .pending ∧ id ∉ l := by
  induction l generalizing s with
  | nil => simp
  | cons a l ih => rw [List.foldl_cons, ih, preskip_pending_iff, List.mem_cons, not_or, and_assoc]

theorem preskips_rest (l : List String) (s : Scheduler C) :
    (l.foldl preskip s).active = s.active ∧ (l.foldl preskip s).phase = s.phase := by
  refine List.foldlRecOn l preskip
    (motive := fun t => t.active = s.active ∧ t.phase = s.phase) ⟨rfl, rfl⟩ fun t ht id _ => ?_
  unfold preskip
  split
  · exact ht
  · exact ht

/-- A cycle of dependencies, whose other nodes are all settled, ends in the deadlock error. -/
theorem deadlock_of_cycle (hids : (nodes.map (·.id)).Nodup) (merge : ContextMerge C) (context : C)
    {x : String} (hcycle : Relation.TransGen (WaitsFor nodes) x x) :
    ∃ (options : GraphExecutionOptions V C) (s : Scheduler C),
      (executeGraph options nodes).Reachable s ∧ s.phase = .deadlocked := by
  classical
  let onCycle (v : String) : Prop :=
    Relation.TransGen (WaitsFor nodes) x v ∧ Relation.TransGen (WaitsFor nodes) v x
  let options : GraphExecutionOptions V C := {
    initialContext := context, merge
    preskippedNodeIds := (nodes.map (·.id)).filter fun id => ¬ onCycle id }
  let start := openScheduler options nodes
  obtain ⟨hactive, hlooping⟩ : start.active = [] ∧ start.phase = .looping :=
    preskips_rest options.preskippedNodeIds _
  have hpending : ∀ id, start.statuses id = some .pending ↔
      id ∈ nodes.map (·.id) ∧ onCycle id := by
    intro id
    refine preskips_pending_iff.trans ?_
    simp only [List.foldl_nil, ite_eq_left_iff, options, List.mem_filter]
    grind
  have hidle : ∀ node ∈ nodes, dispatchNode options start node = none := by
    intro node hnode
    unfold dispatchNode
    split
    · rfl
    · rename_i hopen
      rw [not_or, not_not] at hopen
      obtain ⟨-, hto, hfrom⟩ := (hpending node.id).mp hopen.1
      obtain ⟨u, hu, hedge⟩ := Relation.TransGen.tail'_iff.mp hto
      have hcycleU : onCycle u := by
        refine ⟨?_, .head hedge hfrom⟩
        rcases Relation.reflTransGen_iff_eq_or_transGen.mp hu with rfl | htrans
        · exact hcycle
        · exact htrans
      have hmemU : u ∈ nodes.map (·.id) := by
        obtain ⟨w, -, other, hother, rfl, -⟩ := Relation.TransGen.tail'_iff.mp hcycleU.1
        exact List.mem_map_of_mem hother
      have hpendingU := (hpending u).mpr ⟨hmemU, hcycleU⟩
      obtain ⟨other, hother, hid, hdep⟩ := hedge
      obtain rfl := eq_of_id hids hother hnode hid
      have hblocked : (other.dependencies.all start.isTerminal) = false := by
        refine List.all_eq_false.mpr ⟨u, hdep, ?_⟩
        simp [Scheduler.isTerminal, hpendingU]
      rw [if_pos hblocked]
  have hunsettled : hasUnsettled nodes start = true := by
    obtain ⟨w, -, node, hnode, hid, -⟩ := Relation.TransGen.tail'_iff.mp hcycle
    refine List.any_eq_true.mpr ⟨node, hnode, ?_⟩
    have hx := (hpending node.id).mpr ⟨List.mem_map_of_mem hnode, hid ▸ ⟨hcycle, hcycle⟩⟩
    simp [hx]
  have hschedule : schedule options nodes start = { start with phase := .deadlocked } := by
    unfold schedule
    rw [if_pos hunsettled, dispatchPass_of_none hidle]
    simp [hactive]
  refine ⟨options, { start with phase := .deadlocked }, ?_, rfl⟩
  have hstep : (executeGraph options nodes).step start .schedule =
      some { start with phase := .deadlocked } :=
    (if_pos hlooping).trans (congrArg some hschedule)
  exact .next (.start rfl) trivial hstep

end Stuck

end Kyberion.Graph
