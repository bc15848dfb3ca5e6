import Kyberion.Graph.Deadlock
import Kyberion.Graph.Edges

/-!
Which lists of steps `deriveExecutionGraph` accepts. Its visit counts edges where it should count
dependencies: parallel edges from one node let a node be visited before its other dependencies.
-/

namespace Kyberion.Graph

open Kyberion.Pipeline

def Joined (edge : GraphEdge → Prop) (u v : String) : Prop :=
  ∃ e, edge e ∧ e.source = u ∧ e.target = v

def Cyclic (edge : GraphEdge → Prop) : Prop :=
  ∃ v, Relation.TransGen (Joined edge) v v

/-- As many edges lead into each node from the nodes before it as it has nodes it depends on. -/
def CountedOrder (edge : GraphEdge → Prop) (order : List String) : Prop :=
  Preceded (fun front v => {u | Joined edge u v}.ncard ≤
    {e | edge e ∧ e.source ∈ front ∧ e.target = v}.ncard) order

variable {V : Type} (exportAs : V → Option String) (nested : V → List String)
  (initial : List String) (steps : List (AdfStep V))

/-- The channels without a producer: neither a step, nor a nested step, nor the caller has them. -/
def channelErrors : List (String × String) :=
  steps.zipIdx.flatMap fun (step, index) =>
    ((step.fields.consumes.getD []).filter fun channel =>
      producersOf exportAs (stepIds steps) steps channel = [] ∧
        channel ∉ steps.flatMap (fun step => nested step.fields.params) ∧
          channel ∉ initial).map (nodeId index step, ·)

/-- A cycle is reported exactly if one is declared, and what has no errors never gets stuck. -/
structure AcceptsSchedulable : Prop where
  cycle : .cycle ∈ (deriveExecutionGraph exportAs steps).2 ↔ Cyclic (Declared exportAs steps)
  deadlockFree : (deriveExecutionGraph exportAs steps).2 = [] →
    channelErrors exportAs nested initial steps = [] →
      ∀ {C : Type} (options : GraphExecutionOptions V C) (s : Scheduler C),
        (executeGraph options (deriveExecutionGraph exportAs steps).1).Reachable s →
          s.phase ≠ .deadlocked

/-- A step declares dependencies without an id of its own, or a channel has no producer. -/
def HasOtherError : Prop :=
  (∃ step ∈ steps, step.fields.dependsOn.isSome ∧ (truthy step.fields.id).isNone) ∨
    channelErrors exportAs nested initial steps ≠ []

variable {exportAs nested initial steps}

section Visited

/-- The nodes with an edge into a node. -/
def dependenciesOf (exportAs : V → Option String) (steps : List (AdfStep V)) (v : String) :
    List String :=
  (((graphEdges exportAs steps).filter fun edge => edge.target = v).map (·.source)).eraseDups

theorem visitCount_eq (edges : List GraphEdge) (fuel : ℕ) (queue : List String)
    (remaining : String → ℤ) :
    visitCount edges fuel queue remaining =
      (Visit.visits GraphEdge.source GraphEdge.target edges fuel queue remaining).length := by
  induction fuel generalizing queue remaining with
  | zero => rfl
  | succ fuel ih =>
      cases queue with
      | nil => rfl
      | cons current queue =>
          exact congrArg (· + 1) (ih _ _)

theorem nodup_eraseDups {α : Type} [DecidableEq α] (l : List α) : l.eraseDups.Nodup := by
  induction h : l.length using Nat.strong_induction_on generalizing l with
  | _ n ih =>
      cases l with
      | nil => exact List.nodup_nil
      | cons a l =>
          rw [List.eraseDups_cons]
          refine List.nodup_cons.mpr ⟨by simp, ih _ ?_ _ rfl⟩
          have hle := List.length_filter_le (fun b => !b == a) l
          rw [List.length_cons] at h
          omega

theorem ncard_mem {α : Type} [DecidableEq α] {l : List α} (h : l.Nodup) :
    {a | a ∈ l}.ncard = l.length := by
  rw [← List.toFinset_card_of_nodup h, ← Set.ncard_coe_finset, List.coe_toFinset]

theorem derived_ids (exportAs : V → Option String) (steps : List (AdfStep V)) :
    (deriveExecutionGraph exportAs steps).1.map (·.id) = stepIds steps := by
  simp only [deriveExecutionGraph, List.map_map]
  exact List.map_fst_zip (by simp)

theorem derived_dependencies {node : GraphNode V}
    (h : node ∈ (deriveExecutionGraph exportAs steps).1) :
    node.dependencies = dependenciesOf exportAs steps node.id := by
  obtain ⟨⟨id, step⟩, -, rfl⟩ := List.mem_map.mp h
  rfl

/-- The nodes that the visit starts from. -/
def queueOf (nodes : List (GraphNode V)) : List String :=
  (nodes.filter fun node => node.dependencies = []).map (·.id)

def remainingOf (nodes : List (GraphNode V)) (id : String) : ℤ :=
  match nodes.reverse.find? fun node => node.id = id with
  | some node => node.dependencies.length
  | none => 0

theorem queueOf_derived : queueOf (deriveExecutionGraph exportAs steps).1 =
    (stepIds steps).filter fun v => (dependenciesOf exportAs steps v).length = 0 := by
  rw [queueOf, ← derived_ids, List.filter_map]
  congr 1
  refine List.filter_congr fun node hnode => ?_
  rw [derived_dependencies hnode]
  simp

theorem remainingOf_derived {v : String} (hv : v ∈ stepIds steps) :
    remainingOf (deriveExecutionGraph exportAs steps).1 v =
      (dependenciesOf exportAs steps v).length := by
  unfold remainingOf
  split
  · rename_i node hfound
    have hid : node.id = v := by simpa using List.find?_some hfound
    rw [derived_dependencies (List.mem_reverse.mp (List.mem_of_find?_eq_some hfound)), hid]
  · rename_i hnone
    rw [← derived_ids exportAs, List.mem_map] at hv
    obtain ⟨node, hnode, rfl⟩ := hv
    simpa using List.find?_eq_none.mp hnone node (List.mem_reverse.mpr hnode)

/-- The visit of the nodes, as `deriveExecutionGraph` makes it. -/
def visitedCount (exportAs : V → Option String) (steps : List (AdfStep V)) : ℕ :=
  let nodes := (deriveExecutionGraph exportAs steps).1
  visitCount (graphEdges exportAs steps)
    ((queueOf nodes).length + (graphEdges exportAs steps).length) (queueOf nodes)
    (remainingOf nodes)

theorem derived_errors : (deriveExecutionGraph exportAs steps).2 =
    duplicateErrors (stepIds steps) ++
      steps.zipIdx.flatMap (fun (step, index) => dependencyErrors (stepIds steps) index step) ++
      if visitedCount exportAs steps = (deriveExecutionGraph exportAs steps).1.length then []
      else [.cycle] := rfl

/-- The only error that the visit can add is the cycle. -/
theorem cycle_mem_errors : .cycle ∈ (deriveExecutionGraph exportAs steps).2 ↔
    visitedCount exportAs steps ≠ (stepIds steps).length := by
  have hduplicates : .cycle ∉ duplicateErrors (stepIds steps) := by
    intro h
    obtain ⟨⟨id, index⟩, -, h⟩ := List.mem_filterMap.mp h
    exact absurd (Option.ite_none_right_eq_some.mp h).2 (by simp)
  have hdependencies : ∀ index, ∀ step : AdfStep V,
      .cycle ∉ dependencyErrors (stepIds steps) index step := by
    intro index step h
    unfold dependencyErrors at h
    split at h
    · cases h
    · rcases List.mem_append.mp h with h | h
      · split at h
        · exact absurd (List.mem_singleton.mp h) (by simp)
        · cases h
      · obtain ⟨d, -, h⟩ := List.mem_map.mp h
        cases h
  have hflat : .cycle ∉ steps.zipIdx.flatMap fun (step, index) =>
      dependencyErrors (stepIds steps) index step := by
    intro h
    obtain ⟨⟨step, index⟩, -, h⟩ := List.mem_flatMap.mp h
    exact hdependencies index step h
  have hlength : (deriveExecutionGraph exportAs steps).1.length = (stepIds steps).length := by
    rw [← derived_ids exportAs, List.length_map]
  rw [derived_errors, hlength, List.mem_append, List.mem_append, or_assoc]
  simp only [hduplicates, hflat, false_or]
  split <;> simp_all

variable (hids : (stepIds steps).Nodup) (hknown : KnownDependencies steps)

include hids hknown

theorem mem_dependenciesOf {u v : String} :
    u ∈ dependenciesOf exportAs steps v ↔ Joined (InGraph exportAs steps) u v := by
  simp only [dependenciesOf, List.mem_eraseDups, List.mem_map, List.mem_filter,
    mem_graphEdges hids hknown, decide_eq_true_eq, Joined]
  exact exists_congr fun e => by tauto

theorem dependenciesOf_length (v : String) :
    (dependenciesOf exportAs steps v).length = {u | Joined (InGraph exportAs steps) u v}.ncard := by
  have hset : {u | Joined (InGraph exportAs steps) u v} = {u | u ∈ dependenciesOf exportAs steps v} :=
    Set.ext fun u => (mem_dependenciesOf hids hknown).symm
  rw [hset, dependenciesOf, ncard_mem (nodup_eraseDups _)]

theorem countInto_eq {front : List String} {v : String} (hv : v ∉ front) :
    Visit.countInto GraphEdge.source GraphEdge.target (graphEdges exportAs steps) front v =
      {e | InGraph exportAs steps e ∧ e.source ∈ front ∧ e.target = v}.ncard := by
  have hjoins : ((graphEdges exportAs steps).filter fun e => e.source ≠ e.target).Nodup :=
    graphEdges_nodupJoins
  have hinto : (graphEdges exportAs steps).filter (fun e =>
      decide (e.target = v) && decide (e.source ∈ front)) =
        ((graphEdges exportAs steps).filter fun e => e.source ≠ e.target).filter fun e =>
          decide (e.target = v) && decide (e.source ∈ front) := by
    rw [List.filter_filter]
    refine List.filter_congr fun e _ => ?_
    by_cases htarget : e.target = v
    · by_cases hsource : e.source ∈ front
      · have hne : e.source ≠ e.target := fun heq => hv (htarget ▸ heq ▸ hsource)
        simp [hne]
      · simp [hsource]
    · simp [htarget]
  have hset : {e | InGraph exportAs steps e ∧ e.source ∈ front ∧ e.target = v} =
      {e | e ∈ (graphEdges exportAs steps).filter fun e =>
        decide (e.target = v) && decide (e.source ∈ front)} := by
    ext e
    change _ ↔ e ∈ (graphEdges exportAs steps).filter _
    rw [List.mem_filter, mem_graphEdges hids hknown, Bool.and_eq_true, decide_eq_true_eq,
      decide_eq_true_eq, and_comm (a := e.target = v)]
    rfl
  rw [hset, Visit.countInto, List.countP_eq_length_filter, hinto, ncard_mem (hjoins.filter _)]

variable (exportAs) in
theorem target_mem : ∀ e ∈ graphEdges exportAs steps, e.target ∈ stepIds steps :=
  fun _ he => (((mem_graphEdges hids hknown).mp he).mem hknown).2

variable (exportAs) in
theorem exists_edge_of_pos : ∀ v ∈ stepIds steps, 0 < (dependenciesOf exportAs steps v).length →
    ∃ e ∈ graphEdges exportAs steps, e.target = v := by
  intro v _ hpos
  obtain ⟨u, hu⟩ := List.exists_mem_of_length_pos hpos
  obtain ⟨e, he, -, htarget⟩ := (mem_dependenciesOf hids hknown).mp hu
  exact ⟨e, (mem_graphEdges hids hknown).mpr he, htarget⟩

/-- The visit misses a node exactly if no order of the nodes has the edges that it counts. -/
theorem cycle_mem_iff : .cycle ∈ (deriveExecutionGraph exportAs steps).2 ↔
    ¬ ∃ order : List String, order.Perm (stepIds steps) ∧
      CountedOrder (InGraph exportAs steps) order := by
  have hremaining : ∀ v ∈ stepIds steps, remainingOf (deriveExecutionGraph exportAs steps).1 v =
      (dependenciesOf exportAs steps v).length := fun v hv => remainingOf_derived hv
  have hvisits := Visit.visits_all_iff GraphEdge.source hids (target_mem exportAs hids hknown) hremaining
    (Visit.length_le_fuel (exists_edge_of_pos exportAs hids hknown) hids)
  rw [cycle_mem_errors, visitedCount, visitCount_eq, queueOf_derived, not_iff_not]
  refine hvisits.trans (exists_congr fun order => and_congr_right fun hperm => ?_)
  refine forall_congr' fun front => forall_congr' fun v => forall_congr' fun rest =>
    forall_congr' fun horder => ?_
  have hv : v ∉ front := by
    have hnodup := hperm.nodup_iff.mpr hids
    rw [horder] at hnodup
    exact fun hmem => List.disjoint_of_nodup_append hnodup hmem List.mem_cons_self
  dsimp only
  rw [dependenciesOf_length hids hknown, countInto_eq hids hknown hv]

/-- Without a cycle in the graph every node is visited. -/
theorem cycle_notMem (hacyclic : ¬ Cyclic (InGraph exportAs steps)) :
    .cycle ∉ (deriveExecutionGraph exportAs steps).2 := by
  have hremaining : ∀ v ∈ stepIds steps, remainingOf (deriveExecutionGraph exportAs steps).1 v =
      (dependenciesOf exportAs steps v).length := fun v hv => remainingOf_derived hv
  rw [cycle_mem_errors, not_not, visitedCount, visitCount_eq, queueOf_derived]
  refine Visit.visits_all_of_acyclic GraphEdge.source hids (target_mem exportAs hids hknown) hremaining
    (Visit.length_le_fuel (exists_edge_of_pos exportAs hids hknown) hids) (not_exists.mp hacyclic) ?_
  intro v _ front hfront
  have hsub : dependenciesOf exportAs steps v ⊆ ((graphEdges exportAs steps).filter fun e =>
      decide (e.target = v) && decide (e.source ∈ front)).map (·.source) := by
    intro u hu
    have hjoined := (mem_dependenciesOf hids hknown).mp hu
    have ⟨e, he, hsource, htarget⟩ := hjoined
    have hmem := hfront u (hsource ▸ (he.mem hknown).1) hjoined
    refine List.mem_map.mpr ⟨e, List.mem_filter.mpr ⟨(mem_graphEdges hids hknown).mpr he, ?_⟩,
      hsource⟩
    simp [htarget, hsource, hmem]
  have hle := ((nodup_eraseDups _).subperm hsub).length_le
  rwa [List.length_map, ← List.countP_eq_length_filter] at hle

end Visited

section Acceptance

theorem Cyclic.mono {edge edge' : GraphEdge → Prop} (h : ∀ e, edge e → edge' e)
    (hcyclic : Cyclic edge) : Cyclic edge' := by
  obtain ⟨v, hv⟩ := hcyclic
  exact ⟨v, Relation.TransGen.mono (fun u w ⟨e, he, hends⟩ => ⟨e, h e he, hends⟩) v v hv⟩

/-- The nodes depend on each other as the edges say. -/
theorem dependsOn_iff (hids : (stepIds steps).Nodup) (hknown : KnownDependencies steps)
    {u v : String} : WaitsFor (deriveExecutionGraph exportAs steps).1 u v ↔
      Joined (InGraph exportAs steps) u v := by
  constructor
  · rintro ⟨node, hnode, rfl, hu⟩
    rw [derived_dependencies hnode] at hu
    exact (mem_dependenciesOf hids hknown).mp hu
  · intro h
    have ⟨e, he, _, htarget⟩ := h
    have hmem := htarget ▸ (he.mem hknown).2
    rw [← derived_ids exportAs, List.mem_map] at hmem
    obtain ⟨node, hnode, hid⟩ := hmem
    refine ⟨node, hnode, hid, ?_⟩
    rw [derived_dependencies hnode, hid]
    exact (mem_dependenciesOf hids hknown).mpr h

/-- No errors are left when the ids are distinct, each step with dependencies has its own, the
dependencies are known and no cycle is found. -/
theorem errors_eq_nil_iff (hids : (stepIds steps).Nodup) (hknown : KnownDependencies steps) :
    (deriveExecutionGraph exportAs steps).2 = [] ↔
      (∀ step ∈ steps, step.fields.dependsOn.isSome → (truthy step.fields.id).isSome) ∧
        .cycle ∉ (deriveExecutionGraph exportAs steps).2 := by
  have hduplicates : duplicateErrors (stepIds steps) = [] := by
    refine List.filterMap_eq_nil_iff.mpr fun ⟨id, index⟩ hmem => if_neg fun htake => ?_
    have hindex := List.mem_zipIdx_iff_getElem?.mp hmem
    obtain ⟨j, hj, hid⟩ := List.mem_take_iff_getElem.mp htake
    have hlt := (List.getElem?_eq_some_iff.mp hindex).1
    have hsame := (List.getElem?_inj hlt hids (j := j)).mp (hindex.trans (by simp [← hid]))
    omega
  have hdependencies : ∀ index, ∀ step ∈ steps, dependencyErrors (stepIds steps) index step = [] ↔
      (step.fields.dependsOn.isSome → (truthy step.fields.id).isSome) := by
    intro index step hstep
    unfold dependencyErrors
    cases hdepends : step.fields.dependsOn with
    | none => simp
    | some dependencies =>
        have hmem : ∀ d ∈ dependencies, d ∈ stepIds steps := by
          simpa [hdepends] using hknown step hstep
        cases truthy step.fields.id with
        | none => simp
        | some id => simpa using hmem
  have hflat : steps.zipIdx.flatMap (fun (step, index) =>
      dependencyErrors (stepIds steps) index step) = [] ↔
        ∀ step ∈ steps, step.fields.dependsOn.isSome → (truthy step.fields.id).isSome := by
    rw [List.flatMap_eq_nil_iff]
    constructor
    · intro h step hstep
      obtain ⟨i, hi⟩ := List.mem_iff_getElem?.mp hstep
      exact (hdependencies i step hstep).mp (h (step, i) (List.mem_zipIdx_iff_getElem?.mpr hi))
    · rintro h ⟨step, index⟩ hmem
      have hstep := List.mem_of_getElem? (List.mem_zipIdx_iff_getElem?.mp hmem)
      exact (hdependencies index step hstep).mpr (h step hstep)
  rw [cycle_mem_errors, not_not, derived_errors, ← derived_ids exportAs, List.length_map,
    List.append_eq_nil_iff, List.append_eq_nil_iff, derived_ids]
  simp [hduplicates, hflat]

/-- The exact condition: the edges form no cycle; or a declared cycle leaves no order with the
edges that the visit counts; or a cycle that only implied edges close is passed over and another
error refuses the list. -/
theorem acceptsSchedulable_iff (hids : (stepIds steps).Nodup) (hknown : KnownDependencies steps) :
    AcceptsSchedulable exportAs nested initial steps ↔
      ¬ Cyclic (InGraph exportAs steps) ∨
      (Cyclic (Declared exportAs steps) ∧ ¬ ∃ order : List String, order.Perm (stepIds steps) ∧
        CountedOrder (InGraph exportAs steps) order) ∨
      (¬ Cyclic (Declared exportAs steps) ∧
        (∃ order : List String, order.Perm (stepIds steps) ∧
          CountedOrder (InGraph exportAs steps) order) ∧
        HasOtherError exportAs nested initial steps) := by
  have hnodup : ((deriveExecutionGraph exportAs steps).1.map (·.id)).Nodup :=
    derived_ids exportAs steps ▸ hids
  have hdeclared : Cyclic (Declared exportAs steps) → Cyclic (InGraph exportAs steps) :=
    Cyclic.mono fun _ => .inl
  have hdepends : WaitsFor (deriveExecutionGraph exportAs steps).1 =
      Joined (InGraph exportAs steps) := by
    funext u v
    exact propext (dependsOn_iff hids hknown)
  have hdeps : ∀ node ∈ (deriveExecutionGraph exportAs steps).1, ∀ d ∈ node.dependencies,
      d ∈ (deriveExecutionGraph exportAs steps).1.map (·.id) := by
    intro node hnode d hd
    rw [derived_dependencies hnode] at hd
    obtain ⟨e, he, rfl, -⟩ := (mem_dependenciesOf hids hknown).mp hd
    rw [derived_ids]
    exact (he.mem hknown).1
  by_cases hcyclic : Cyclic (InGraph exportAs steps)
  · have hstuck : (∀ {C : Type} (options : GraphExecutionOptions V C) (s : Scheduler C),
        (executeGraph options (deriveExecutionGraph exportAs steps).1).Reachable s →
          s.phase ≠ .deadlocked) ↔ False := by
      refine iff_of_false (fun h => ?_) id
      obtain ⟨x, hx⟩ := hcyclic
      rw [← hdepends] at hx
      obtain ⟨options, s, hs, hphase⟩ := deadlock_of_cycle hnodup unitMerge () hx
      exact h options s hs hphase
    have haccepts : AcceptsSchedulable exportAs nested initial steps ↔
        (.cycle ∈ (deriveExecutionGraph exportAs steps).2 ↔ Cyclic (Declared exportAs steps)) ∧
          ((deriveExecutionGraph exportAs steps).2 = [] →
            channelErrors exportAs nested initial steps = [] → False) :=
      ⟨fun h => ⟨h.cycle, fun herrors hchannels => hstuck.mp (h.deadlockFree herrors hchannels)⟩,
        fun h => ⟨h.1, fun herrors hchannels => (h.2 herrors hchannels).elim⟩⟩
    have hother : (∃ step ∈ steps, step.fields.dependsOn.isSome ∧
        (truthy step.fields.id).isNone) ↔
          ¬ ∀ step ∈ steps, step.fields.dependsOn.isSome → (truthy step.fields.id).isSome := by
      simp
    rw [haccepts, errors_eq_nil_iff hids hknown, cycle_mem_iff hids hknown, HasOtherError, hother,
      or_iff_right (not_not.mpr hcyclic)]
    generalize Cyclic (Declared exportAs steps) = declared
    generalize (∃ order : List String, order.Perm (stepIds steps) ∧
      CountedOrder (InGraph exportAs steps) order) = counted
    by_cases hdeclared : declared
    · by_cases hcounted : counted <;> simp [hdeclared, hcounted]
    · by_cases hcounted : counted
      · simp only [hdeclared, hcounted]
        grind
      · simp [hdeclared, hcounted]
  · refine iff_of_true ⟨?_, ?_⟩ (.inl hcyclic)
    · exact iff_of_false (cycle_notMem hids hknown hcyclic) fun h => hcyclic (hdeclared h)
    · intro _ _ C options s hs
      refine deadlockFree_of_acyclic hnodup hdeps ?_ hs
      rw [hdepends]
      exact not_exists.mp hcyclic

/-- A chain is accepted. -/
theorem acceptsSchedulable_chain :
    AcceptsSchedulable (fun _ => none) (fun _ => []) []
      [namedStep "a" [], namedStep "b" ["a"]] := by
  have hids : (stepIds [namedStep "a" [], namedStep "b" ["a"]]).Nodup := by decide
  have hknown : KnownDependencies [namedStep "a" [], namedStep "b" ["a"]] := by
    unfold KnownDependencies
    decide
  have hedges : ∀ e ∈ graphEdges (fun _ => none) [namedStep "a" [], namedStep "b" ["a"]],
      e.source = "a" ∧ e.target = "b" := by decide
  refine (acceptsSchedulable_iff hids hknown).mpr (.inl ?_)
  rintro ⟨v, hv⟩
  obtain ⟨u, ⟨e, he, hsource, -⟩, -⟩ := Relation.TransGen.head'_iff.mp hv
  obtain ⟨w, -, e', he', -, htarget⟩ := Relation.TransGen.tail'_iff.mp hv
  have h := (hedges e ((mem_graphEdges hids hknown).mpr he)).1
  have h' := (hedges e' ((mem_graphEdges hids hknown).mpr he')).2
  exact absurd (h.symm.trans (hsource.trans (htarget.symm.trans h'))) (by decide)

/-- Two edges lead from `a` to `b`, which also waits for `c`, which waits for `b`. -/
def parallelEdges : List (AdfStep Unit) := [
  .mk { id := some "a", type := .apply, op := "run", params := (), produces := some "x" }
    none none none,
  .mk {
    id := some "b", type := .apply, op := "run", params := ()
    dependsOn := some ["a", "c"], consumes := some ["x"] } none none none,
  namedStep "c" ["b"]]

/-- The declared cycle is not reported, and the loop gets stuck on it. -/
theorem parallelEdges_deadlock :
    (deriveExecutionGraph (fun _ => none) parallelEdges).2 = [] ∧
      Cyclic (Declared (fun _ => none) parallelEdges) ∧
      (∃ s, (executeGraph (V := Unit) (C := Unit) { initialContext := (), merge := unitMerge }
        (deriveExecutionGraph (fun _ => none) parallelEdges).1).Reachable s ∧
          s.phase = .deadlocked) ∧
      ¬ ∀ steps : List (AdfStep Unit), (stepIds steps).Nodup → KnownDependencies steps →
        AcceptsSchedulable (fun _ => none) (fun _ => []) [] steps := by
  have herrors : (deriveExecutionGraph (fun _ => none) parallelEdges).2 = [] := by decide +kernel
  have hids : (stepIds parallelEdges).Nodup := by decide
  have hknown : KnownDependencies parallelEdges := by
    unfold KnownDependencies
    decide
  have hb : Declared (fun _ => none) parallelEdges ⟨"b", "c", .control, none⟩ :=
    ⟨2, namedStep "c" ["b"], rfl, .dependsOn List.mem_cons_self⟩
  have hc : Declared (fun _ => none) parallelEdges ⟨"c", "b", .control, none⟩ :=
    ⟨1, _, rfl, .dependsOn (List.mem_cons_of_mem "a" List.mem_cons_self)⟩
  have hcycle : Cyclic (Declared (fun _ => none) parallelEdges) :=
    ⟨"b", .tail (.single ⟨_, hb, rfl, rfl⟩) ⟨_, hc, rfl, rfl⟩⟩
  refine ⟨herrors, hcycle, ?_, fun h => ?_⟩
  · exact Transition.System.exists_reachable_of_exec
      (S := executeGraph (V := Unit) (C := Unit) { initialContext := (), merge := unitMerge }
        (deriveExecutionGraph (fun _ => none) parallelEdges).1)
      [.schedule, .finish "a" (.returned { status := .success }), .race "a", .schedule]
      (fun s => s.phase = .deadlocked) rfl (by decide +kernel)
  · have hmem := (h parallelEdges hids hknown).cycle.mpr hcycle
    rw [herrors] at hmem
    cases hmem

end Acceptance

end Kyberion.Graph
