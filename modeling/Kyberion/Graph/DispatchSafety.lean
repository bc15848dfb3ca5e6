import Kyberion.Graph.Dispatch
import Mathlib.Data.List.Pairwise

/-!
Safety of the dispatch of an accepted graph, over every order in which its handlers end. A restored
node is a success whatever its dependencies came to, so a skip passes only through nodes that were
not restored.
-/

namespace Kyberion.Graph

open Kyberion.Pipeline (GraphNode AdfStep deriveExecutionGraph)
open Transition

variable {V C : Type} {options : GraphExecutionOptions V C} {nodes : List (GraphNode V)}
  {s : Scheduler C}

section Accepted

theorem nodup_of_duplicateErrors {ids : List String} (h : Pipeline.duplicateErrors ids = []) :
    ids.Nodup := by
  rw [List.nodup_iff_pairwise_ne, List.pairwise_iff_getElem]
  intro i j hi hj hlt heq
  have hnone := List.filterMap_eq_nil_iff.mp h (ids[j], j)
    (List.mem_zipIdx_iff_getElem?.mpr (List.getElem?_eq_getElem hj))
  rw [ite_eq_right_iff] at hnone
  refine absurd (hnone ?_) (by simp)
  rw [← heq]
  exact List.mem_take_iff_getElem.mpr ⟨i, by omega, rfl⟩

/-- The nodes of an accepted graph have ids of their own. -/
theorem nodup_of_accepted {exportAs : V → Option String} {steps : List (AdfStep V)}
    (h : (deriveExecutionGraph exportAs steps).2 = []) :
    ((deriveExecutionGraph exportAs steps).1.map (·.id)).Nodup := by
  have hids : (deriveExecutionGraph exportAs steps).1.map (·.id) =
      steps.zipIdx.map fun entry => Pipeline.nodeId entry.2 entry.1 := by
    simp only [deriveExecutionGraph, List.map_map]
    refine (List.map_fst_zip ?_)
    simp
  rw [hids]
  refine nodup_of_duplicateErrors ?_
  have herrors := h
  simp only [deriveExecutionGraph, List.append_eq_nil_iff] at herrors
  exact herrors.1.1

end Accepted

section Safety

/-- `n` depends on `d`, directly or through other nodes, and neither it nor a node between them has
been restored. -/
inductive Upstream (options : GraphExecutionOptions V C) (nodes : List (GraphNode V)) (d : String) :
    String → Prop
  | direct {node : GraphNode V} : node ∈ nodes → node.id ∉ options.precompletedNodeIds →
      d ∈ node.dependencies → Upstream options nodes d node.id
  | through {node : GraphNode V} {m : String} : Upstream options nodes d m → node ∈ nodes →
      node.id ∉ options.precompletedNodeIds → m ∈ node.dependencies →
      Upstream options nodes d node.id

structure DispatchSafe (options : GraphExecutionOptions V C) (nodes : List (GraphNode V))
    (s : Scheduler C) : Prop where
  once : (startedIds s.log).Nodup
  after : ∀ pre id context post, s.log = pre ++ .started id context :: post →
    ∀ node ∈ nodes, node.id = id → ∀ d ∈ node.dependencies,
      ∃ outcome, .reported d outcome ∈ pre ∧ outcome.status = .success
  limit : ∀ limit, options.maxConcurrency.limit = some limit →
    (handlersRunning s.log).length ≤ limit
  claims : (handlersRunning s.log).Pairwise fun a b =>
    ∀ nodeA ∈ nodes, nodeA.id = a.1 → ∀ nodeB ∈ nodes, nodeB.id = b.1 →
      ∀ x ∈ options.resourceClaims nodeA a.2, ∀ y ∈ options.resourceClaims nodeB b.2,
        graphClaimsConflict x y = false
  skipped : ∀ d n, Upstream options nodes d n →
    s.statuses d = some (.terminal .failed) ∨ s.statuses d = some (.terminal .skipped) →
      n ∉ startedIds s.log ∧ (s.phase = .returned → s.statuses n = some (.terminal .skipped))
  settled : s.phase = .returned → ∀ node ∈ nodes, ∃ outcome, s.outcomes node.id = some outcome ∧
    s.statuses node.id = some (.terminal outcome.status) ∧ reportsOf node.id s.log = [outcome]

/-- The loop returns when no node is left. -/
def Finished (nodes : List (GraphNode V)) (s : Scheduler C) : Prop :=
  s.phase = .returned → ∀ node ∈ nodes, s.isTerminal node.id = true

theorem isTerminal_of_hasUnsettled (h : Tables options nodes s)
    (hsettled : hasUnsettled nodes s = false) {node : GraphNode V} (hnode : node ∈ nodes) :
    s.isTerminal node.id = true := by
  have hopen := List.any_eq_false.mp hsettled node hnode
  cases hstatus : s.statuses node.id with
  | none => exact absurd hstatus (h.known node hnode)
  | some status =>
      cases status with
      | pending => simp [hstatus] at hopen
      | running => simp [hstatus] at hopen
      | terminal status => exact isTerminal_iff.mpr ⟨status, hstatus⟩

theorem dispatchPass_phase (options : GraphExecutionOptions V C) (nodes : List (GraphNode V))
    (s : Scheduler C) : (dispatchPass options nodes s).1.phase = s.phase :=
  dispatchPass_induction (P := fun t => t.phase = s.phase) rfl
    fun _ _ _ _ ht hnode => (dispatchNode_phase hnode).trans ht

theorem Finished.step (h : SchedulerInv options nodes s) (hfinished : Finished nodes s)
    {s' : Scheduler C} {a : SchedulerAction C}
    (hstep : executeGraphStep options nodes s a = some s') : Finished nodes s' := by
  cases a with
  | schedule =>
      obtain ⟨hlooping, hstep⟩ := Option.ite_none_right_eq_some.mp hstep
      obtain rfl := Option.some.inj hstep
      rcases schedule_cases options nodes s with ⟨hsettled, heq⟩ | ⟨phase, heq, hphase⟩
      · rw [heq]
        exact fun _ node hnode => isTerminal_of_hasUnsettled h.tables hsettled hnode
      · rw [heq]
        intro hreturned
        have hreturned : phase = .returned := hreturned
        subst hreturned
        rw [dispatchPass_phase, hlooping] at hphase
        simp at hphase
  | finish id end_ =>
      obtain ⟨-, rfl⟩ := finish_cases hstep
      exact hfinished
  | race id =>
      obtain ⟨-, slot, -, -, end_, -, ⟨outcome, -, rfl⟩ | ⟨-, rfl⟩⟩ := race_cases hstep
      · obtain ⟨context, heq⟩ := completeNode_eq options nodes s slot outcome
        rw [heq]
        intro hreturned
        cases hreturned
      · intro hreturned
        cases hreturned

theorem openScheduler_phase (options : GraphExecutionOptions V C) (nodes : List (GraphNode V)) :
    (openScheduler options nodes).phase = .looping :=
  openScheduler_induction (P := fun s => s.phase = .looping) (fun _ => rfl) (fun _ _ _ hs => hs)
    fun _ _ hs => hs

theorem inv_of_reachable (hids : (nodes.map (·.id)).Nodup)
    (h : (executeGraph options nodes).Reachable s) :
    SchedulerInv options nodes s ∧ Finished nodes s := by
  refine h.invariant (I := fun s => SchedulerInv options nodes s ∧ Finished nodes s)
    (fun s h0 => ?_) fun s a t hs _ hstep => ⟨hs.1.step hids hstep, hs.2.step hs.1 hstep⟩
  rw [show s = openScheduler options nodes from h0]
  refine ⟨openScheduler_inv options nodes, fun hreturned => ?_⟩
  rw [openScheduler_phase] at hreturned
  cases hreturned

instance : Std.Symm (Apart (C := C)) where
  symm _ _ := Apart.symm

theorem handlersRunning_nodup (h : SchedulerInv options nodes s) :
    ((handlersRunning s.log).map Prod.fst).Nodup :=
  h.tables.once.sublist handlersRunning_sublist

theorem handlersRunning_le (h : SchedulerInv options nodes s) :
    (handlersRunning s.log).length ≤ s.active.length := by
  have hsub : (handlersRunning s.log).map Prod.fst ⊆ s.active.map (·.id) := by
    intro id hid
    obtain ⟨⟨id, context⟩, hmem, rfl⟩ := List.mem_map.mp hid
    obtain ⟨hstarted, hended⟩ := mem_handlersRunning.mp hmem
    obtain ⟨slot, hslot, rfl, -⟩ := h.slots.granted id context hstarted hended
    exact List.mem_map_of_mem hslot
  simpa using ((handlersRunning_nodup h).subperm hsub).length_le

/-- What the handler of a running node may touch, its slot holds. -/
theorem claims_apart (hids : (nodes.map (·.id)).Nodup) (h : SchedulerInv options nodes s)
    {a b : String × C} (ha : a ∈ handlersRunning s.log) (hb : b ∈ handlersRunning s.log)
    (hne : a.1 ≠ b.1) {nodeA nodeB : GraphNode V} (hA : nodeA ∈ nodes) (hidA : nodeA.id = a.1)
    (hB : nodeB ∈ nodes) (hidB : nodeB.id = b.1) {x y : GraphClaim}
    (hx : x ∈ options.resourceClaims nodeA a.2) (hy : y ∈ options.resourceClaims nodeB b.2) :
    graphClaimsConflict x y = false := by
  obtain ⟨hstartedA, hendedA⟩ := mem_handlersRunning.mp ha
  obtain ⟨hstartedB, hendedB⟩ := mem_handlersRunning.mp hb
  obtain ⟨slotA, hslotA, hslotIdA, otherA, hotherA, hotherIdA, hclaimsA⟩ :=
    h.slots.granted a.1 a.2 hstartedA hendedA
  obtain ⟨slotB, hslotB, hslotIdB, otherB, hotherB, hotherIdB, hclaimsB⟩ :=
    h.slots.granted b.1 b.2 hstartedB hendedB
  obtain rfl := eq_of_id hids hotherA hA (hotherIdA.trans hidA.symm)
  obtain rfl := eq_of_id hids hotherB hB (hotherIdB.trans hidB.symm)
  have hneSlot : slotA ≠ slotB := by
    rintro rfl
    exact hne (hslotIdA.symm.trans hslotIdB)
  exact h.slots.apart.forall hslotA hslotB hneSlot x (hclaimsA ▸ hx) y (hclaimsB ▸ hy)

/-- A dependent of a node that has failed or been skipped is held. -/
theorem held_of_upstream (h : Tables options nodes s) {d n : String}
    (hup : Upstream options nodes d n)
    (hd : s.statuses d = some (.terminal .failed) ∨ s.statuses d = some (.terminal .skipped)) :
    s.held n := by
  induction hup with
  | direct hnode hfresh hdep =>
      refine (h.ready _ hnode hfresh).resolve_right fun hdeps => ?_
      rw [hdeps d hdep] at hd
      simp at hd
  | through _ hnode hfresh hdep ih =>
      refine (h.ready _ hnode hfresh).resolve_right fun hdeps => ?_
      rw [Scheduler.held, hdeps _ hdep] at ih
      simp at ih

/-- The dependencies of a node that was started have succeeded. -/
theorem deps_of_started (h : Tables options nodes s) {node : GraphNode V} (hnode : node ∈ nodes)
    (hstarted : node.id ∈ startedIds s.log) {d : String} (hd : d ∈ node.dependencies) :
    s.statuses d = some (.terminal .success) := by
  obtain ⟨context, hmem⟩ := mem_startedIds.mp hstarted
  obtain ⟨pre, post, hlog⟩ := List.append_of_mem hmem
  obtain ⟨outcome, hreported, hsuccess⟩ := h.order pre _ post hlog node hnode rfl d hd
  have hreport : outcome ∈ reportsOf d s.log := by
    rw [mem_reportsOf, hlog]
    exact List.mem_append_left _ hreported
  rw [h.reports, Option.mem_toList] at hreport
  exact (h.outcome d .success).mpr ⟨outcome, hreport, hsuccess⟩

theorem notMem_startedIds_of_upstream (h : Tables options nodes s) {d n : String}
    (hup : Upstream options nodes d n)
    (hd : s.statuses d = some (.terminal .failed) ∨ s.statuses d = some (.terminal .skipped)) :
    n ∉ startedIds s.log := by
  intro hstarted
  cases hup with
  | direct hnode _ hdep =>
      rw [deps_of_started h hnode hstarted hdep] at hd
      simp at hd
  | through hup hnode _ hdep =>
      have hheld := held_of_upstream h hup hd
      rw [Scheduler.held, deps_of_started h hnode hstarted hdep] at hheld
      simp at hheld

theorem Upstream.mem {d n : String} (h : Upstream options nodes d n) :
    ∃ node ∈ nodes, node.id = n := by
  cases h with
  | direct hnode => exact ⟨_, hnode, rfl⟩
  | through _ hnode => exact ⟨_, hnode, rfl⟩

/-- In every run, with or without suspensions: a handler runs once at most and after its
dependencies have succeeded, the limit and the claims hold, nothing runs behind a failure or a
skip, and when the loop returns each node has one outcome, reported once. -/
theorem graph_dispatch_safe {exportAs : V → Option String} {steps : List (AdfStep V)}
    (haccepted : (deriveExecutionGraph exportAs steps).2 = [])
    (hs : (executeGraph options (deriveExecutionGraph exportAs steps).1).Reachable s) :
    DispatchSafe options (deriveExecutionGraph exportAs steps).1 s := by
  have hids := nodup_of_accepted haccepted
  generalize (deriveExecutionGraph exportAs steps).1 = nodes at hids hs ⊢
  obtain ⟨h, hfinished⟩ := inv_of_reachable hids hs
  refine ⟨h.tables.once, fun pre id context post hlog => ?_, fun limit hlimit => ?_, ?_,
    fun d n hup hd => ⟨notMem_startedIds_of_upstream h.tables hup hd, fun hreturned => ?_⟩,
    fun hreturned node hnode => ?_⟩
  · exact h.tables.order pre _ post hlog
  · exact (handlersRunning_le h).trans (h.slots.bounded limit hlimit)
  · refine (List.pairwise_map.mp (handlersRunning_nodup h)).imp_of_mem ?_
    intro a b ha hb hne nodeA hA hidA nodeB hB hidB x hx y hy
    exact claims_apart hids h ha hb hne hA hidA hB hidB hx hy
  · obtain ⟨node, hnode, rfl⟩ := hup.mem
    obtain ⟨status, hstatus⟩ := isTerminal_iff.mp (hfinished hreturned node hnode)
    rcases held_of_upstream h.tables hup hd with hpending | hskipped
    · rw [hstatus] at hpending
      cases hpending
    · exact hskipped
  · obtain ⟨status, hstatus⟩ := isTerminal_iff.mp (hfinished hreturned node hnode)
    obtain ⟨outcome, houtcome, rfl⟩ := (h.tables.outcome node.id status).mp hstatus
    refine ⟨outcome, houtcome, hstatus, ?_⟩
    rw [h.tables.reports, houtcome]
    rfl

/-- Handlers are started for nodes of the graph. -/
theorem node_of_started {id : String} (h : (executeGraph options nodes).Reachable s)
    (hstarted : id ∈ startedIds s.log) : ∃ node ∈ nodes, node.id = id := by
  let Known (s : Scheduler C) : Prop := ∀ id ∈ startedIds s.log, ∃ node ∈ nodes, node.id = id
  suffices hknown : Known s from hknown id hstarted
  have hsettle : ∀ t other outcome, Known t → Known (t.settleNode other outcome) := by
    intro t other outcome ht id hid
    rw [settleNode_log, startedIds_reported] at hid
    exact ht id hid
  refine h.invariant (I := Known) (fun s h0 => ?_) fun s a t hs _ hstep => ?_
  · rw [show s = openScheduler options nodes from h0]
    exact openScheduler_induction (P := Known) (fun _ _ hmem => nomatch hmem) hsettle
      fun _ _ ht => ht
  · refine executeGraphStep_induction (P := Known) (fun _ _ _ _ _ ht => ht) hsettle
      (fun t node hnode claims _ ht id hid => ?_) (fun t other end_ ht id hid => ?_) hs hstep
    · rw [dispatch_log, startedIds_started, List.mem_append, List.mem_singleton] at hid
      rcases hid with hold | rfl
      · exact ht id hold
      · exact ⟨node, hnode, rfl⟩
    · rw [startedIds_ended] at hid
      exact ht id hid

end Safety

section Runs

/-- A context that nothing is read from. -/
def unitMerge : ContextMerge Unit where
  last _ _ := ()
  namespace_ _ _ _ := ()
  collect _ _ _ := ()

/-- A step with an id and its dependencies. -/
def namedStep (id : String) (dependsOn : List String) : AdfStep Unit :=
  .mk { id := some id, type := .apply, op := "run", params := (), dependsOn := some dependsOn }
    none none none

/-- A failure skips the dependents of its node, while an independent node runs beside it. -/
theorem graph_dispatch_safe_failure :
    ∃ s, (executeGraph (V := Unit) (C := Unit)
        { initialContext := (), merge := unitMerge, maxConcurrency := .finite 2 }
        (deriveExecutionGraph (fun _ => none)
          [namedStep "a" [], namedStep "b" ["a"], namedStep "c" []]).1).Reachable s ∧
      s.phase = .returned ∧ startedIds s.log = ["a", "c"] ∧
        s.statuses "b" = some (.terminal .skipped) ∧ DispatchSafe
          { initialContext := (), merge := unitMerge, maxConcurrency := .finite 2 }
          (deriveExecutionGraph (fun _ => none)
            [namedStep "a" [], namedStep "b" ["a"], namedStep "c" []]).1 s := by
  obtain ⟨s, hs, hphase, hstarted, hstatus⟩ := System.exists_reachable_of_exec
    (S := executeGraph (V := Unit) (C := Unit)
      { initialContext := (), merge := unitMerge, maxConcurrency := .finite 2 }
      (deriveExecutionGraph (fun _ => none)
        [namedStep "a" [], namedStep "b" ["a"], namedStep "c" []]).1)
    [.schedule, .finish "c" (.returned { status := .success }), .finish "a" (.threw "boom"),
      .race "a", .schedule, .race "c", .schedule]
    (fun s => s.phase = .returned ∧ startedIds s.log = ["a", "c"] ∧
      s.statuses "b" = some (.terminal .skipped))
    rfl (by decide +kernel)
  exact ⟨s, hs, hphase, hstarted, hstatus, graph_dispatch_safe (by decide +kernel) hs⟩

/-- A node that was restored stays a success behind a dependency that is skipped. -/
theorem restored_not_skipped :
    ¬ ∀ s, (executeGraph (V := Unit) (C := Unit)
        { initialContext := (), merge := unitMerge, precompletedNodeIds := ["b"],
          preskippedNodeIds := ["a"] }
        (deriveExecutionGraph (fun _ => none) [namedStep "a" [], namedStep "b" ["a"]]).1).Reachable s →
      s.phase = .returned →
        ∀ node ∈ (deriveExecutionGraph (fun _ => none)
            [namedStep "a" [], namedStep "b" ["a"]]).1,
          ∀ d ∈ node.dependencies, s.statuses d = some (.terminal .skipped) →
            s.statuses node.id = some (.terminal .skipped) := by
  intro h
  obtain ⟨s, hs, hphase, hnot⟩ := System.exists_reachable_of_exec
    (S := executeGraph (V := Unit) (C := Unit)
      { initialContext := (), merge := unitMerge, precompletedNodeIds := ["b"],
        preskippedNodeIds := ["a"] }
      (deriveExecutionGraph (fun _ => none) [namedStep "a" [], namedStep "b" ["a"]]).1)
    [.schedule]
    (fun s => s.phase = .returned ∧ ¬ ∀ node ∈ (deriveExecutionGraph (fun _ => none)
        [namedStep "a" [], namedStep "b" ["a"]]).1,
      ∀ d ∈ node.dependencies, s.statuses d = some (.terminal .skipped) →
        s.statuses node.id = some (.terminal .skipped))
    rfl (by decide +kernel)
  exact hnot (h s hs hphase)

end Runs

end Kyberion.Graph
