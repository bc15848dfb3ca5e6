import Kyberion.Graph.DispatchSafety

/-!
What a suspension leaves unreported. The race that takes it rejects the whole call, so the nodes
that are in flight at that moment end with nobody waiting for them.
-/

namespace Kyberion.Graph

open Kyberion.Pipeline (GraphNode AdfStep deriveExecutionGraph)
open Transition

variable {V C : Type} {options : GraphExecutionOptions V C} {nodes : List (GraphNode V)}
  {s s' : Scheduler C} {id : String}

section Ends

/-- The end of a handler is in its slot until the race takes it, and reported from then on. -/
structure Ends (nodes : List (GraphNode V)) (s : Scheduler C) : Prop where
  taken : ∀ id end_, .ended id end_ ∈ s.log →
    (∃ slot ∈ s.active, slot.id = id ∧ slot.ended = some end_) ∨
      ∃ outcome, end_.outcome = some outcome ∧ reportsOf id s.log = [outcome]
  nodes : ∀ slot ∈ s.active, ∃ node ∈ nodes, node.id = slot.id
  idle : s.phase = .returned ∨ s.phase = .deadlocked → s.active = []
  alone : s.phase = .suspended → ∀ slot ∈ s.active, slot.ended = some .suspended

/-- A suspension is taken only when no other node is in flight. -/
def suspendsAlone (s : Scheduler C) : SchedulerAction C → Bool
  | .race id => (s.slot id).all fun slot =>
      match slot.ended with
      | some .suspended => s.active.length = 1
      | _ => true
  | _ => true

theorem reports_none (h : Tables options nodes s)
    (hopen : s.statuses id = some .pending ∨ s.statuses id = some .running) :
    reportsOf id s.log = [] := by
  rw [h.reports, h.outcomes_none hopen]
  rfl

theorem mem_ended_of_snoc {log : List (SchedulerEvent C)} {e : SchedulerEvent C}
    {end_ : HandlerEnd C} (h : .ended id end_ ∈ log ++ [e]) (he : e.endedId = none) :
    .ended id end_ ∈ log := by
  rcases List.mem_append.mp h with hmem | hmem
  · exact hmem
  · rw [List.mem_singleton] at hmem
    subst hmem
    cases he

/-- The handler of an open node that holds no slot has not ended. -/
theorem Ends.notMem_of_pending (h : Ends nodes s) (hinv : SchedulerInv options nodes s)
    (hpending : s.statuses id = some .pending) (end_ : HandlerEnd C) : .ended id end_ ∉ s.log := by
  intro hmem
  rcases h.taken id end_ hmem with ⟨slot, hslot, rfl, -⟩ | ⟨outcome, -, hreport⟩
  · have hrunning := (hinv.slots.running slot.id).mpr (List.mem_map_of_mem hslot)
    rw [hpending] at hrunning
    cases hrunning
  · rw [reports_none hinv.tables (.inl hpending)] at hreport
    cases hreport

theorem Ends.dispatchNode (h : Ends nodes s) (hinv : SchedulerInv options nodes s)
    (hphase : s.phase = .looping) {node : GraphNode V} (hnode : node ∈ nodes)
    (hdispatch : dispatchNode options s node = some s') : Ends nodes s' := by
  have hphase' := (dispatchNode_phase hdispatch).trans hphase
  obtain ⟨hpending, ⟨outcome, -, rfl⟩ | ⟨-, -, -, rfl⟩⟩ := dispatchNode_cases hdispatch
  · refine ⟨fun id end_ hmem => ?_, h.nodes, by simp [hphase'], by simp [hphase']⟩
    have hold := mem_ended_of_snoc hmem rfl
    refine (h.taken id end_ hold).imp_right fun ⟨o, ho, hreport⟩ => ⟨o, ho, ?_⟩
    have hne : node.id ≠ id := by
      rintro rfl
      exact h.notMem_of_pending hinv hpending end_ hold
    rw [settleNode_log, reportsOf_reported, if_neg hne, List.append_nil, hreport]
  · refine ⟨fun id end_ hmem => ?_, fun slot hslot => ?_, by simp [hphase'], by simp [hphase']⟩
    · rcases h.taken id end_ (mem_ended_of_snoc hmem rfl) with ⟨slot, hslot, hid⟩ | ⟨o, ho, hreport⟩
      · exact .inl ⟨slot, List.mem_append_left _ hslot, hid⟩
      · exact .inr ⟨o, ho, by rw [dispatch_log, reportsOf_started, hreport]⟩
    · rcases List.mem_append.mp hslot with hold | hnew
      · exact h.nodes slot hold
      · exact ⟨node, hnode, by rw [List.mem_singleton.mp hnew]⟩

theorem Ends.schedule (h : Ends nodes s) (hinv : SchedulerInv options nodes s)
    (hids : (nodes.map (·.id)).Nodup) (hlooping : s.phase = .looping) :
    Ends nodes (schedule options nodes s) := by
  rcases schedule_cases options nodes s with ⟨hsettled, heq⟩ | ⟨phase, heq, hphase⟩
  · rw [heq]
    refine ⟨h.taken, h.nodes, fun _ => ?_, fun hsuspended => nomatch hsuspended⟩
    refine List.eq_nil_iff_forall_not_mem.mpr fun slot hslot => ?_
    obtain ⟨node, hnode, hid⟩ := h.nodes slot hslot
    have hterminal := isTerminal_of_hasUnsettled hinv.tables hsettled hnode
    obtain ⟨status, hstatus⟩ := isTerminal_iff.mp hterminal
    have hrunning := (hinv.slots.running slot.id).mpr (List.mem_map_of_mem hslot)
    rw [← hid, hstatus] at hrunning
    cases hrunning
  · rw [heq]
    have hall : (Ends nodes (dispatchPass options nodes s).1 ∧ _) := dispatchPass_induction
      (P := fun t => Ends nodes t ∧ SchedulerInv options nodes t ∧ t.phase = .looping)
      ⟨h, hinv, hlooping⟩ fun node hnode t t' ⟨ht, htinv, htphase⟩ ht' =>
        ⟨ht.dispatchNode htinv htphase hnode ht', htinv.dispatchNode hids hnode ht',
          (dispatchNode_phase ht').trans htphase⟩
    obtain ⟨hpass, -, -⟩ := hall
    refine ⟨hpass.taken, hpass.nodes, fun hover => ?_, fun hsuspended => ?_⟩
    · rcases hphase with ⟨rfl, -⟩ | ⟨hactive, -⟩
      · simp at hover
      · exact hactive
    · have hsuspended : phase = .suspended := hsuspended
      subst hsuspended
      rw [dispatchPass_phase, hlooping] at hphase
      simp at hphase

theorem Ends.endSlot (h : Ends nodes s) (hinv : SchedulerInv options nodes s) {end_ : HandlerEnd C}
    (hopen : ∃ slot ∈ s.active, slot.id = id ∧ slot.ended = none) :
    Ends nodes (s.endSlot id end_) := by
  obtain ⟨slot, hslot, rfl, hnone⟩ := hopen
  have hnot : ∀ end', .ended slot.id end' ∉ s.log := by
    intro end' hmem
    rcases h.taken slot.id end' hmem with ⟨other, hother, hid, hend⟩ | ⟨o, -, hreport⟩
    · obtain rfl : other = slot := List.inj_on_of_nodup_map hinv.slots.slots hother hslot hid
      rw [hnone] at hend
      cases hend
    · have hrunning := (hinv.slots.running slot.id).mpr (List.mem_map_of_mem hslot)
      rw [reports_none hinv.tables (.inr hrunning)] at hreport
      cases hreport
  refine ⟨fun id end' hmem => ?_, fun other hother => ?_, fun hover => ?_, fun hsuspended => ?_⟩
  · rcases List.mem_append.mp hmem with hold | hnew
    · rcases h.taken id end' hold with ⟨other, hother, hid, hend⟩ | ⟨o, ho, hreport⟩
      · refine .inl ⟨other, List.mem_map.mpr ⟨other, hother, if_neg fun hsame => ?_⟩, hid, hend⟩
        rw [← hid, hsame] at hold
        exact hnot end' hold
      · exact .inr ⟨o, ho, reportsOf_ended.trans hreport⟩
    · obtain ⟨rfl, rfl⟩ := SchedulerEvent.ended.inj (List.mem_singleton.mp hnew)
      exact .inl ⟨_, List.mem_map.mpr ⟨slot, hslot, if_pos rfl⟩, rfl, rfl⟩
  · obtain ⟨old, hold, rfl⟩ := List.mem_map.mp hother
    obtain ⟨node, hnode, hid⟩ := h.nodes old hold
    refine ⟨node, hnode, ?_⟩
    split <;> exact hid
  · rw [h.idle hover] at hslot
    cases hslot
  · rw [h.alone hsuspended slot hslot] at hnone
    cases hnone

theorem completeNode_log (options : GraphExecutionOptions V C) (nodes : List (GraphNode V))
    (s : Scheduler C) (slot : Slot C) (outcome : GraphExecutionOutcome C) :
    (completeNode options nodes s slot outcome).log = s.log ++ [.reported slot.id outcome] ∧
      (completeNode options nodes s slot outcome).active =
        s.active.filter (fun other => other.id ≠ slot.id) ∧
      (completeNode options nodes s slot outcome).phase = .looping := by
  obtain ⟨context, heq⟩ := completeNode_eq options nodes s slot outcome
  rw [heq]
  exact ⟨rfl, rfl, rfl⟩

theorem Ends.completeNode (h : Ends nodes s) (hinv : SchedulerInv options nodes s) {slot : Slot C}
    (hslot : slot ∈ s.active) {end_ : HandlerEnd C} (hend : slot.ended = some end_)
    {outcome : GraphExecutionOutcome C} (houtcome : end_.outcome = some outcome) :
    Ends nodes (completeNode options nodes s slot outcome) := by
  obtain ⟨hlog, hactive, hphase⟩ := completeNode_log options nodes s slot outcome
  have hrunning := (hinv.slots.running slot.id).mpr (List.mem_map_of_mem hslot)
  refine ⟨fun id end' hmem => ?_, fun other hother => ?_, by simp [hphase], by simp [hphase]⟩
  · rw [hlog] at hmem
    rw [hactive, hlog, reportsOf_reported]
    have hold := mem_ended_of_snoc hmem rfl
    rcases h.taken id end' hold with ⟨other, hother, rfl, hend'⟩ | ⟨o, ho, hreport⟩
    · by_cases hid : other.id = slot.id
      · obtain rfl := List.inj_on_of_nodup_map hinv.slots.slots hother hslot hid
        obtain rfl := Option.some.inj (hend'.symm.trans hend)
        refine .inr ⟨outcome, houtcome, ?_⟩
        rw [reports_none hinv.tables (.inr hrunning), if_pos rfl, List.nil_append]
      · exact .inl ⟨other, List.mem_filter.mpr ⟨hother, decide_eq_true hid⟩, rfl, hend'⟩
    · have hne : slot.id ≠ id := by
        rintro rfl
        rw [reports_none hinv.tables (.inr hrunning)] at hreport
        cases hreport
      exact .inr ⟨o, ho, by rw [if_neg hne, List.append_nil, hreport]⟩
  · rw [hactive] at hother
    exact h.nodes other (List.mem_filter.mp hother).1

theorem Ends.step (h : Ends nodes s) (hinv : SchedulerInv options nodes s)
    (hids : (nodes.map (·.id)).Nodup) {a : SchedulerAction C} (hok : suspendsAlone s a = true)
    (hstep : executeGraphStep options nodes s a = some s') : Ends nodes s' := by
  cases a with
  | schedule =>
      obtain ⟨hlooping, hstep⟩ := Option.ite_none_right_eq_some.mp hstep
      obtain rfl := Option.some.inj hstep
      exact h.schedule hinv hids hlooping
  | finish id end_ =>
      obtain ⟨hopen, rfl⟩ := finish_cases hstep
      exact h.endSlot hinv hopen
  | race id =>
      obtain ⟨hracing, slot, hslot, rfl, end_, hend, ⟨outcome, houtcome, rfl⟩ | ⟨rfl, rfl⟩⟩ :=
        race_cases hstep
      · exact h.completeNode hinv hslot hend houtcome
      · refine ⟨h.taken, h.nodes, fun hover => ?_, fun _ other hother => ?_⟩
        · simp at hover
        · have hfind : s.slot slot.id = some slot := by
            cases hfound : s.slot slot.id with
            | none => exact absurd (List.find?_eq_none.mp hfound slot hslot) (by simp)
            | some found =>
                have hid : found.id = slot.id := by simpa using List.find?_some hfound
                rw [List.inj_on_of_nodup_map hinv.slots.slots (List.mem_of_find?_eq_some hfound)
                  hslot hid]
          rw [suspendsAlone, hfind] at hok
          simp only [Option.all_some, hend, decide_eq_true_eq] at hok
          obtain ⟨only, honly⟩ := List.length_eq_one_iff.mp hok
          rw [honly, List.mem_singleton] at hother hslot
          rw [hother, ← hslot, hend]

theorem openScheduler_ends (options : GraphExecutionOptions V C) (nodes : List (GraphNode V)) :
    Ends nodes (openScheduler options nodes) := by
  have hempty : (openScheduler options nodes).active = [] :=
    openScheduler_induction (P := fun s => s.active = []) (fun _ => rfl) (fun _ _ _ hs => hs)
      fun _ _ hs => hs
  have hlog : ∀ id end_, .ended id end_ ∉ (openScheduler options nodes).log :=
    openScheduler_induction (P := fun s => ∀ id end_, .ended id end_ ∉ s.log)
      (fun _ _ _ hmem => nomatch hmem)
      (fun _ _ _ hs id end_ hmem => hs id end_ (mem_ended_of_snoc hmem rfl)) fun _ _ hs => hs
  refine ⟨fun id end_ hmem => absurd hmem (hlog id end_), fun slot hslot => ?_, fun _ => hempty,
    fun _ slot hslot => ?_⟩
  · rw [hempty] at hslot
    cases hslot
  · rw [hempty] at hslot
    cases hslot

theorem ends_of_reach (hids : (nodes.map (·.id)).Nodup)
    (h : (executeGraph options nodes).Reach (fun s a => suspendsAlone s a = true) s) :
    SchedulerInv options nodes s ∧ Ends nodes s := by
  refine h.invariant (I := fun s => SchedulerInv options nodes s ∧ Ends nodes s)
    (fun s h0 => ?_)
    fun s a t hs hok hstep => ⟨hs.1.step hids hstep, hs.2.step hs.1 hids hok hstep⟩
  rw [show s = openScheduler options nodes from h0]
  exact ⟨openScheduler_inv options nodes, openScheduler_ends options nodes⟩

end Ends

section Resume

/-- A node that was restored, or that there is none of, is settled before the loop and stays so. -/
structure Restored (s : Scheduler C) (id : String) : Prop where
  pending : s.statuses id ≠ some .pending
  started : id ∉ startedIds s.log

theorem Restored.settleNode (h : Restored s id) (other : String)
    (outcome : GraphExecutionOutcome C) : Restored (s.settleNode other outcome) id where
  pending := by
    rw [settleNode_statuses]
    split
    · simp
    · exact h.pending
  started := by
    rw [settleNode_log, startedIds_reported]
    exact h.started

theorem Restored.step (h : Restored s id) {a : SchedulerAction C}
    (hstep : executeGraphStep options nodes s a = some s') : Restored s' id := by
  refine executeGraphStep_induction (P := fun t => Restored t id)
    (fun t _ _ _ _ ht => ⟨ht.pending, ht.started⟩) (fun t other outcome ht => ht.settleNode other _)
    (fun t node _ claims hpending ht => ?_) (fun t other end_ ht => ⟨ht.pending, ?_⟩) h hstep
  · have hne : id ≠ node.id := by
      rintro rfl
      exact ht.pending hpending
    constructor
    · rw [dispatch_statuses, if_neg hne]
      exact ht.pending
    · rw [dispatch_log, startedIds_started, List.mem_append, List.mem_singleton, not_or]
      exact ⟨ht.started, hne⟩
  · rw [startedIds_ended]
    exact ht.started

theorem openScheduler_restored {node : GraphNode V} (hnode : node ∈ nodes)
    (hid : node.id ∈ options.precompletedNodeIds) :
    Restored (openScheduler options nodes) node.id := by
  have hkeep : ∀ s other, Restored s node.id →
      Restored (precomplete options nodes s other) node.id := by
    intro s other hs
    refine precomplete_induction (P := fun s => Restored s node.id) hs fun outcome context _ => ?_
    exact ⟨(hs.settleNode other outcome).pending, (hs.settleNode other outcome).started⟩
  have hfresh : ∀ ids : List String, node.id ∉ startedIds (ids.foldl (precomplete options nodes)
      { context := options.initialContext
        statuses := fun id => if id ∈ nodes.map (·.id) then some .pending else none }).log := by
    intro ids
    refine List.foldlRecOn _ _ (motive := fun s : Scheduler C => node.id ∉ startedIds s.log)
      (fun hmem => nomatch hmem) fun s hs other _ => ?_
    refine precomplete_induction (P := fun s : Scheduler C => node.id ∉ startedIds s.log) hs
      fun outcome context _ => ?_
    rw [settleNode_log, startedIds_reported]
    exact hs
  unfold openScheduler
  refine List.foldlRecOn _ _ (motive := fun s => Restored s node.id) ?_ fun s hs other _ =>
    preskip_induction (P := fun s => Restored s node.id) hs
      fun outcome _ _ => hs.settleNode other outcome
  obtain ⟨before, behind, hlist⟩ := List.append_of_mem hid
  rw [hlist, List.foldl_append, List.foldl_cons]
  refine List.foldlRecOn _ _ (motive := fun s => Restored s node.id) ?_
    fun s hs other _ => hkeep s other hs
  have hbefore := hfresh before
  generalize before.foldl (precomplete options nodes) _ = s at hbefore
  by_cases hpending : s.statuses node.id = some .pending
  · unfold precomplete
    split
    · rename_i hnone
      exact absurd (List.find?_eq_none.mp hnone node hnode) (by simp)
    · rw [if_pos hpending]
      constructor
      · simp [Scheduler.settleNode, Scheduler.setStatus]
      · simpa using hbefore
  · exact hkeep s node.id ⟨hpending, hbefore⟩

/-- The handler of a restored node is not called again. -/
theorem notMem_startedIds_of_restored {node : GraphNode V} (hnode : node ∈ nodes)
    (hid : node.id ∈ options.precompletedNodeIds)
    (h : (executeGraph options nodes).Reachable s) : node.id ∉ startedIds s.log := by
  refine (h.invariant (I := fun s => Restored s node.id) (fun s h0 => ?_)
    fun _ _ _ hs _ hstep => hs.step hstep).started
  rw [show s = openScheduler options nodes from h0]
  exact openScheduler_restored hnode hid

/-- While suspensions are taken with no other node in flight, a call that has ended has reported
each handler that returned success, once, and a resume does not call it again. -/
theorem suspension_keeps_completed {exportAs : V → Option String} {steps : List (AdfStep V)}
    (haccepted : (deriveExecutionGraph exportAs steps).2 = [])
    (hs : (executeGraph options (deriveExecutionGraph exportAs steps).1).Reach
      (fun s a => suspendsAlone s a = true) s)
    (hover : s.phase ≠ .looping ∧ s.phase ≠ .racing) {outcome : GraphExecutionOutcome C}
    (hended : .ended id (.returned outcome) ∈ s.log) (hsuccess : outcome.status = .success) :
    reportsOf id s.log = [outcome] ∧
      ∀ resume : GraphExecutionOptions V C, resume.precompletedNodeIds = reportedSuccesses s.log →
        ∀ t, (executeGraph resume (deriveExecutionGraph exportAs steps).1).Reachable t →
          id ∉ startedIds t.log := by
  have hids := nodup_of_accepted haccepted
  generalize (deriveExecutionGraph exportAs steps).1 = nodes at hids hs ⊢
  obtain ⟨-, hends⟩ := ends_of_reach hids hs
  have hreport : reportsOf id s.log = [outcome] := by
    rcases hends.taken id _ hended with ⟨slot, hslot, -, hend⟩ | ⟨o, ho, hreport⟩
    · cases hphase : s.phase with
      | looping => exact absurd hphase hover.1
      | racing => exact absurd hphase hover.2
      | suspended =>
          rw [hends.alone hphase slot hslot] at hend
          cases hend
      | returned =>
          rw [hends.idle (.inl hphase)] at hslot
          cases hslot
      | deadlocked =>
          rw [hends.idle (.inr hphase)] at hslot
          cases hslot
    · obtain rfl := Option.some.inj ho
      exact hreport
  refine ⟨hreport, fun resume hresume t ht hstarted => ?_⟩
  obtain ⟨node, hnode, rfl⟩ := node_of_started ht hstarted
  refine notMem_startedIds_of_restored hnode ?_ ht hstarted
  rw [hresume]
  refine mem_reportedSuccesses.mpr ⟨outcome, mem_reportsOf.mp ?_, hsuccess⟩
  rw [hreport]
  exact List.mem_singleton_self outcome

/-- The options of two nodes that run side by side. -/
def sideBySide : GraphExecutionOptions Unit Unit where
  maxConcurrency := .finite 2
  initialContext := ()
  merge := unitMerge

theorem suspension_keeps_completed_beside :
    ∃ s, (executeGraph sideBySide (deriveExecutionGraph (fun _ => none)
          [namedStep "a" [], namedStep "b" []]).1).Reach (fun s a => suspendsAlone s a = true) s ∧
      s.phase = .suspended ∧ reportsOf "b" s.log = [{ status := .success }] := by
  obtain ⟨s, hs, hphase, hended⟩ := System.exists_reach_of_execOk
    (S := executeGraph sideBySide (deriveExecutionGraph (fun _ => none)
      [namedStep "a" [], namedStep "b" []]).1)
    suspendsAlone
    [.schedule, .finish "b" (.returned { status := .success }), .race "b", .schedule,
      .finish "a" .suspended, .race "a"]
    (fun s => s.phase = .suspended ∧ .ended "b" (.returned { status := .success }) ∈ s.log)
    rfl (by decide +kernel)
  exact ⟨s, hs, hphase,
    (suspension_keeps_completed (by decide +kernel) hs (by simp [hphase]) hended rfl).1⟩

/-- Two nodes run when one of them suspends; the other one succeeds and nobody is told. -/
theorem completion_after_suspension_lost :
    ¬ ∀ s, (executeGraph sideBySide (deriveExecutionGraph (fun _ => none)
          [namedStep "a" [], namedStep "b" []]).1).Reachable s →
      s.phase ≠ .looping ∧ s.phase ≠ .racing →
        ∀ id outcome, .ended id (.returned outcome) ∈ s.log → outcome.status = .success →
          reportsOf id s.log = [outcome] := by
  intro h
  obtain ⟨s, hs, hphase, hended, hreports⟩ := System.exists_reachable_of_exec
    (S := executeGraph sideBySide (deriveExecutionGraph (fun _ => none)
      [namedStep "a" [], namedStep "b" []]).1)
    [.schedule, .finish "a" .suspended, .race "a",
      .finish "b" (.returned { status := .success })]
    (fun s => s.phase = .suspended ∧ .ended "b" (.returned { status := .success }) ∈ s.log ∧
      reportsOf "b" s.log = [])
    rfl (by decide +kernel)
  have hreport := h s hs (by simp [hphase]) "b" _ hended rfl
  rw [hreports] at hreport
  cases hreport

end Resume

end Kyberion.Graph
