import Kyberion.Dataflow
import Kyberion.Graph.Scheduler
import Mathlib.Data.List.Nodup
import Mathlib.Data.List.Perm.Subperm

/-!
What the dispatch of a graph keeps: the statuses, the slots and the claims in use agree with what
has been started, ended and reported, after every pass and every completion.
-/

namespace Kyberion.Graph

open Kyberion.Pipeline (GraphNode)
open Transition

variable {V C : Type}

section Events

def SchedulerEvent.call : SchedulerEvent C → Option (String × C)
  | .started id context => some (id, context)
  | _ => none

def SchedulerEvent.endedId : SchedulerEvent C → Option String
  | .ended id _ => some id
  | _ => none

def SchedulerEvent.reportOf (id : String) : SchedulerEvent C → Option (GraphExecutionOutcome C)
  | .reported other outcome => if other = id then some outcome else none
  | _ => none

/-- The calls of the handler, with the context they were given. -/
def calls (log : List (SchedulerEvent C)) : List (String × C) :=
  log.filterMap SchedulerEvent.call

def startedIds (log : List (SchedulerEvent C)) : List String :=
  (calls log).map Prod.fst

def endedIds (log : List (SchedulerEvent C)) : List String :=
  log.filterMap SchedulerEvent.endedId

/-- What `onNodeSettled` was told of a node. -/
def reportsOf (id : String) (log : List (SchedulerEvent C)) : List (GraphExecutionOutcome C) :=
  log.filterMap (SchedulerEvent.reportOf id)

/-- The nodes reported successful, in their order. -/
def reportedSuccesses (log : List (SchedulerEvent C)) : List String :=
  log.filterMap fun event =>
    match event with
    | .reported id outcome => if outcome.status = .success then some id else none
    | _ => none

/-- The calls of the handler that have not ended. -/
def handlersRunning (log : List (SchedulerEvent C)) : List (String × C) :=
  (calls log).filter fun call => call.1 ∉ endedIds log

variable {log : List (SchedulerEvent C)} {id other : String} {context : C} {end_ : HandlerEnd C}
  {outcome : GraphExecutionOutcome C}

@[simp] theorem startedIds_started :
    startedIds (log ++ [.started id context]) = startedIds log ++ [id] := by
  simp [startedIds, calls, SchedulerEvent.call]

@[simp] theorem startedIds_ended : startedIds (log ++ [.ended id end_]) = startedIds log := by
  simp [startedIds, calls, SchedulerEvent.call]

@[simp] theorem startedIds_reported :
    startedIds (log ++ [.reported id outcome]) = startedIds log := by
  simp [startedIds, calls, SchedulerEvent.call]

@[simp] theorem endedIds_started : endedIds (log ++ [.started id context]) = endedIds log := by
  simp [endedIds, SchedulerEvent.endedId]

@[simp] theorem endedIds_ended : endedIds (log ++ [.ended id end_]) = endedIds log ++ [id] := by
  simp [endedIds, SchedulerEvent.endedId]

@[simp] theorem endedIds_reported : endedIds (log ++ [.reported id outcome]) = endedIds log := by
  simp [endedIds, SchedulerEvent.endedId]

@[simp] theorem reportsOf_started :
    reportsOf other (log ++ [.started id context]) = reportsOf other log := by
  simp [reportsOf, SchedulerEvent.reportOf]

@[simp] theorem reportsOf_ended :
    reportsOf other (log ++ [.ended id end_]) = reportsOf other log := by
  simp [reportsOf, SchedulerEvent.reportOf]

theorem reportsOf_reported :
    reportsOf other (log ++ [.reported id outcome]) =
      reportsOf other log ++ if id = other then [outcome] else [] := by
  by_cases h : id = other <;> simp [reportsOf, SchedulerEvent.reportOf, h]

theorem mem_calls : (id, context) ∈ calls log ↔ .started id context ∈ log := by
  simp only [calls, List.mem_filterMap]
  constructor
  · rintro ⟨event, hmem, h⟩
    cases event with
    | started other context =>
        obtain ⟨rfl, rfl⟩ := Prod.mk.inj (Option.some.inj h)
        exact hmem
    | ended _ _ => cases h
    | reported _ _ => cases h
  · intro hmem
    exact ⟨_, hmem, rfl⟩

theorem mem_startedIds : id ∈ startedIds log ↔ ∃ context, .started id context ∈ log := by
  simp only [startedIds, List.mem_map, Prod.exists, mem_calls, exists_and_right, exists_eq_right]

theorem mem_reportsOf : outcome ∈ reportsOf id log ↔ .reported id outcome ∈ log := by
  simp only [reportsOf, List.mem_filterMap]
  constructor
  · rintro ⟨event, hmem, h⟩
    cases event with
    | reported other outcome' =>
        obtain ⟨rfl, houtcome⟩ := Option.ite_none_right_eq_some.mp h
        obtain rfl := Option.some.inj houtcome
        exact hmem
    | started _ _ => cases h
    | ended _ _ => cases h
  · intro hmem
    exact ⟨_, hmem, if_pos rfl⟩

theorem mem_reportedSuccesses :
    id ∈ reportedSuccesses log ↔ ∃ outcome, .reported id outcome ∈ log ∧ outcome.status = .success := by
  simp only [reportedSuccesses, List.mem_filterMap]
  constructor
  · rintro ⟨event, hmem, h⟩
    cases event with
    | reported other outcome =>
        obtain ⟨hsuccess, hid⟩ := Option.ite_none_right_eq_some.mp h
        obtain rfl := Option.some.inj hid
        exact ⟨outcome, hmem, hsuccess⟩
    | started _ _ => cases h
    | ended _ _ => cases h
  · rintro ⟨outcome, hmem, hsuccess⟩
    exact ⟨_, hmem, if_pos hsuccess⟩

@[simp] theorem reportedSuccesses_started :
    reportedSuccesses (log ++ [.started id context]) = reportedSuccesses log := by
  simp [reportedSuccesses]

@[simp] theorem reportedSuccesses_ended :
    reportedSuccesses (log ++ [.ended id end_]) = reportedSuccesses log := by
  simp [reportedSuccesses]

theorem reportedSuccesses_reported :
    reportedSuccesses (log ++ [.reported id outcome]) =
      reportedSuccesses log ++ if outcome.status = .success then [id] else [] := by
  by_cases h : outcome.status = .success <;> simp [reportedSuccesses, h]

theorem mem_handlersRunning :
    (id, context) ∈ handlersRunning log ↔ .started id context ∈ log ∧ id ∉ endedIds log := by
  simp only [handlersRunning, List.mem_filter, mem_calls, decide_eq_true_eq]

theorem handlersRunning_sublist : ((handlersRunning log).map Prod.fst).Sublist (startedIds log) :=
  List.filter_sublist.map _

end Events

variable {options : GraphExecutionOptions V C} {nodes : List (GraphNode V)} {s : Scheduler C}
  {id : String} {outcome : GraphExecutionOutcome C}

section Tables

/-- The node has not been entered, and may never be. -/
def Scheduler.held (s : Scheduler C) (id : String) : Prop :=
  s.statuses id = some .pending ∨ s.statuses id = some (.terminal .skipped)

/-- What holds of an event with respect to the log before it: a handler is started when the
dependencies of its node have been reported as successes. -/
def Admissible (nodes : List (GraphNode V)) (log : List (SchedulerEvent C)) :
    SchedulerEvent C → Prop
  | .started id _ => ∀ node ∈ nodes, node.id = id → ∀ d ∈ node.dependencies,
      ∃ outcome, .reported d outcome ∈ log ∧ outcome.status = .success
  | _ => True

/-- The statuses, the outcomes and the log agree. -/
structure Tables (options : GraphExecutionOptions V C) (nodes : List (GraphNode V))
    (s : Scheduler C) : Prop where
  known : ∀ node ∈ nodes, s.statuses node.id ≠ none
  outcome : ∀ id status, s.statuses id = some (.terminal status) ↔
    ∃ o, s.outcomes id = some o ∧ o.status = status
  reports : ∀ id, reportsOf id s.log = (s.outcomes id).toList
  once : (startedIds s.log).Nodup
  pending : ∀ id ∈ startedIds s.log, s.statuses id ≠ some .pending
  order : Preceded (Admissible nodes) s.log
  ready : ∀ node ∈ nodes, node.id ∉ options.precompletedNodeIds →
    s.held node.id ∨ ∀ d ∈ node.dependencies, s.statuses d = some (.terminal .success)

@[simp] theorem settleNode_statuses (s : Scheduler C) (id : String)
    (outcome : GraphExecutionOutcome C) (other : String) :
    (s.settleNode id outcome).statuses other =
      if other = id then some (.terminal outcome.status) else s.statuses other := rfl

@[simp] theorem settleNode_outcomes (s : Scheduler C) (id : String)
    (outcome : GraphExecutionOutcome C) (other : String) :
    (s.settleNode id outcome).outcomes other =
      if other = id then some outcome else s.outcomes other := rfl

@[simp] theorem settleNode_log (s : Scheduler C) (id : String)
    (outcome : GraphExecutionOutcome C) :
    (s.settleNode id outcome).log = s.log ++ [.reported id outcome] := rfl

@[simp] theorem dispatch_statuses (s : Scheduler C) (id : String) (claims : List GraphClaim)
    (other : String) :
    (s.dispatch id claims).statuses other =
      if other = id then some .running else s.statuses other := rfl

@[simp] theorem dispatch_log (s : Scheduler C) (id : String) (claims : List GraphClaim) :
    (s.dispatch id claims).log = s.log ++ [.started id s.context] := rfl

/-- A node that is pending or running has no outcome yet. -/
theorem Tables.outcomes_none (h : Tables options nodes s)
    (hopen : s.statuses id = some .pending ∨ s.statuses id = some .running) :
    s.outcomes id = none := by
  cases ho : s.outcomes id with
  | none => rfl
  | some o =>
      have hterminal := (h.outcome id o.status).mpr ⟨o, ho, rfl⟩
      rw [hterminal] at hopen
      simp at hopen

/-- An open node is settled; one that was not restored is skipped or has its dependencies. -/
theorem Tables.settle (h : Tables options nodes s)
    (hopen : s.statuses id = some .pending ∨ s.statuses id = some .running)
    (hready : ∀ node ∈ nodes, node.id = id → id ∉ options.precompletedNodeIds →
      outcome.status = .skipped ∨ ∀ d ∈ node.dependencies, s.statuses d = some (.terminal .success)) :
    Tables options nodes (s.settleNode id outcome) where
  known node hnode := by
    rw [settleNode_statuses]
    split
    · simp
    · exact h.known node hnode
  outcome other status := by
    rw [settleNode_statuses, settleNode_outcomes]
    split
    · simp
    · exact h.outcome other status
  reports other := by
    rw [settleNode_log, reportsOf_reported, settleNode_outcomes, h.reports]
    by_cases hid : other = id
    · subst hid
      simp [h.outcomes_none hopen]
    · simp [hid, Ne.symm hid]
  once := by
    rw [settleNode_log, startedIds_reported]
    exact h.once
  pending other hother := by
    rw [settleNode_log, startedIds_reported] at hother
    rw [settleNode_statuses]
    split
    · simp
    · exact h.pending other hother
  order := h.order.snoc trivial
  ready node hnode hfresh := by
    have hkeeps : ∀ d, s.statuses d = some (.terminal .success) →
        (s.settleNode id outcome).statuses d = some (.terminal .success) := by
      intro d hd
      rw [settleNode_statuses, if_neg, hd]
      rintro rfl
      rw [hd] at hopen
      simp at hopen
    by_cases hid : node.id = id
    · rcases hready node hnode hid (hid ▸ hfresh) with hskipped | hdeps
      · exact .inl (.inr (by rw [settleNode_statuses, if_pos hid, hskipped]))
      · exact .inr fun d hd => hkeeps d (hdeps d hd)
    · rcases h.ready node hnode hfresh with hheld | hdeps
      · refine .inl ?_
        simp only [Scheduler.held, settleNode_statuses, if_neg hid]
        exact hheld
      · exact .inr fun d hd => hkeeps d (hdeps d hd)

/-- A pending node is started once its dependencies are successes. -/
theorem Tables.dispatch (h : Tables options nodes s) {claims : List GraphClaim}
    (hpending : s.statuses id = some .pending)
    (hready : ∀ node ∈ nodes, node.id = id → ∀ d ∈ node.dependencies,
      s.statuses d = some (.terminal .success)) :
    Tables options nodes (s.dispatch id claims) where
  known node hnode := by
    rw [dispatch_statuses]
    split
    · simp
    · exact h.known node hnode
  outcome other status := by
    rw [dispatch_statuses]
    split
    · rename_i hid
      subst hid
      have hnone := h.outcomes_none (.inl hpending)
      simp [Scheduler.dispatch, Scheduler.setStatus, hnone]
    · exact h.outcome other status
  reports other := by
    rw [dispatch_log, reportsOf_started]
    exact h.reports other
  once := by
    rw [dispatch_log, startedIds_started]
    refine h.once.append (List.nodup_singleton _) ?_
    rw [List.disjoint_singleton]
    exact fun hmem => h.pending id hmem hpending
  pending other hother := by
    rw [dispatch_log, startedIds_started, List.mem_append, List.mem_singleton] at hother
    rw [dispatch_statuses]
    split
    · simp
    · rename_i hid
      exact h.pending other (hother.resolve_right hid)
  order := by
    refine h.order.snoc fun node hnode hid d hd => ?_
    obtain ⟨o, ho, hsuccess⟩ := (h.outcome d .success).mp (hready node hnode hid d hd)
    refine ⟨o, ?_, hsuccess⟩
    rw [← mem_reportsOf, h.reports, ho]
    exact List.mem_singleton_self o
  ready node hnode hfresh := by
    have hkeeps : ∀ d, s.statuses d = some (.terminal .success) →
        (s.dispatch id claims).statuses d = some (.terminal .success) := by
      intro d hd
      rw [dispatch_statuses, if_neg, hd]
      rintro rfl
      rw [hd] at hpending
      cases hpending
    by_cases hid : node.id = id
    · exact .inr fun d hd => hkeeps d (hready node hnode hid d hd)
    · rcases h.ready node hnode hfresh with hheld | hdeps
      · refine .inl ?_
        simp only [Scheduler.held, dispatch_statuses, if_neg hid]
        exact hheld
      · exact .inr fun d hd => hkeeps d (hdeps d hd)

theorem Tables.endSlot (h : Tables options nodes s) {end_ : HandlerEnd C} :
    Tables options nodes (s.endSlot id end_) where
  known := h.known
  outcome := h.outcome
  reports other := reportsOf_ended.trans (h.reports other)
  once := by
    rw [Scheduler.endSlot, startedIds_ended]
    exact h.once
  pending other hother := by
    rw [Scheduler.endSlot, startedIds_ended] at hother
    exact h.pending other hother
  order := h.order.snoc trivial
  ready := h.ready

end Tables

section Slots

/-- No claim of the one slot conflicts with a claim of the other. -/
def Apart (a b : Slot C) : Prop :=
  ∀ x ∈ a.claims, ∀ y ∈ b.claims, graphClaimsConflict x y = false

theorem Apart.symm {a b : Slot C} (h : Apart a b) : Apart b a :=
  fun x hx y hy => (graphClaimsConflict_comm x y).trans (h y hy x hx)

/-- The slots are the running nodes, and hold the claims in use. -/
structure Slots (options : GraphExecutionOptions V C) (nodes : List (GraphNode V))
    (s : Scheduler C) : Prop where
  slots : (s.active.map (·.id)).Nodup
  running : ∀ id, s.statuses id = some .running ↔ id ∈ s.active.map (·.id)
  ended : ∀ slot ∈ s.active, slot.ended.isSome = true → slot.id ∈ endedIds s.log
  granted : ∀ id context, .started id context ∈ s.log → id ∉ endedIds s.log →
    ∃ slot ∈ s.active, slot.id = id ∧ ∃ node ∈ nodes, node.id = id ∧
      slot.claims = options.resourceClaims node context
  inUse : s.claimsInUse.Perm (s.active.flatMap (·.claims))
  apart : s.active.Pairwise Apart
  bounded : ∀ limit, options.maxConcurrency.limit = some limit → s.active.length ≤ limit

theorem mem_log_of_ended {log : List (SchedulerEvent C)} {e : SchedulerEvent C} {context : C}
    (h : .started id context ∈ log ++ [e]) (he : e.call = none) : .started id context ∈ log := by
  rcases List.mem_append.mp h with hmem | hmem
  · exact hmem
  · rw [List.mem_singleton] at hmem
    subst hmem
    cases he

theorem Slots.settle (h : Slots options nodes s) (hpending : s.statuses id = some .pending) :
    Slots options nodes (s.settleNode id outcome) where
  slots := h.slots
  running other := by
    rw [settleNode_statuses]
    split
    · rename_i hid
      subst hid
      have hnot : other ∉ s.active.map (·.id) := by
        rw [← h.running, hpending]
        simp
      exact iff_of_false (by simp) hnot
    · exact h.running other
  ended slot hslot hended := by
    rw [settleNode_log, endedIds_reported]
    exact h.ended slot hslot hended
  granted other context hstarted hended := by
    rw [settleNode_log, endedIds_reported] at hended
    exact h.granted other context (mem_log_of_ended hstarted rfl) hended
  inUse := h.inUse
  apart := h.apart
  bounded := h.bounded

theorem Slots.dispatch (h : Slots options nodes s) {node : GraphNode V} (hnode : node ∈ nodes)
    (hpending : s.statuses node.id = some .pending)
    (hroom : ∀ limit, options.maxConcurrency.limit = some limit → s.active.length < limit)
    (hclaim : s.canClaim (options.resourceClaims node s.context) = true) :
    Slots options nodes (s.dispatch node.id (options.resourceClaims node s.context)) where
  slots := by
    simp only [Scheduler.dispatch, List.map_append, List.map_singleton]
    refine h.slots.append (List.nodup_singleton _) ?_
    rw [List.disjoint_singleton, ← h.running, hpending]
    simp
  running other := by
    rw [dispatch_statuses]
    simp only [Scheduler.dispatch, Scheduler.setStatus, List.map_append, List.map_singleton,
      List.mem_append, List.mem_singleton, ← h.running]
    split
    · rename_i hid
      simp [hid]
    · rename_i hid
      simp [hid]
  ended slot hslot hended := by
    rw [dispatch_log, endedIds_started]
    rcases List.mem_append.mp hslot with hold | hnew
    · exact h.ended slot hold hended
    · rw [List.mem_singleton.mp hnew] at hended
      cases hended
  granted other context hstarted hended := by
    rw [dispatch_log, endedIds_started] at hended
    rw [dispatch_log, List.mem_append, List.mem_singleton] at hstarted
    rcases hstarted with hold | hnew
    · obtain ⟨slot, hslot, hgrant⟩ := h.granted other context hold hended
      exact ⟨slot, List.mem_append_left _ hslot, hgrant⟩
    · cases hnew
      exact ⟨_, List.mem_append_right _ (List.mem_singleton_self _), rfl, node, hnode, rfl, rfl⟩
  inUse := by
    simp only [Scheduler.dispatch, List.flatMap_append, List.flatMap_singleton]
    exact h.inUse.append_right _
  apart := by
    refine List.pairwise_append.mpr ⟨h.apart, List.pairwise_singleton _ _, fun a ha b hb => ?_⟩
    rw [List.mem_singleton.mp hb]
    refine Apart.symm fun x hx y hy => ?_
    have hy' : y ∈ s.claimsInUse := h.inUse.mem_iff.mpr (List.mem_flatMap.mpr ⟨a, ha, hy⟩)
    simpa using List.all_eq_true.mp (List.all_eq_true.mp hclaim x hx) y hy'
  bounded limit hlimit := by
    simp only [Scheduler.dispatch, List.length_append, List.length_singleton]
    exact hroom limit hlimit

theorem Slots.endSlot (h : Slots options nodes s) {end_ : HandlerEnd C} :
    Slots options nodes (s.endSlot id end_) := by
  have hids : (s.endSlot id end_).active.map (·.id) = s.active.map (·.id) := by
    simp only [Scheduler.endSlot, List.map_map]
    refine List.map_congr_left fun slot _ => ?_
    simp only [Function.comp_apply]
    split <;> rfl
  have hclaims : ∀ slot : Slot C,
      (if slot.id = id then { slot with ended := some end_ } else slot).claims = slot.claims := by
    intro slot
    split <;> rfl
  constructor
  · rw [hids]
    exact h.slots
  · intro other
    rw [hids]
    exact h.running other
  · intro slot hslot hended
    rw [Scheduler.endSlot, endedIds_ended, List.mem_append, List.mem_singleton]
    obtain ⟨old, hold, rfl⟩ := List.mem_map.mp hslot
    split at hended
    · rename_i hid
      rw [if_pos hid]
      exact .inr hid
    · rename_i hid
      rw [if_neg hid]
      exact .inl (h.ended old hold hended)
  · intro other context hstarted hended
    rw [Scheduler.endSlot, endedIds_ended, List.mem_append, not_or] at hended
    obtain ⟨slot, hslot, hid, hgrant⟩ :=
      h.granted other context (mem_log_of_ended hstarted rfl) hended.1
    refine ⟨_, List.mem_map_of_mem hslot, ?_, ?_⟩
    · split <;> exact hid
    · rw [hclaims]
      exact hgrant
  · refine h.inUse.trans (List.Perm.of_eq ?_)
    simp only [Scheduler.endSlot, List.flatMap_map, hclaims]
  · simp only [Scheduler.endSlot, List.pairwise_map, Apart, hclaims]
    exact h.apart
  · intro limit hlimit
    simp only [Scheduler.endSlot, List.length_map]
    exact h.bounded limit hlimit

theorem perm_cons_filter {slots : List (Slot C)} (hnodup : (slots.map (·.id)).Nodup)
    {slot : Slot C} (h : slot ∈ slots) :
    slots.Perm (slot :: slots.filter fun other => other.id ≠ slot.id) := by
  induction slots with
  | nil => cases h
  | cons first rest ih =>
      rw [List.map_cons, List.nodup_cons] at hnodup
      rcases List.mem_cons.mp h with rfl | hrest
      · have hkeep : (rest.filter fun other => other.id ≠ slot.id) = rest := by
          rw [List.filter_eq_self]
          intro other hother
          refine decide_eq_true fun hid => hnodup.1 ?_
          rw [← hid]
          exact List.mem_map_of_mem hother
        rw [List.filter_cons_of_neg (by simp), hkeep]
      · have hne : first.id ≠ slot.id := by
          intro hid
          rw [hid] at hnodup
          exact hnodup.1 (List.mem_map_of_mem hrest)
        rw [List.filter_cons_of_pos (by simpa using hne)]
        exact ((ih hnodup.2 hrest).cons first).trans (.swap _ _ _)

theorem perm_foldl_erase {α : Type} [DecidableEq α] {held inUse rest : List α}
    (h : inUse.Perm (held ++ rest)) : (held.foldl List.erase inUse).Perm rest := by
  induction held generalizing inUse with
  | nil => exact h
  | cons a held ih =>
      refine ih ?_
      have herase := h.erase a
      rwa [List.cons_append, List.erase_cons_head] at herase

/-- A slot is given back, and its node settled. -/
theorem Slots.complete (h : Slots options nodes s) {slot : Slot C} (hslot : slot ∈ s.active)
    (hended : slot.id ∈ endedIds s.log) :
    Slots options nodes ({ s with
      active := s.active.filter fun other => other.id ≠ slot.id
      claimsInUse := slot.claims.foldl List.erase s.claimsInUse }.settleNode slot.id outcome) where
  slots := h.slots.sublist (List.filter_sublist.map _)
  running other := by
    rw [settleNode_statuses]
    split
    · rename_i hid
      simp [hid, Scheduler.settleNode, Scheduler.setStatus]
    · rename_i hid
      rw [h.running]
      simp only [Scheduler.settleNode, Scheduler.setStatus, List.mem_map, List.mem_filter,
        decide_eq_true_eq]
      constructor
      · rintro ⟨a, ha, rfl⟩
        exact ⟨a, ⟨ha, hid⟩, rfl⟩
      · rintro ⟨a, ⟨ha, -⟩, rfl⟩
        exact ⟨a, ha, rfl⟩
  ended a ha hisSome := by
    rw [settleNode_log, endedIds_reported]
    exact h.ended a (List.mem_filter.mp ha).1 hisSome
  granted other context hstarted hnot := by
    rw [settleNode_log, endedIds_reported] at hnot
    obtain ⟨a, ha, hid, hgrant⟩ := h.granted other context (mem_log_of_ended hstarted rfl) hnot
    refine ⟨a, List.mem_filter.mpr ⟨ha, decide_eq_true fun hsame => hnot ?_⟩, hid, hgrant⟩
    rw [← hid, hsame]
    exact hended
  inUse := by
    refine perm_foldl_erase (h.inUse.trans ?_)
    exact (perm_cons_filter h.slots hslot).flatMap_right _
  apart := h.apart.sublist List.filter_sublist
  bounded limit hlimit := (List.length_filter_le _ _).trans (h.bounded limit hlimit)

end Slots

section Steps

structure SchedulerInv (options : GraphExecutionOptions V C) (nodes : List (GraphNode V))
    (s : Scheduler C) : Prop where
  tables : Tables options nodes s
  slots : Slots options nodes s

/-- The context and the place of the loop are not in the invariant. -/
theorem SchedulerInv.congr (h : SchedulerInv options nodes s) (context : C) (phase : LoopPhase) :
    SchedulerInv options nodes { s with context, phase } where
  tables := ⟨h.tables.known, h.tables.outcome, h.tables.reports, h.tables.once, h.tables.pending,
    h.tables.order, h.tables.ready⟩
  slots := ⟨h.slots.slots, h.slots.running, h.slots.ended, h.slots.granted, h.slots.inUse,
    h.slots.apart, h.slots.bounded⟩

theorem isTerminal_iff : s.isTerminal id = true ↔ ∃ status, s.statuses id = some (.terminal status) := by
  simp only [Scheduler.isTerminal, Bool.or_eq_true, decide_eq_true_eq]
  constructor
  · rintro ((h | h) | h) <;> exact ⟨_, h⟩
  · rintro ⟨status, h⟩
    cases status
    · exact .inl (.inl h)
    · exact .inl (.inr h)
    · exact .inr h

/-- What a pass does with a node: it is skipped, or started after its dependencies have succeeded,
below the limit and with claims that are free. -/
theorem dispatchNode_cases {s' : Scheduler C} {node : GraphNode V}
    (h : dispatchNode options s node = some s') :
    s.statuses node.id = some .pending ∧
      ((∃ outcome, outcome.status = .skipped ∧ s' = s.settleNode node.id outcome) ∨
        (∀ limit, options.maxConcurrency.limit = some limit → s.active.length < limit) ∧
        (∀ d ∈ node.dependencies, s.statuses d = some (.terminal .success)) ∧
        s.canClaim (options.resourceClaims node s.context) = true ∧
        s' = s.dispatch node.id (options.resourceClaims node s.context)) := by
  unfold dispatchNode at h
  split at h
  · cases h
  rename_i hopen
  rw [not_or, not_not, Bool.not_eq_true, Option.any_eq_false] at hopen
  refine ⟨hopen.1, ?_⟩
  split at h
  · cases h
  rename_i hterminal
  rw [Bool.not_eq_false, List.all_eq_true] at hterminal
  split at h
  · exact .inl ⟨_, rfl, (Option.some.inj h).symm⟩
  rename_i hblocked
  rw [Bool.not_eq_true, List.any_eq_false] at hblocked
  split at h
  · exact .inl ⟨_, rfl, (Option.some.inj h).symm⟩
  obtain ⟨hclaim, h⟩ := Option.ite_none_right_eq_some.mp h
  refine .inr ⟨fun limit hlimit => ?_, fun d hd => ?_, hclaim, (Option.some.inj h).symm⟩
  · simpa using hopen.2 limit hlimit
  · obtain ⟨status, hstatus⟩ := isTerminal_iff.mp (hterminal d hd)
    have hnot := hblocked d hd
    cases status with
    | success => exact hstatus
    | failed => simp [hstatus] at hnot
    | skipped => simp [hstatus] at hnot

variable (hids : (nodes.map (·.id)).Nodup)

include hids in
theorem eq_of_id {a b : GraphNode V} (ha : a ∈ nodes) (hb : b ∈ nodes) (h : a.id = b.id) : a = b :=
  List.inj_on_of_nodup_map hids ha hb h

include hids in
theorem SchedulerInv.dispatchNode (h : SchedulerInv options nodes s) {s' : Scheduler C}
    {node : GraphNode V} (hnode : node ∈ nodes) (hdispatch : dispatchNode options s node = some s') :
    SchedulerInv options nodes s' := by
  obtain ⟨hpending, ⟨outcome, hskipped, rfl⟩ | ⟨hroom, hdeps, hclaim, rfl⟩⟩ :=
    dispatchNode_cases hdispatch
  · exact ⟨h.tables.settle (.inl hpending) fun _ _ _ _ => .inl hskipped, h.slots.settle hpending⟩
  · refine ⟨h.tables.dispatch hpending fun other hother hid => ?_,
      h.slots.dispatch hnode hpending hroom hclaim⟩
    rw [eq_of_id hids hother hnode hid]
    exact hdeps

theorem dispatchNode_phase {s' : Scheduler C} {node : GraphNode V}
    (h : dispatchNode options s node = some s') : s'.phase = s.phase := by
  obtain ⟨-, ⟨outcome, -, rfl⟩ | ⟨-, -, -, rfl⟩⟩ := dispatchNode_cases h <;> rfl

/-- What the visits of a pass keep, the pass keeps. -/
theorem dispatchPass_induction {P : Scheduler C → Prop} (hs : P s)
    (hstep : ∀ node ∈ nodes, ∀ s s', P s → Graph.dispatchNode options s node = some s' → P s') :
    P (dispatchPass options nodes s).1 := by
  unfold dispatchPass
  generalize false = progressed
  induction nodes generalizing s progressed with
  | nil => exact hs
  | cons node rest ih =>
      rw [List.foldl_cons]
      have hrest : ∀ other ∈ rest, ∀ s s', P s →
          Graph.dispatchNode options s other = some s' → P s' :=
        fun other hother => hstep other (List.mem_cons_of_mem node hother)
      cases hnode : Graph.dispatchNode options s node with
      | none =>
          simp only [hnode]
          exact ih hs hrest progressed
      | some s' =>
          simp only [hnode]
          exact ih (hstep node List.mem_cons_self s s' hs hnode) hrest true

/-- One round of the loop: nothing is left, or a pass is made and the loop goes on as its slots
and its progress say. -/
theorem schedule_cases (options : GraphExecutionOptions V C) (nodes : List (GraphNode V))
    (s : Scheduler C) :
    (hasUnsettled nodes s = false ∧ schedule options nodes s = { s with phase := .returned }) ∨
      ∃ phase, schedule options nodes s = { (dispatchPass options nodes s).1 with phase } ∧
        (phase = .racing ∧ (dispatchPass options nodes s).1.active ≠ [] ∨
          (dispatchPass options nodes s).1.active = [] ∧
            (phase = (dispatchPass options nodes s).1.phase ∨
              phase = .deadlocked ∧ (dispatchPass options nodes s).2 = false)) := by
  unfold schedule
  dsimp only
  split
  · right
    split
    · rename_i hactive
      exact ⟨_, rfl, .inl ⟨rfl, hactive⟩⟩
    · rename_i hactive
      rw [not_not] at hactive
      split
      · exact ⟨_, rfl, .inr ⟨hactive, .inl rfl⟩⟩
      · rename_i hprogress
        exact ⟨_, rfl, .inr ⟨hactive, .inr ⟨rfl, by simpa using hprogress⟩⟩⟩
  · rename_i hunsettled
    exact .inl ⟨by simpa using hunsettled, rfl⟩

theorem finish_cases {s' : Scheduler C} {end_ : HandlerEnd C}
    (h : executeGraphStep options nodes s (.finish id end_) = some s') :
    (∃ slot ∈ s.active, slot.id = id ∧ slot.ended = none) ∧ s' = s.endSlot id end_ := by
  simp only [executeGraphStep, Scheduler.slot] at h
  split at h
  · rename_i slot hslot
    obtain ⟨hopen, h⟩ := Option.ite_none_right_eq_some.mp h
    have hid := List.find?_some hslot
    exact ⟨⟨slot, List.mem_of_find?_eq_some hslot, by simpa using hid, by simpa using hopen⟩,
      (Option.some.inj h).symm⟩
  · cases h

/-- What the race does with a slot that has ended. -/
theorem race_cases {s' : Scheduler C}
    (h : executeGraphStep options nodes s (.race id) = some s') :
    s.phase = .racing ∧ ∃ slot ∈ s.active, slot.id = id ∧ ∃ end_, slot.ended = some end_ ∧
      ((∃ outcome, end_.outcome = some outcome ∧ s' = completeNode options nodes s slot outcome) ∨
        end_ = .suspended ∧ s' = { s with phase := .suspended }) := by
  simp only [executeGraphStep, Scheduler.slot] at h
  obtain ⟨hphase, h⟩ := Option.ite_none_right_eq_some.mp h
  obtain ⟨slot, hslot, h⟩ := Option.bind_eq_some_iff.mp h
  obtain ⟨end_, hend, h⟩ := Option.map_eq_some_iff.mp h
  have hid := List.find?_some hslot
  refine ⟨hphase, slot, List.mem_of_find?_eq_some hslot, by simpa using hid, end_, hend, ?_⟩
  cases end_ with
  | returned outcome => exact .inl ⟨outcome, rfl, h.symm⟩
  | threw message => exact .inl ⟨_, rfl, h.symm⟩
  | suspended => exact .inr ⟨rfl, h.symm⟩

/-- A completion settles the node of its slot, whatever becomes of the context. -/
theorem completeNode_eq (options : GraphExecutionOptions V C) (nodes : List (GraphNode V))
    (s : Scheduler C) (slot : Slot C) (outcome : GraphExecutionOutcome C) :
    ∃ context, completeNode options nodes s slot outcome = { ({ s with
      active := s.active.filter fun other => other.id ≠ slot.id
      claimsInUse := slot.claims.foldl List.erase s.claimsInUse }.settleNode slot.id outcome) with
        context, phase := .looping } := by
  unfold completeNode
  dsimp only
  split
  · exact ⟨_, rfl⟩
  · exact ⟨s.context, rfl⟩

theorem SchedulerInv.completeNode (h : SchedulerInv options nodes s) {slot : Slot C}
    (hslot : slot ∈ s.active) (hended : slot.ended.isSome = true) :
    SchedulerInv options nodes (completeNode options nodes s slot outcome) := by
  obtain ⟨context, heq⟩ := completeNode_eq options nodes s slot outcome
  rw [heq]
  have hrunning : s.statuses slot.id = some .running :=
    (h.slots.running slot.id).mpr (List.mem_map_of_mem hslot)
  refine SchedulerInv.congr ⟨?_, h.slots.complete hslot (h.slots.ended slot hslot hended)⟩ _ _
  refine Tables.settle (s := { s with
    active := s.active.filter fun other => other.id ≠ slot.id
    claimsInUse := slot.claims.foldl List.erase s.claimsInUse }) ?_ (.inr hrunning) ?_
  · exact ⟨h.tables.known, h.tables.outcome, h.tables.reports, h.tables.once, h.tables.pending,
      h.tables.order, h.tables.ready⟩
  · intro node hnode hid hfresh
    refine .inr ((h.tables.ready node hnode (hid ▸ hfresh)).resolve_left fun hheld => ?_)
    rw [Scheduler.held, hid, hrunning] at hheld
    simp at hheld

include hids in
theorem SchedulerInv.step (h : SchedulerInv options nodes s) {s' : Scheduler C}
    {a : SchedulerAction C} (hstep : executeGraphStep options nodes s a = some s') :
    SchedulerInv options nodes s' := by
  cases a with
  | schedule =>
      obtain ⟨-, hstep⟩ := Option.ite_none_right_eq_some.mp hstep
      obtain rfl := Option.some.inj hstep
      rcases schedule_cases options nodes s with ⟨-, heq⟩ | ⟨phase, heq, -⟩
      · rw [heq]
        exact h.congr _ _
      · rw [heq]
        refine SchedulerInv.congr ?_ _ phase
        exact dispatchPass_induction h fun node hnode t t' ht ht' => ht.dispatchNode hids hnode ht'
  | finish id end_ =>
      obtain ⟨-, rfl⟩ := finish_cases hstep
      exact ⟨h.tables.endSlot, h.slots.endSlot⟩
  | race id =>
      obtain ⟨-, slot, hslot, -, end_, hend, ⟨outcome, -, rfl⟩ | ⟨-, rfl⟩⟩ := race_cases hstep
      · exact h.completeNode hslot (by rw [hend]; rfl)
      · exact h.congr _ _

/-- A property of the statuses, the outcomes and the log: what settling a node, starting a node and
the end of a handler keep, every step keeps. -/
theorem executeGraphStep_induction {P : Scheduler C → Prop}
    (hrest : ∀ s active claimsInUse context phase, P s →
      P { s with active, claimsInUse, context, phase })
    (hsettle : ∀ s id outcome, P s → P (s.settleNode id outcome))
    (hdispatch : ∀ s, ∀ node ∈ nodes, ∀ claims, s.statuses node.id = some .pending → P s →
      P (s.dispatch node.id claims))
    (hend : ∀ s id end_, P s → P { s with log := s.log ++ [.ended id end_] }) (hs : P s)
    {s' : Scheduler C} {a : SchedulerAction C}
    (hstep : executeGraphStep options nodes s a = some s') : P s' := by
  cases a with
  | schedule =>
      obtain ⟨-, hstep⟩ := Option.ite_none_right_eq_some.mp hstep
      obtain rfl := Option.some.inj hstep
      rcases schedule_cases options nodes s with ⟨-, heq⟩ | ⟨phase, heq, -⟩
      · rw [heq]
        exact hrest s s.active s.claimsInUse s.context .returned hs
      · rw [heq]
        refine hrest _ _ _ _ phase (dispatchPass_induction hs fun node hnode t t' ht ht' => ?_)
        obtain ⟨hpending, ⟨outcome, -, rfl⟩ | ⟨-, -, -, rfl⟩⟩ := dispatchNode_cases ht'
        · exact hsettle t node.id outcome ht
        · exact hdispatch t node hnode _ hpending ht
  | finish id end_ =>
      obtain ⟨-, rfl⟩ := finish_cases hstep
      exact hrest _ _ s.claimsInUse s.context s.phase (hend s id end_ hs)
  | race id =>
      obtain ⟨-, slot, -, -, end_, -, ⟨outcome, -, rfl⟩ | ⟨-, rfl⟩⟩ := race_cases hstep
      · obtain ⟨context, heq⟩ := completeNode_eq options nodes s slot outcome
        rw [heq]
        refine hrest _ _ _ context .looping (hsettle _ slot.id outcome ?_)
        exact hrest s _ _ s.context s.phase hs
      · exact hrest s s.active s.claimsInUse s.context .suspended hs

end Steps

section Opening

/-- Restoring a node settles it, or does nothing. -/
theorem precomplete_induction {P : Scheduler C → Prop} (hs : P s)
    (hsettle : ∀ outcome context, s.statuses id = some .pending →
      P { s.settleNode id outcome with context }) : P (precomplete options nodes s id) := by
  unfold precomplete
  split
  · exact hs
  · split
    · exact hsettle _ _ ‹_›
    · exact hs

/-- Skipping a node settles it, or does nothing. -/
theorem preskip_induction {P : Scheduler C → Prop} (hs : P s)
    (hsettle : ∀ outcome, outcome.status = .skipped → s.statuses id = some .pending →
      P (s.settleNode id outcome)) : P (preskip s id) := by
  unfold preskip
  split
  · exact hsettle _ rfl ‹_›
  · exact hs

theorem SchedulerInv.start (options : GraphExecutionOptions V C) (nodes : List (GraphNode V)) :
    SchedulerInv options nodes {
      context := options.initialContext
      statuses := fun id => if id ∈ nodes.map (·.id) then some .pending else none } where
  tables := {
    known := fun node hnode => by simp [List.mem_map_of_mem hnode]
    outcome := fun id status => by
      constructor
      · intro h
        exact absurd (Option.ite_none_right_eq_some.mp h).2 (by simp)
      · rintro ⟨o, ho, -⟩
        cases ho
    reports := fun id => rfl
    once := List.nodup_nil
    pending := fun id hid => nomatch hid
    order := Preceded.nil
    ready := fun node hnode _ => .inl (.inl (if_pos (List.mem_map_of_mem hnode))) }
  slots := {
    slots := List.nodup_nil
    running := fun id => by
      refine iff_of_false (fun h => ?_) (by simp)
      exact absurd (Option.ite_none_right_eq_some.mp h).2 (by simp)
    ended := fun slot hslot => nomatch hslot
    granted := fun id context h => nomatch h
    inUse := .refl _
    apart := .nil
    bounded := fun limit _ => Nat.zero_le limit }

theorem openScheduler_inv (options : GraphExecutionOptions V C) (nodes : List (GraphNode V)) :
    SchedulerInv options nodes (openScheduler options nodes) := by
  unfold openScheduler
  refine List.foldlRecOn _ _ (motive := SchedulerInv options nodes) ?_ fun s hs id _ => ?_
  · refine List.foldlRecOn _ _ (motive := SchedulerInv options nodes) (SchedulerInv.start _ _)
      fun s hs id hid => ?_
    refine precomplete_induction hs fun outcome context hpending => ?_
    refine SchedulerInv.congr ⟨?_, hs.slots.settle hpending⟩ context s.phase
    exact hs.tables.settle (.inl hpending) fun _ _ _ hfresh => absurd hid hfresh
  · refine preskip_induction hs fun outcome hskipped hpending => ?_
    exact ⟨hs.tables.settle (.inl hpending) fun _ _ _ _ => .inl hskipped, hs.slots.settle hpending⟩

/-- What settling a node and changing the context keep, the opening keeps. -/
theorem openScheduler_induction {P : Scheduler C → Prop}
    (hstart : ∀ statuses, P { context := options.initialContext, statuses })
    (hsettle : ∀ s id outcome, P s → P (s.settleNode id outcome))
    (hcontext : ∀ s context, P s → P { s with context }) : P (openScheduler options nodes) := by
  unfold openScheduler
  refine List.foldlRecOn _ _ (motive := P) ?_ fun s hs id _ => ?_
  · refine List.foldlRecOn _ _ (motive := P) (hstart _) fun s hs id _ => ?_
    exact precomplete_induction hs fun outcome context _ => hcontext _ _ (hsettle s id outcome hs)
  · exact preskip_induction hs fun outcome _ _ => hsettle s id outcome hs

end Opening

end Kyberion.Graph
