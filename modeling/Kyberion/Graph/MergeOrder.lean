import Kyberion.Dataflow
import Kyberion.Graph.DispatchSafety

/-!
Contexts of a concurrent run. A node works on the context as it was at its dispatch, and the whole
result is spread over the live context when it completes: a key that another node has written in
between is written back, if the context had it at the dispatch.
-/

namespace Kyberion.Graph

open Kyberion.Pipeline (GraphNode AdfStep deriveExecutionGraph)
open Transition

variable {V W C : Type}

/-- A context as its values by key. -/
abbrev Context (W : Type) :=
  String → Option W

/-- `{ ...current, ...next }` -/
def defaultMerge (current next : Context W) : Context W :=
  fun key => (next key).or (current key)

section Handlers

/-- A turn of a run whose handlers return success and what `handler` makes of their context. -/
inductive Turn
  | schedule
  | finish (id : String)
  | race (id : String)

variable (handler : GraphNode V → C → C) (options : GraphExecutionOptions V C)
  (nodes : List (GraphNode V))

def handlerEnd (s : Scheduler C) (id : String) : Option (HandlerEnd C) :=
  (nodes.find? fun node => node.id = id).bind fun node =>
    ((calls s.log).find? fun call => call.1 = id).map fun call =>
      .returned { status := .success, context := some (handler node call.2) }

def Turn.action (s : Scheduler C) : Turn → Option (SchedulerAction C)
  | .schedule => some .schedule
  | .finish id => (handlerEnd handler nodes s id).map fun end_ => .finish id end_
  | .race id => some (.race id)

/-- One call of `executeGraph` with handlers that compute. -/
def runHandlers : System (Scheduler C) Turn where
  init s := s = openScheduler options nodes
  step s turn := (turn.action handler nodes s).bind (executeGraphStep options nodes s)

theorem reachable_of_runHandlers {ok : Scheduler C → Turn → Prop} {s : Scheduler C}
    (h : (runHandlers handler options nodes).Reach ok s) :
    (executeGraph options nodes).Reachable s := by
  induction h with
  | start h0 => exact .start h0
  | next _ _ hstep ih =>
      obtain ⟨a, -, ha⟩ := Option.bind_eq_some_iff.mp hstep
      exact .next ih trivial ha

end Handlers

variable {handler : GraphNode V → Context W → Context W}
  {options : GraphExecutionOptions V (Context W)} {nodes : List (GraphNode V)}
  {own : GraphNode V → String → Prop} {s s' : Scheduler (Context W)}

section Sequential

/-- `n` depends on `d`, directly or through other nodes. -/
def DependsOn (nodes : List (GraphNode V)) : String → String → Prop :=
  Relation.TransGen fun d n => ∃ node ∈ nodes, node.id = n ∧ d ∈ node.dependencies

/-- A handler changes only its own keys, which are no other node's, to values that depend on keys
of the nodes it depends on and on keys that no node writes. -/
structure LocalHandlers (nodes : List (GraphNode V))
    (handler : GraphNode V → Context W → Context W) (own : GraphNode V → String → Prop) : Prop where
  frame : ∀ node ∈ nodes, ∀ c key, ¬ own node key → handler node c key = c key
  disjoint : ∀ a ∈ nodes, ∀ b ∈ nodes, ∀ key, own a key → own b key → a.id = b.id
  reads : ∀ node ∈ nodes, ∀ c c' : Context W,
    (∀ key, (∀ m ∈ nodes, own m key → DependsOn nodes m.id node.id) → c key = c' key) →
      ∀ key, own node key → handler node c key = handler node c' key

/-- Results join the context by the spread, and no node is restored. -/
structure DefaultMerge (options : GraphExecutionOptions V (Context W)) (nodes : List (GraphNode V)) :
    Prop where
  mergeContext : options.mergeContext = none
  policy : ∀ node ∈ nodes, node.merge = .last
  last : options.merge.last = defaultMerge
  precompleted : options.precompletedNodeIds = []

/-- One node on its own. -/
def runNode (handler : GraphNode V → Context W → Context W) (nodes : List (GraphNode V))
    (id : String) (c : Context W) : Context W :=
  match nodes.find? fun node => node.id = id with
  | some node => defaultMerge c (handler node c)
  | none => c

/-- The nodes one at a time. -/
def runInOrder (handler : GraphNode V → Context W → Context W) (nodes : List (GraphNode V))
    (order : List String) (c : Context W) : Context W :=
  order.foldl (fun c id => runNode handler nodes id c) c

theorem find?_id (hids : (nodes.map (·.id)).Nodup) {node : GraphNode V} (hnode : node ∈ nodes) :
    nodes.find? (fun other => other.id = node.id) = some node := by
  cases hfound : nodes.find? fun other => other.id = node.id with
  | none => exact absurd (List.find?_eq_none.mp hfound node hnode) (by simp)
  | some found =>
      have hid : found.id = node.id := by simpa using List.find?_some hfound
      rw [eq_of_id hids (List.mem_of_find?_eq_some hfound) hnode hid]

theorem runNode_eq (hids : (nodes.map (·.id)).Nodup) {node : GraphNode V} (hnode : node ∈ nodes)
    (c : Context W) : runNode handler nodes node.id c = defaultMerge c (handler node c) := by
  rw [runNode, find?_id hids hnode]

/-- The nodes as writers of their keys. -/
def dataflow (hids : (nodes.map (·.id)).Nodup) (h : LocalHandlers nodes handler own) :
    Dataflow String String (Option W) where
  step := runNode handler nodes
  own id key := ∃ node ∈ nodes, node.id = id ∧ own node key
  before := DependsOn nodes
  frame id c key hown := by
    unfold runNode
    cases hfound : nodes.find? fun node => node.id = id with
    | none => rfl
    | some node =>
        have hnode := List.mem_of_find?_eq_some hfound
        have hid : node.id = id := by simpa using List.find?_some hfound
        have hkeep := h.frame node hnode c key fun hkey => hown ⟨node, hnode, hid, hkey⟩
        exact (congrArg (Option.or · (c key)) hkeep).trans Option.or_self
  disjoint := by
    rintro _ _ key ⟨a, ha, rfl, hkey⟩ ⟨b, hb, rfl, hkey'⟩
    exact h.disjoint a ha b hb key hkey hkey'
  reads := by
    rintro _ c c' hagree key ⟨node, hnode, rfl, hkey⟩
    rw [runNode_eq hids hnode, runNode_eq hids hnode]
    have hvalue : handler node c key = handler node c' key := by
      refine h.reads node hnode c c' (fun key' howners => hagree key' ?_) key hkey
      rintro _ ⟨m, hm, rfl, hown⟩
      exact .inr (howners m hm hown)
    have hold : c key = c' key := by
      refine hagree key ?_
      rintro _ ⟨m, hm, rfl, hown⟩
      exact .inl (h.disjoint m hm node hnode key hown hkey)
    rw [defaultMerge, defaultMerge, hvalue, hold]

/-- An order in which each node comes after its dependencies. -/
structure TopologicalOrder (nodes : List (GraphNode V)) (order : List String) : Prop where
  nodup : order.Nodup
  closed : Preceded (fun pre id => ∀ node ∈ nodes, node.id = id → ∀ d ∈ node.dependencies, d ∈ pre)
    order

theorem TopologicalOrder.mem_of_dependsOn {order : List String} (h : TopologicalOrder nodes order)
    {d n : String} (hdep : DependsOn nodes d n) :
    ∀ pre post, order = pre ++ n :: post → d ∈ pre := by
  induction hdep with
  | single hdirect =>
      obtain ⟨node, hnode, hid, hd⟩ := hdirect
      exact fun pre post horder => h.closed pre _ post horder node hnode hid _ hd
  | tail _ hdirect ih =>
      obtain ⟨node, hnode, rfl, hd⟩ := hdirect
      intro pre post horder
      obtain ⟨before, behind, rfl⟩ :=
        List.append_of_mem (h.closed pre _ post horder node hnode rfl _ hd)
      refine List.mem_append_left _ (ih before (behind ++ node.id :: post) ?_)
      rw [horder, List.append_assoc, List.cons_append]

theorem TopologicalOrder.topological {order : List String} (h : TopologicalOrder nodes order)
    (hids : (nodes.map (·.id)).Nodup) (hlocal : LocalHandlers nodes handler own) :
    (dataflow hids hlocal).Topological order :=
  ⟨h.nodup, fun pre _ post horder _ hd => h.mem_of_dependsOn hd pre post horder⟩

end Sequential

section Merged

/-- The result that the race takes writes back no value that another node has changed since the
dispatch. -/
def mergesFresh (own : GraphNode V → String → Prop) (nodes : List (GraphNode V))
    (s : Scheduler (Context W)) : Turn → Prop
  | .race id => ∀ node ∈ nodes, node.id = id → ∀ snapshot, .started id snapshot ∈ s.log →
      ∀ key, (snapshot key).isSome = true → ¬ own node key → s.context key = snapshot key
  | _ => True

variable (hids : (nodes.map (·.id)).Nodup) (hlocal : LocalHandlers nodes handler own)

/-- The live context is what the nodes done so far make of the initial one in the order of their
completion, and a snapshot what those done at the dispatch did. -/
structure Merged (options : GraphExecutionOptions V (Context W)) (s : Scheduler (Context W)) :
    Prop where
  topological : (dataflow hids hlocal).Topological (reportedSuccesses s.log)
  context : s.context = runInOrder handler nodes (reportedSuccesses s.log) options.initialContext
  snapshot : ∀ id c, .started id c ∈ s.log → ∃ pre post, reportedSuccesses s.log = pre ++ post ∧
    c = runInOrder handler nodes pre options.initialContext ∧ ∀ d, DependsOn nodes d id → d ∈ pre
  ended : ∀ slot ∈ s.active, ∀ end_, slot.ended = some end_ → ∃ node ∈ nodes, node.id = slot.id ∧
    ∃ c, .started slot.id c ∈ s.log ∧
      end_ = .returned { status := .success, context := some (handler node c) }
  executed : ∀ id ∈ startedIds s.log, id ∈ reportedSuccesses s.log ∨ id ∈ s.active.map (·.id)
  done : ∀ id ∈ reportedSuccesses s.log, id ∈ startedIds s.log

variable {hids hlocal}

theorem mem_reportedSuccesses_of_status (h : Tables options nodes s) {id : String}
    (hid : s.statuses id = some (.terminal .success)) : id ∈ reportedSuccesses s.log := by
  obtain ⟨outcome, houtcome, hsuccess⟩ := (h.outcome id .success).mp hid
  refine mem_reportedSuccesses.mpr ⟨outcome, mem_reportsOf.mp ?_, hsuccess⟩
  rw [h.reports, houtcome]
  exact List.mem_singleton_self outcome

theorem notMem_reportedSuccesses_of_open (h : Tables options nodes s) {id : String}
    (hopen : s.statuses id = some .pending ∨ s.statuses id = some .running) :
    id ∉ reportedSuccesses s.log := by
  intro hmem
  obtain ⟨outcome, hreported, -⟩ := mem_reportedSuccesses.mp hmem
  have hreport := mem_reportsOf.mpr hreported
  rw [h.reports, h.outcomes_none hopen] at hreport
  cases hreport

/-- What a node of a dispatch depends on has been done. -/
theorem Merged.closed (h : Merged hids hlocal options s) {node : GraphNode V} (hnode : node ∈ nodes)
    (hdeps : ∀ d ∈ node.dependencies, d ∈ reportedSuccesses s.log) {d : String}
    (hd : DependsOn nodes d node.id) : d ∈ reportedSuccesses s.log := by
  obtain ⟨m, hm, other, hother, hid, hdirect⟩ :
      ∃ m, Relation.ReflTransGen (fun d n => ∃ node ∈ nodes, node.id = n ∧ d ∈ node.dependencies)
        d m ∧ ∃ other ∈ nodes, other.id = node.id ∧ m ∈ other.dependencies :=
    Relation.TransGen.tail'_iff.mp hd
  obtain rfl := eq_of_id hids hother hnode hid
  have hmem := hdeps m hdirect
  rcases Relation.reflTransGen_iff_eq_or_transGen.mp hm with rfl | hdm
  · exact hmem
  · obtain ⟨pre, post, hsplit, -, hbefore⟩ := h.topological.split hmem
    rw [hsplit]
    exact List.mem_append_left _ (hbefore d hdm)

theorem Merged.dispatchNode (h : Merged hids hlocal options s)
    (hinv : SchedulerInv options nodes s) {node : GraphNode V} (hnode : node ∈ nodes)
    (hdispatch : dispatchNode options s node = some s') : Merged hids hlocal options s' := by
  obtain ⟨hpending, ⟨outcome, hskipped, rfl⟩ | ⟨-, hdeps, -, rfl⟩⟩ := dispatchNode_cases hdispatch
  · have hdone : reportedSuccesses (s.settleNode node.id outcome).log = reportedSuccesses s.log := by
      rw [settleNode_log, reportedSuccesses_reported, hskipped]
      exact List.append_nil _
    refine ⟨?_, ?_, fun id c hmem => ?_, fun slot hslot end_ hend => ?_, fun id hid => ?_,
      fun id hid => ?_⟩
    · rw [hdone]
      exact h.topological
    · rw [hdone]
      exact h.context
    · rw [hdone]
      exact h.snapshot id c (mem_log_of_ended hmem rfl)
    · obtain ⟨n, hn, hid, c, hmem, rfl⟩ := h.ended slot hslot end_ hend
      exact ⟨n, hn, hid, c, List.mem_append_left _ hmem, rfl⟩
    · rw [settleNode_log, startedIds_reported] at hid
      rw [hdone]
      exact h.executed id hid
    · rw [hdone] at hid
      rw [settleNode_log, startedIds_reported]
      exact h.done id hid
  · have hready : ∀ d ∈ node.dependencies, d ∈ reportedSuccesses s.log :=
      fun d hd => mem_reportedSuccesses_of_status hinv.tables (hdeps d hd)
    refine ⟨?_, ?_, fun id c hmem => ?_, fun slot hslot end_ hend => ?_, fun id hid => ?_,
      fun id hid => ?_⟩
    · rw [dispatch_log, reportedSuccesses_started]
      exact h.topological
    · rw [dispatch_log, reportedSuccesses_started]
      exact h.context
    · rw [dispatch_log, reportedSuccesses_started]
      rcases List.mem_append.mp hmem with hold | hnew
      · exact h.snapshot id c hold
      · obtain ⟨rfl, rfl⟩ := SchedulerEvent.started.inj (List.mem_singleton.mp hnew)
        exact ⟨_, [], (List.append_nil _).symm, h.context, fun d hd => h.closed hnode hready hd⟩
    · rcases List.mem_append.mp hslot with hold | hnew
      · obtain ⟨n, hn, hid, c, hmem, rfl⟩ := h.ended slot hold end_ hend
        exact ⟨n, hn, hid, c, List.mem_append_left _ hmem, rfl⟩
      · rw [List.mem_singleton.mp hnew] at hend
        cases hend
    · rw [dispatch_log, startedIds_started, List.mem_append, List.mem_singleton] at hid
      rw [dispatch_log, reportedSuccesses_started]
      simp only [Scheduler.dispatch, List.map_append, List.map_singleton, List.mem_append,
        List.mem_singleton]
      rcases hid with hold | rfl
      · exact (h.executed id hold).imp_right .inl
      · exact .inr (.inr rfl)
    · rw [dispatch_log, reportedSuccesses_started] at hid
      rw [dispatch_log, startedIds_started]
      exact List.mem_append_left _ (h.done id hid)

theorem Merged.congr (h : Merged hids hlocal options s) (phase : LoopPhase) :
    Merged hids hlocal options { s with phase } :=
  ⟨h.topological, h.context, h.snapshot, h.ended, h.executed, h.done⟩

theorem Merged.schedule (h : Merged hids hlocal options s) (hinv : SchedulerInv options nodes s) :
    Merged hids hlocal options (schedule options nodes s) := by
  rcases schedule_cases options nodes s with ⟨-, heq⟩ | ⟨phase, heq, -⟩
  · rw [heq]
    exact h.congr .returned
  · rw [heq]
    refine Merged.congr ?_ phase
    have hall : (Merged hids hlocal options (dispatchPass options nodes s).1 ∧ _) :=
      dispatchPass_induction
        (P := fun t => Merged hids hlocal options t ∧ SchedulerInv options nodes t) ⟨h, hinv⟩
        fun node hnode t t' ⟨ht, htinv⟩ ht' =>
          ⟨ht.dispatchNode htinv hnode ht', htinv.dispatchNode hids hnode ht'⟩
    exact hall.1

theorem handlerEnd_eq_some {id : String} {end_ : HandlerEnd (Context W)}
    (h : handlerEnd handler nodes s id = some end_) : ∃ node ∈ nodes, node.id = id ∧
      ∃ c, .started id c ∈ s.log ∧
        end_ = .returned { status := .success, context := some (handler node c) } := by
  obtain ⟨node, hnode, h⟩ := Option.bind_eq_some_iff.mp h
  obtain ⟨⟨other, c⟩, hcall, rfl⟩ := Option.map_eq_some_iff.mp h
  have hid : node.id = id := by simpa using List.find?_some hnode
  have hother : other = id := by simpa using List.find?_some hcall
  subst hother
  exact ⟨node, List.mem_of_find?_eq_some hnode, hid, c,
    mem_calls.mp (List.mem_of_find?_eq_some hcall), rfl⟩

theorem Merged.endSlot (h : Merged hids hlocal options s) {id : String}
    {end_ : HandlerEnd (Context W)} (hend : handlerEnd handler nodes s id = some end_) :
    Merged hids hlocal options (s.endSlot id end_) := by
  have hdone : reportedSuccesses (s.endSlot id end_).log = reportedSuccesses s.log :=
    reportedSuccesses_ended
  have hstarted : startedIds (s.endSlot id end_).log = startedIds s.log := startedIds_ended
  refine ⟨?_, ?_, fun other c hmem => ?_, fun slot hslot end' hend' => ?_, fun other hother => ?_,
    fun other hother => ?_⟩
  · rw [hdone]
    exact h.topological
  · rw [hdone]
    exact h.context
  · rw [hdone]
    exact h.snapshot other c (mem_log_of_ended hmem rfl)
  · obtain ⟨old, hold, rfl⟩ := List.mem_map.mp hslot
    split at hend'
    · rename_i hid
      obtain rfl := Option.some.inj hend'
      obtain ⟨node, hnode, hnodeId, c, hmem, rfl⟩ := handlerEnd_eq_some hend
      rw [if_pos hid, hid]
      exact ⟨node, hnode, hnodeId, c, List.mem_append_left _ hmem, rfl⟩
    · rename_i hid
      rw [if_neg hid]
      obtain ⟨node, hnode, hnodeId, c, hmem, rfl⟩ := h.ended old hold end' hend'
      exact ⟨node, hnode, hnodeId, c, List.mem_append_left _ hmem, rfl⟩
  · rw [hstarted] at hother
    rw [hdone]
    refine (h.executed other hother).imp_right fun hactive => ?_
    obtain ⟨slot, hslot, rfl⟩ := List.mem_map.mp hactive
    refine List.mem_map.mpr ⟨_, List.mem_map_of_mem hslot, ?_⟩
    split <;> rfl
  · rw [hdone] at hother
    rw [hstarted]
    exact h.done other hother

/-- A handler writes its own keys from its snapshot as it would from the live context. -/
theorem Merged.handler_snapshot (h : Merged hids hlocal options s) {node : GraphNode V}
    (hnode : node ∈ nodes) {c : Context W} (hmem : .started node.id c ∈ s.log) {key : String}
    (hkey : own node key) : handler node c key = handler node s.context key := by
  obtain ⟨pre, post, hsplit, rfl, hbefore⟩ := h.snapshot node.id c hmem
  refine hlocal.reads node hnode _ _ (fun key' howners => ?_) key hkey
  have hnodup := h.topological.nodup
  rw [h.context, hsplit] at *
  refine Dataflow.run_agree (F := dataflow hids hlocal) hnodup ?_
  rintro _ ⟨m, hm, rfl, hown⟩
  exact hbefore m.id (howners m hm hown)

/-- The merge of a result is the run of its node on the live context. -/
theorem Merged.merge (h : Merged hids hlocal options s) {node : GraphNode V} (hnode : node ∈ nodes)
    {c : Context W} (hmem : .started node.id c ∈ s.log)
    (hfresh : ∀ key, (c key).isSome = true → ¬ own node key → s.context key = c key) :
    defaultMerge s.context (handler node c) = runNode handler nodes node.id s.context := by
  rw [runNode_eq hids hnode]
  funext key
  by_cases hkey : own node key
  · rw [defaultMerge, defaultMerge, h.handler_snapshot hnode hmem hkey]
  · rw [defaultMerge, defaultMerge, hlocal.frame node hnode c key hkey,
      hlocal.frame node hnode s.context key hkey, Option.or_self]
    cases hvalue : c key with
    | none => rfl
    | some value =>
        rw [hfresh key (by rw [hvalue]; rfl) hkey, hvalue]
        rfl

theorem completeNode_context (hids : (nodes.map (·.id)).Nodup) (hdefault : DefaultMerge options nodes) {slot : Slot (Context W)}
    {node : GraphNode V} (hnode : node ∈ nodes) (hid : node.id = slot.id) {next : Context W} :
    (completeNode options nodes s slot { status := .success, context := some next }).context =
      defaultMerge s.context next := by
  have hfound := find?_id hids hnode
  rw [hid] at hfound
  simp only [completeNode, hfound, completedContext, hdefault.mergeContext,
    hdefault.policy node hnode, hdefault.last]
  rfl

theorem Merged.complete (hdefault : DefaultMerge options nodes) (h : Merged hids hlocal options s)
    (hinv : SchedulerInv options nodes s) {slot : Slot (Context W)} (hslot : slot ∈ s.active)
    {node : GraphNode V} (hnode : node ∈ nodes) (hid : node.id = slot.id) {c : Context W}
    (hmem : .started node.id c ∈ s.log)
    (hfresh : ∀ key, (c key).isSome = true → ¬ own node key → s.context key = c key) :
    Merged hids hlocal options (completeNode options nodes s slot
      { status := .success, context := some (handler node c) }) := by
  have hcontext := (completeNode_context (s := s) hids hdefault hnode hid).trans
    (h.merge hnode hmem hfresh)
  obtain ⟨context, heq⟩ := completeNode_eq options nodes s slot
    { status := .success, context := some (handler node c) }
  rw [heq] at hcontext ⊢
  have hrunning := (hinv.slots.running slot.id).mpr (List.mem_map_of_mem hslot)
  obtain ⟨pre, post, hsplit, -, hbefore⟩ := h.snapshot node.id c hmem
  have hdone : reportedSuccesses (s.log ++ [.reported slot.id
      { status := .success, context := some (handler node c) }]) =
      reportedSuccesses s.log ++ [node.id] := by
    rw [reportedSuccesses_reported, if_pos rfl, hid]
  refine ⟨?_, ?_, fun other c' hmem' => ?_, fun other hother end_ hend => ?_, fun other hother => ?_,
    fun other hother => ?_⟩
  · change (dataflow hids hlocal).Topological (reportedSuccesses (s.log ++ _))
    rw [hdone]
    refine h.topological.snoc ?_ fun m hm => ?_
    · rw [hid]
      exact notMem_reportedSuccesses_of_open hinv.tables (.inr hrunning)
    · rw [hsplit]
      exact List.mem_append_left _ (hbefore m hm)
  · change context = runInOrder handler nodes (reportedSuccesses (s.log ++ _)) _
    rw [hdone, runInOrder, List.foldl_append, List.foldl_cons, List.foldl_nil]
    refine Eq.trans hcontext ?_
    rw [h.context]
    rfl
  · change ∃ pre post, reportedSuccesses (s.log ++ _) = _ ∧ _
    rw [hdone]
    obtain ⟨pre', post', hsplit', hc', hbefore'⟩ := h.snapshot other c' (mem_log_of_ended hmem' rfl)
    exact ⟨pre', post' ++ [node.id], by rw [hsplit', List.append_assoc], hc', hbefore'⟩
  · obtain ⟨n, hn, hnid, c', hmem', rfl⟩ := h.ended other (List.mem_filter.mp hother).1 end_ hend
    exact ⟨n, hn, hnid, c', List.mem_append_left _ hmem', rfl⟩
  · change other ∈ reportedSuccesses (s.log ++ _) ∨ other ∈ (s.active.filter _).map (·.id)
    have hold : other ∈ startedIds s.log := by
      rw [settleNode_log, startedIds_reported] at hother
      exact hother
    rw [hdone, List.mem_append, List.mem_singleton]
    by_cases hsame : other = node.id
    · exact .inl (.inr hsame)
    · refine (h.executed other hold).imp .inl fun hactive => ?_
      obtain ⟨a, ha, rfl⟩ := List.mem_map.mp hactive
      exact List.mem_map_of_mem (List.mem_filter.mpr ⟨ha, decide_eq_true (hid ▸ hsame)⟩)
  · change other ∈ startedIds (s.log ++ _)
    rw [startedIds_reported]
    have hother : other ∈ reportedSuccesses (s.log ++ [.reported slot.id _]) := hother
    rw [hdone, List.mem_append, List.mem_singleton] at hother
    rcases hother with hold | rfl
    · exact h.done other hold
    · exact mem_startedIds.mpr ⟨c, hmem⟩

theorem Merged.step (hdefault : DefaultMerge options nodes) (h : Merged hids hlocal options s)
    (hinv : SchedulerInv options nodes s) {turn : Turn} (hok : mergesFresh own nodes s turn)
    (hstep : (runHandlers handler options nodes).step s turn = some s') :
    Merged hids hlocal options s' := by
  obtain ⟨a, haction, hstep⟩ := Option.bind_eq_some_iff.mp hstep
  cases turn with
  | schedule =>
      obtain rfl := Option.some.inj haction
      obtain ⟨-, hstep⟩ := Option.ite_none_right_eq_some.mp hstep
      obtain rfl := Option.some.inj hstep
      exact h.schedule hinv
  | finish id =>
      obtain ⟨end_, hend, rfl⟩ := Option.map_eq_some_iff.mp haction
      obtain ⟨-, rfl⟩ := finish_cases hstep
      exact h.endSlot hend
  | race id =>
      obtain rfl := Option.some.inj haction
      obtain ⟨-, slot, hslot, rfl, end_, hend, hrace⟩ := race_cases hstep
      obtain ⟨node, hnode, hid, c, hmem, rfl⟩ := h.ended slot hslot end_ hend
      rcases hrace with ⟨outcome, houtcome, rfl⟩ | ⟨hsuspended, -⟩
      · obtain rfl := Option.some.inj houtcome
        rw [← hid] at hmem
        exact h.complete hdefault hinv hslot hnode hid hmem (hok node hnode hid c (hid ▸ hmem))
      · cases hsuspended

/-- Nothing has run. -/
structure Unstarted (options : GraphExecutionOptions V (Context W)) (s : Scheduler (Context W)) :
    Prop where
  context : s.context = options.initialContext
  active : s.active = []
  done : reportedSuccesses s.log = []
  started : startedIds s.log = []

theorem openScheduler_unstarted (hdefault : DefaultMerge options nodes) :
    Unstarted options (openScheduler options nodes) := by
  have heq : openScheduler options nodes = options.preskippedNodeIds.foldl preskip {
      context := options.initialContext
      statuses := fun id => if id ∈ nodes.map (·.id) then some .pending else none } := by
    unfold openScheduler
    rw [hdefault.precompleted]
    rfl
  rw [heq]
  refine List.foldlRecOn _ _ (motive := Unstarted options) ⟨rfl, rfl, rfl, rfl⟩ fun s hs id _ => ?_
  refine preskip_induction (P := Unstarted options) hs fun outcome hskipped _ => ?_
  refine ⟨hs.context, hs.active, ?_, ?_⟩
  · rw [settleNode_log, reportedSuccesses_reported, hskipped, hs.done]
    rfl
  · rw [settleNode_log, startedIds_reported, hs.started]

theorem Unstarted.merged (h : Unstarted options s) : Merged hids hlocal options s := by
  have hnot : ∀ id c, .started id c ∉ s.log := by
    intro id c hmem
    have hid := mem_startedIds.mpr ⟨c, hmem⟩
    rw [h.started] at hid
    cases hid
  refine ⟨?_, ?_, fun id c hmem => absurd hmem (hnot id c), fun slot hslot => ?_, ?_, ?_⟩
  · rw [h.done]
    exact ⟨List.nodup_nil, Preceded.nil⟩
  · rw [h.done, h.context]
    rfl
  · rw [h.active] at hslot
    cases hslot
  · rw [h.started]
    exact fun id hid => nomatch hid
  · rw [h.done]
    exact fun id hid => nomatch hid

theorem merged_of_reach (hids : (nodes.map (·.id)).Nodup)
    (hlocal : LocalHandlers nodes handler own) (hdefault : DefaultMerge options nodes)
    (hs : (runHandlers handler options nodes).Reach (mergesFresh own nodes) s) :
    Merged hids hlocal options s ∧ SchedulerInv options nodes s := by
  refine hs.invariant (I := fun s => Merged hids hlocal options s ∧ SchedulerInv options nodes s)
    (fun s h0 => ?_) fun s turn s' h hok hstep => ⟨h.1.step hdefault h.2 hok hstep, ?_⟩
  · rw [show s = openScheduler options nodes from h0]
    exact ⟨(openScheduler_unstarted hdefault).merged, openScheduler_inv options nodes⟩
  · obtain ⟨a, -, ha⟩ := Option.bind_eq_some_iff.mp hstep
    exact h.2.step hids ha

/-- A key that is not in the initial context, or that no node writes, is never stale. -/
theorem Merged.mergesFresh (h : Merged hids hlocal options s)
    (hinitial : ∀ node ∈ nodes, ∀ key, own node key → options.initialContext key = none)
    (turn : Turn) : mergesFresh own nodes s turn := by
  cases turn with
  | schedule => trivial
  | finish id => trivial
  | race id =>
      rintro node hnode rfl c hmem key hkey -
      obtain ⟨pre, post, hsplit, rfl, -⟩ := h.snapshot node.id c hmem
      have hnodup := h.topological.nodup
      rw [hsplit] at hnodup
      rw [h.context, hsplit]
      refine (Dataflow.run_agree (F := dataflow hids hlocal) hnodup fun m hm => ?_).symm
      by_contra hnot
      have hstart := Dataflow.run_start (F := dataflow hids hlocal)
        (c := options.initialContext) hnot hm
      obtain ⟨owner, howner, -, hown⟩ := hm
      rw [hinitial owner howner key hown] at hstart
      rw [show runInOrder handler nodes pre options.initialContext key = none from hstart] at hkey
      cases hkey

/-- The runs over an initial context that no node writes to. -/
theorem reach_of_initial (hids : (nodes.map (·.id)).Nodup)
    (hlocal : LocalHandlers nodes handler own) (hdefault : DefaultMerge options nodes)
    (hinitial : ∀ node ∈ nodes, ∀ key, own node key → options.initialContext key = none)
    (hs : (runHandlers handler options nodes).Reachable s) :
    (runHandlers handler options nodes).Reach (mergesFresh own nodes) s := by
  induction hs with
  | start h0 => exact .start h0
  | next _ _ hstep ih =>
      exact .next ih ((merged_of_reach hids hlocal hdefault ih).1.mergesFresh hinitial _) hstep

end Merged

section Orders

/-- While no merge writes back a value that has changed since the dispatch, the final context is the
one of its nodes run one at a time, in any order that respects the dependencies. -/
theorem final_context_of_any_order {exportAs : V → Option String} {steps : List (AdfStep V)}
    (haccepted : (deriveExecutionGraph exportAs steps).2 = [])
    (hlocal : LocalHandlers (deriveExecutionGraph exportAs steps).1 handler own)
    (hdefault : DefaultMerge options (deriveExecutionGraph exportAs steps).1)
    (hs : (runHandlers handler options (deriveExecutionGraph exportAs steps).1).Reach
      (mergesFresh own (deriveExecutionGraph exportAs steps).1) s)
    (hreturned : s.phase = .returned) {order : List String}
    (horder : TopologicalOrder (deriveExecutionGraph exportAs steps).1 order)
    (hnodes : ∀ id, id ∈ order ↔ id ∈ startedIds s.log) :
    s.context = runInOrder handler (deriveExecutionGraph exportAs steps).1 order
      options.initialContext := by
  have hids := nodup_of_accepted haccepted
  generalize (deriveExecutionGraph exportAs steps).1 = nodes at *
  obtain ⟨hmerged, hinv⟩ := merged_of_reach hids hlocal hdefault hs
  have hreachable := reachable_of_runHandlers handler options nodes hs
  have hdone : ∀ id, id ∈ reportedSuccesses s.log ↔ id ∈ order := by
    intro id
    rw [hnodes]
    refine ⟨hmerged.done id, fun hstarted => ?_⟩
    refine (hmerged.executed id hstarted).resolve_right fun hactive => ?_
    obtain ⟨node, hnode, rfl⟩ := node_of_started hreachable hstarted
    obtain ⟨status, hstatus⟩ :=
      isTerminal_iff.mp ((inv_of_reachable hids hreachable).2 hreturned node hnode)
    rw [(hinv.slots.running node.id).mpr hactive] at hstatus
    cases hstatus
  rw [hmerged.context]
  exact hmerged.topological.run_eq (F := dataflow hids hlocal) (horder.topological hids hlocal) hdone

/-- A node writes one to its own key, the node `b` one more than what it reads at `a`. -/
def counting (node : GraphNode Unit) (c : Context ℕ) : Context ℕ :=
  fun key =>
    if key = node.id then some (if node.id = "b" then (c "a").getD 0 + 1 else 1) else c key

theorem counting_local {nodes : List (GraphNode Unit)}
    (hb : (∃ node ∈ nodes, node.id = "b") → DependsOn nodes "a" "b") :
    LocalHandlers nodes counting fun node key => key = node.id where
  frame node _ c key hkey := if_neg hkey
  disjoint := by
    rintro a - b - key rfl hkey
    exact hkey
  reads := by
    rintro node hnode c c' hagree key rfl
    rw [counting, counting, if_pos rfl, if_pos rfl]
    by_cases hid : node.id = "b"
    · rw [if_pos hid, if_pos hid, hagree "a"]
      intro m _ hm
      rw [← hm, hid]
      exact hb ⟨node, hnode, hid⟩
    · rw [if_neg hid, if_neg hid]

def spreadMerge : ContextMerge (Context ℕ) where
  last := defaultMerge
  namespace_ _ current _ := current
  collect _ current _ := current

/-- Two nodes side by side, over an initial context. -/
def sideBySideFrom (initialContext : Context ℕ) : GraphExecutionOptions Unit (Context ℕ) where
  maxConcurrency := .finite 2
  initialContext := initialContext
  merge := spreadMerge

/-- `b` after `a`, and `c` beside them. -/
theorem final_context_of_any_order_three :
    ∃ s, (runHandlers counting (sideBySideFrom fun _ => none) (deriveExecutionGraph (fun _ => none)
        [namedStep "a" [], namedStep "b" ["a"], namedStep "c" []]).1).Reachable s ∧
      s.phase = .returned ∧ s.context = runInOrder counting (deriveExecutionGraph (fun _ => none)
        [namedStep "a" [], namedStep "b" ["a"], namedStep "c" []]).1 ["a", "b", "c"]
          fun _ => none := by
  obtain ⟨s, hs, hphase, hstarted⟩ := System.exists_reachable_of_exec
    (S := runHandlers counting (sideBySideFrom fun _ => none) (deriveExecutionGraph (fun _ => none)
      [namedStep "a" [], namedStep "b" ["a"], namedStep "c" []]).1)
    [.schedule, .finish "a", .race "a", .schedule, .finish "b", .finish "c", .race "c", .schedule,
      .race "b", .schedule]
    (fun s => s.phase = .returned ∧ startedIds s.log = ["a", "c", "b"])
    rfl (by decide +kernel)
  have hlocal : LocalHandlers (deriveExecutionGraph (fun _ => none)
      [namedStep "a" [], namedStep "b" ["a"], namedStep "c" []]).1 counting
      fun node key => key = node.id :=
    counting_local fun _ => .single (by decide +kernel)
  have hdefault : DefaultMerge (sideBySideFrom fun _ => none) (deriveExecutionGraph (fun _ => none)
      [namedStep "a" [], namedStep "b" ["a"], namedStep "c" []]).1 :=
    ⟨rfl, by decide +kernel, rfl, rfl⟩
  refine ⟨s, hs, hphase, final_context_of_any_order (by decide +kernel) hlocal hdefault
    (reach_of_initial (nodup_of_accepted (by decide +kernel)) hlocal hdefault (fun _ _ _ _ => rfl) hs)
    hphase ⟨by decide, ?_⟩ fun id => ?_⟩
  · exact ((Preceded.nil.snoc (by decide +kernel)).snoc (by decide +kernel)).snoc
      (by decide +kernel)
  · rw [hstarted]
    simp only [List.mem_cons, List.not_mem_nil, or_false]
    tauto

/-- Two independent nodes over a context that has a value at `a`: the later one to complete writes
it back. -/
theorem stale_value_written_back :
    LocalHandlers (deriveExecutionGraph (fun _ => none) [namedStep "a" [], namedStep "c" []]).1
        counting (fun node key => key = node.id) ∧
      DefaultMerge (sideBySideFrom fun key => if key = "a" then some 0 else none)
        (deriveExecutionGraph (fun _ => none) [namedStep "a" [], namedStep "c" []]).1 ∧
      ¬ ∀ s, (runHandlers counting (sideBySideFrom fun key => if key = "a" then some 0 else none)
          (deriveExecutionGraph (fun _ => none)
            [namedStep "a" [], namedStep "c" []]).1).Reachable s →
        s.phase = .returned → ∀ order,
          TopologicalOrder (deriveExecutionGraph (fun _ => none)
            [namedStep "a" [], namedStep "c" []]).1 order →
          (∀ id, id ∈ order ↔ id ∈ startedIds s.log) →
            s.context = runInOrder counting (deriveExecutionGraph (fun _ => none)
              [namedStep "a" [], namedStep "c" []]).1 order
                fun key => if key = "a" then some 0 else none := by
  refine ⟨counting_local ?_, ⟨rfl, by decide +kernel, rfl, rfl⟩, fun h => ?_⟩
  · intro hb
    exact absurd hb (by decide +kernel)
  · obtain ⟨s, hs, hphase, hstarted, hvalue⟩ := System.exists_reachable_of_exec
      (S := runHandlers counting (sideBySideFrom fun key => if key = "a" then some 0 else none)
        (deriveExecutionGraph (fun _ => none) [namedStep "a" [], namedStep "c" []]).1)
      [.schedule, .finish "a", .race "a", .schedule, .finish "c", .race "c", .schedule]
      (fun s => s.phase = .returned ∧ startedIds s.log = ["a", "c"] ∧ s.context "a" = some 0)
      rfl (by decide +kernel)
    have horder := h s hs hphase ["a", "c"]
      ⟨by decide, (Preceded.nil.snoc (by decide +kernel)).snoc (by decide +kernel)⟩
      (fun id => by rw [hstarted])
    rw [horder] at hvalue
    exact absurd hvalue (by decide +kernel)

end Orders

end Kyberion.Graph
