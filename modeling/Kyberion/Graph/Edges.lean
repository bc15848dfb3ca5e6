import Kyberion.Graph.DispatchSafety
import Kyberion.Visit
import Mathlib.Data.Set.Card

/-!
The edges of an execution graph: those that the steps declare, and the implied ones that let an
undeclared step follow the one before it.
-/

namespace Kyberion.Graph

open Kyberion.Pipeline

variable {V : Type} (exportAs : V → Option String) (steps : List (AdfStep V))

def stepIds : List String :=
  steps.zipIdx.map fun (step, index) => nodeId index step

/-- The step before a step with a condition that names no dependency. -/
def previousId (index : ℕ) : Option String :=
  if 0 < index then (stepIds steps)[index - 1]? else none

/-- The edges that `depends_on`, `consumes` and `when` of the step at an index declare. -/
inductive DeclaredBy (i : ℕ) (step : AdfStep V) : GraphEdge → Prop
  | dependsOn {d : String} : d ∈ step.fields.dependsOn.getD [] →
      DeclaredBy i step ⟨d, nodeId i step, .control, none⟩
  | consumes {j : ℕ} {producer : AdfStep V} {channel : String} :
      channel ∈ step.fields.consumes.getD [] → steps[j]? = some producer →
      producedChannel exportAs producer = some channel →
      DeclaredBy i step ⟨nodeId j producer, nodeId i step, .data, some channel⟩
  | when_ {d : String} : step.fields.when_.isSome →
      (truthy (step.fields.dependsOn.getD []).head?).or (previousId steps i) = some d →
      DeclaredBy i step ⟨d, nodeId i step, .when_, none⟩
  | whenFrom {j : ℕ} {producer : AdfStep V} {condition : When V} {channel : String} :
      step.fields.when_ = some condition → condition.from_ = some channel →
      steps[j]? = some producer → producedChannel exportAs producer = some channel →
      DeclaredBy i step ⟨nodeId j producer, nodeId i step, .when_, some channel⟩

def Declared (e : GraphEdge) : Prop :=
  ∃ i step, steps[i]? = some step ∧ DeclaredBy exportAs steps i step e

/-- The edges that are added to a step without an edge into it. -/
inductive Implied : GraphEdge → Prop
  | follows {i : ℕ} {previous step : AdfStep V} : steps[i]? = some previous →
      steps[i + 1]? = some step →
      (∀ e, Declared exportAs steps e → e.target ≠ nodeId (i + 1) step) →
      isGraphDeclared steps = false ∨
        step.fields.dependsOn.isNone ∧ step.fields.consumes.isNone →
      Implied ⟨nodeId i previous, nodeId (i + 1) step, .control, none⟩

def InGraph (e : GraphEdge) : Prop :=
  Declared exportAs steps e ∨ Implied exportAs steps e

variable {exportAs steps} {edges : List GraphEdge} {e edge : GraphEdge} {ids : List String}

section Adding

theorem mem_addEdge : e ∈ addEdge edges edge ↔ e ∈ edges ∨ e = edge := by
  unfold addEdge
  split
  · rw [List.mem_append, List.mem_singleton]
  · split
    · rename_i hmem
      exact ⟨.inl, fun h => h.elim id fun heq => heq ▸ hmem⟩
    · rw [List.mem_append, List.mem_singleton]

/-- A fold whose rounds each add some edges. -/
theorem mem_foldl {α : Type} {l : List α} {f : List GraphEdge → α → List GraphEdge}
    {P : α → Prop} (h : ∀ edges, ∀ a ∈ l, e ∈ f edges a ↔ e ∈ edges ∨ P a) :
    e ∈ l.foldl f edges ↔ e ∈ edges ∨ ∃ a ∈ l, P a := by
  induction l generalizing edges with
  | nil => simp
  | cons a l ih =>
      rw [List.foldl_cons, ih fun edges b hb => h edges b (List.mem_cons_of_mem a hb),
        h edges a List.mem_cons_self, or_assoc, List.exists_mem_cons_iff]

/-- Only an edge from a node to itself is there twice. -/
def NodupJoins (edges : List GraphEdge) : Prop :=
  (edges.filter fun e => e.source ≠ e.target).Nodup

theorem NodupJoins.addEdge (h : NodupJoins edges) : NodupJoins (addEdge edges edge) := by
  unfold NodupJoins Pipeline.addEdge
  split
  · rename_i hself
    have hnone : [edge].filter (fun e => e.source ≠ e.target) = [] := by simp [hself]
    rw [List.filter_append, hnone, List.append_nil]
    exact h
  · split
    · exact h
    · rename_i hnot
      rw [List.filter_append]
      refine h.append (List.Nodup.filter _ (List.nodup_singleton edge)) fun x hx hedge => ?_
      obtain rfl := List.mem_singleton.mp (List.mem_filter.mp hedge).1
      exact hnot (List.mem_filter.mp hx).1

theorem NodupJoins.foldl {α : Type} {l : List α} {f : List GraphEdge → α → List GraphEdge}
    (h : NodupJoins edges) (hf : ∀ edges a, NodupJoins edges → NodupJoins (f edges a)) :
    NodupJoins (l.foldl f edges) :=
  List.foldlRecOn l f h fun edges hedges a _ => hf edges a hedges

end Adding

section Declaring

theorem getElem?_stepIds (i : ℕ) : (stepIds steps)[i]? = steps[i]?.map (nodeId i) := by
  rw [stepIds, List.getElem?_map, List.getElem?_zipIdx, Option.map_map]
  cases steps[i]? <;> simp

theorem mem_stepIds {id : String} :
    id ∈ stepIds steps ↔ ∃ i step, steps[i]? = some step ∧ nodeId i step = id := by
  simp only [List.mem_iff_getElem?, getElem?_stepIds, Option.map_eq_some_iff]

theorem nodeId_mem {i : ℕ} {step : AdfStep V} (h : steps[i]? = some step) :
    nodeId i step ∈ stepIds steps :=
  mem_stepIds.mpr ⟨i, step, h, rfl⟩

theorem mem_zip_stepIds {id : String} {step : AdfStep V} {i : ℕ} :
    ((stepIds steps).zip steps)[i]? = some (id, step) ↔
      steps[i]? = some step ∧ id = nodeId i step := by
  rw [List.getElem?_zip_eq_some, getElem?_stepIds, Option.map_eq_some_iff]
  constructor
  · rintro ⟨⟨other, hother, rfl⟩, hstep⟩
    obtain rfl := Option.some.inj (hother.symm.trans hstep)
    exact ⟨hstep, rfl⟩
  · rintro ⟨hstep, rfl⟩
    exact ⟨⟨step, hstep, rfl⟩, hstep⟩

theorem mem_producersOf {channel producer : String} :
    producer ∈ producersOf exportAs (stepIds steps) steps channel ↔
      ∃ j step, steps[j]? = some step ∧ producedChannel exportAs step = some channel ∧
        producer = nodeId j step := by
  rw [producersOf, List.mem_filterMap]
  constructor
  · rintro ⟨⟨id, step⟩, hmem, hid⟩
    obtain ⟨j, hj⟩ := List.mem_iff_getElem?.mp hmem
    obtain ⟨hstep, rfl⟩ := mem_zip_stepIds.mp hj
    obtain ⟨hchannel, hid⟩ := Option.ite_none_right_eq_some.mp hid
    exact ⟨j, step, hstep, hchannel, (Option.some.inj hid).symm⟩
  · rintro ⟨j, step, hstep, hchannel, rfl⟩
    exact ⟨(nodeId j step, step), List.mem_iff_getElem?.mpr ⟨j, mem_zip_stepIds.mpr ⟨hstep, rfl⟩⟩,
      if_pos hchannel⟩

theorem previousId_mem {i : ℕ} {d : String} (h : previousId steps i = some d) :
    d ∈ stepIds steps :=
  List.mem_iff_getElem?.mpr ⟨i - 1, (Option.ite_none_right_eq_some.mp h).2⟩

/-- Every dependency is the id of a step. -/
def KnownDependencies (steps : List (AdfStep V)) : Prop :=
  ∀ step ∈ steps, ∀ d ∈ step.fields.dependsOn.getD [], d ∈ stepIds steps

theorem guard_mem (hknown : KnownDependencies steps) {i : ℕ} {step : AdfStep V} {d : String}
    (hstep : step ∈ steps)
    (h : (truthy (step.fields.dependsOn.getD []).head?).or (previousId steps i) = some d) :
    d ∈ stepIds steps := by
  rcases Option.or_eq_some_iff.mp h with hfirst | ⟨-, hprevious⟩
  · obtain ⟨hhead, -⟩ := Option.filter_eq_some_iff.mp hfirst
    exact hknown step hstep d (List.mem_of_head? hhead)
  · exact previousId_mem hprevious

/-- An edge of a kind from a producer of a channel. -/
def FromProducer (exportAs : V → Option String) (steps : List (AdfStep V)) (target : String)
    (kind : GraphEdgeKind) (channel : String) (e : GraphEdge) : Prop :=
  ∃ producer ∈ producersOf exportAs (stepIds steps) steps channel,
    e = ⟨producer, target, kind, some channel⟩

theorem declaredBy_iff {i : ℕ} {step : AdfStep V} :
    DeclaredBy exportAs steps i step e ↔
      (∃ d ∈ step.fields.dependsOn.getD [], e = ⟨d, nodeId i step, .control, none⟩) ∨
      (∃ channel ∈ step.fields.consumes.getD [],
        FromProducer exportAs steps (nodeId i step) .data channel e) ∨
      (∃ d, step.fields.when_.isSome ∧
        (truthy (step.fields.dependsOn.getD []).head?).or (previousId steps i) = some d ∧
          e = ⟨d, nodeId i step, .when_, none⟩) ∨
      ∃ condition channel, step.fields.when_ = some condition ∧ condition.from_ = some channel ∧
        FromProducer exportAs steps (nodeId i step) .when_ channel e := by
  simp only [FromProducer, mem_producersOf]
  constructor
  · rintro (⟨hd⟩ | ⟨hchannel, hproducer, hproduced⟩ | ⟨hwhen, hguard⟩ |
      ⟨hwhen, hfrom, hproducer, hproduced⟩)
    · exact .inl ⟨_, hd, rfl⟩
    · exact .inr (.inl ⟨_, hchannel, _, ⟨_, _, hproducer, hproduced, rfl⟩, rfl⟩)
    · exact .inr (.inr (.inl ⟨_, hwhen, hguard, rfl⟩))
    · exact .inr (.inr (.inr ⟨_, _, hwhen, hfrom, _, ⟨_, _, hproducer, hproduced, rfl⟩, rfl⟩))
  · rintro (⟨d, hd, rfl⟩ | ⟨channel, hchannel, _, ⟨j, producer, hproducer, hproduced, rfl⟩, rfl⟩ |
      ⟨d, hwhen, hguard, rfl⟩ |
      ⟨condition, channel, hwhen, hfrom, _, ⟨j, producer, hproducer, hproduced, rfl⟩, rfl⟩)
    · exact .dependsOn hd
    · exact .consumes hchannel hproducer hproduced
    · exact .when_ hwhen hguard
    · exact .whenFrom hwhen hfrom hproducer hproduced

/-- What the round of a step adds. -/
theorem mem_stepEdges (hknown : KnownDependencies steps) {i : ℕ} {step : AdfStep V}
    (hstep : steps[i]? = some step) :
    e ∈ stepEdges exportAs (stepIds steps) steps i step edges ↔
      e ∈ edges ∨ DeclaredBy exportAs steps i step e := by
  have hdepends : ∀ edges, e ∈ (step.fields.dependsOn.getD []).foldl (fun edges d =>
        if d ∈ stepIds steps then addEdge edges ⟨d, nodeId i step, .control, none⟩ else edges)
        edges ↔ e ∈ edges ∨ ∃ d ∈ step.fields.dependsOn.getD [],
          e = ⟨d, nodeId i step, .control, none⟩ := by
    intro edges
    refine mem_foldl fun edges d hd => ?_
    rw [if_pos (hknown step (List.mem_of_getElem? hstep) d hd), mem_addEdge]
  have hproducers : ∀ edges kind channel,
      e ∈ (producersOf exportAs (stepIds steps) steps channel).foldl (fun edges producer =>
        addEdge edges ⟨producer, nodeId i step, kind, some channel⟩) edges ↔
        e ∈ edges ∨ FromProducer exportAs steps (nodeId i step) kind channel e :=
    fun edges kind channel => mem_foldl fun edges producer _ => mem_addEdge
  have hconsumes : ∀ edges, e ∈ (step.fields.consumes.getD []).foldl (fun edges channel =>
        (producersOf exportAs (stepIds steps) steps channel).foldl (fun edges producer =>
          addEdge edges ⟨producer, nodeId i step, .data, some channel⟩) edges) edges ↔
        e ∈ edges ∨ ∃ channel ∈ step.fields.consumes.getD [],
          FromProducer exportAs steps (nodeId i step) .data channel e :=
    fun edges => mem_foldl fun edges channel _ => hproducers edges .data channel
  -- every guard is a step, so that the filter keeps it
  have hguard : ((truthy (step.fields.dependsOn.getD []).head?).or
        (if 0 < i then (stepIds steps)[i - 1]? else none)).filter (· ∈ stepIds steps) =
      (truthy (step.fields.dependsOn.getD []).head?).or (previousId steps i) := by
    change ((truthy (step.fields.dependsOn.getD []).head?).or (previousId steps i)).filter _ = _
    cases hor : (truthy (step.fields.dependsOn.getD []).head?).or (previousId steps i) with
    | none => rfl
    | some d =>
        have hmem := guard_mem hknown (List.mem_of_getElem? hstep) hor
        simp [Option.filter, hmem]
  rw [declaredBy_iff]
  unfold stepEdges
  cases hcondition : step.fields.when_ with
  | none =>
      refine (hconsumes _).trans ?_
      rw [hdepends]
      simp [or_assoc]
  | some condition =>
      cases hor : (truthy (step.fields.dependsOn.getD []).head?).or (previousId steps i) with
      | none =>
          cases hfrom : condition.from_ with
          | none =>
              simp only [hfrom, hguard, hor]
              rw [hconsumes, hdepends]
              simp [or_assoc, hfrom, hor]
          | some channel =>
              simp only [hfrom, hguard, hor]
              rw [hproducers, hconsumes, hdepends]
              simp [or_assoc, hfrom, hor]
      | some d =>
          cases hfrom : condition.from_ with
          | none =>
              simp only [hfrom, hguard, hor]
              rw [mem_addEdge, hconsumes, hdepends]
              simp [or_assoc, hfrom, hor]
          | some channel =>
              simp only [hfrom, hguard, hor]
              rw [hproducers, mem_addEdge, hconsumes, hdepends]
              simp [or_assoc, hfrom, hor]

theorem mem_declared (hknown : KnownDependencies steps) :
    e ∈ steps.zipIdx.foldl (fun edges (step, index) =>
      stepEdges exportAs (stepIds steps) steps index step edges) [] ↔ Declared exportAs steps e := by
  have hround : ∀ edges, ∀ a ∈ steps.zipIdx,
      e ∈ stepEdges exportAs (stepIds steps) steps a.2 a.1 edges ↔
        e ∈ edges ∨ DeclaredBy exportAs steps a.2 a.1 e := by
    intro edges a ha
    exact mem_stepEdges hknown (List.mem_zipIdx_iff_getElem?.mp ha)
  refine (mem_foldl hround).trans ?_
  simp only [List.not_mem_nil, false_or, Declared, Prod.exists, List.mem_zipIdx_iff_getElem?]
  exact exists_comm

theorem NodupJoins.stepEdges {i : ℕ} {step : AdfStep V} (h : NodupJoins edges) :
    NodupJoins (stepEdges exportAs ids steps i step edges) := by
  have hdepends : NodupJoins ((step.fields.dependsOn.getD []).foldl (fun edges d =>
      if d ∈ ids then Pipeline.addEdge edges ⟨d, nodeId i step, .control, none⟩ else edges)
      edges) := by
    refine h.foldl fun edges d hedges => ?_
    split
    · exact hedges.addEdge
    · exact hedges
  have hproducers {edges : List GraphEdge} {kind : GraphEdgeKind} {channel : String}
      (hedges : NodupJoins edges) :
      NodupJoins ((producersOf exportAs ids steps channel).foldl (fun edges producer =>
        Pipeline.addEdge edges ⟨producer, nodeId i step, kind, some channel⟩) edges) :=
    hedges.foldl fun edges producer hedges => hedges.addEdge
  have hconsumes : NodupJoins ((step.fields.consumes.getD []).foldl (fun edges channel =>
      (producersOf exportAs ids steps channel).foldl (fun edges producer =>
        Pipeline.addEdge edges ⟨producer, nodeId i step, .data, some channel⟩) edges) _) :=
    hdepends.foldl fun edges channel hedges => hproducers hedges
  unfold Pipeline.stepEdges
  dsimp only
  split
  · exact hconsumes
  · split
    · split
      · exact hconsumes.addEdge
      · exact hconsumes
    · split
      · exact hproducers hconsumes.addEdge
      · exact hproducers hconsumes

theorem stepIds_nodup_inj (hids : (stepIds steps).Nodup) {i j : ℕ} {step other : AdfStep V}
    (hi : steps[i]? = some step) (hj : steps[j]? = some other)
    (heq : nodeId i step = nodeId j other) : i = j := by
  have hlt : i < (stepIds steps).length := by
    simpa [stepIds] using (List.getElem?_eq_some_iff.mp hi).1
  refine (List.getElem?_inj hlt hids).mp ?_
  rw [getElem?_stepIds, getElem?_stepIds, hi, hj, Option.map_some, Option.map_some, heq]

/-- The rounds of a fold that adds an edge to a target where none leads to yet. -/
theorem mem_foldl_vacant {α : Type} {l : List α} {key : α → String} {f : α → GraphEdge}
    {p q : α → Prop} [DecidablePred p] [DecidablePred q] (hkeys : (l.map key).Nodup)
    (hf : ∀ a, (f a).target = key a) :
    e ∈ l.foldl (fun edges a =>
        if p a ∧ (edges.any fun edge => edge.target = key a) = false ∧ q a then addEdge edges (f a)
        else edges) edges ↔
      e ∈ edges ∨ ∃ a ∈ l, (p a ∧ (∀ edge ∈ edges, edge.target ≠ key a) ∧ q a) ∧ e = f a := by
  induction l generalizing edges with
  | nil => simp
  | cons a l ih =>
      rw [List.map_cons, List.nodup_cons] at hkeys
      rw [List.foldl_cons, ih hkeys.2]
      have hother : ∀ b ∈ l, key a ≠ key b := by
        intro b hb heq
        exact hkeys.1 (heq ▸ List.mem_map_of_mem hb)
      have hvacant : (edges.any fun edge => edge.target = key a) = false ↔
          ∀ edge ∈ edges, edge.target ≠ key a := by simp
      rw [List.exists_mem_cons_iff]
      by_cases hadd : p a ∧ (∀ edge ∈ edges, edge.target ≠ key a) ∧ q a
      · have hkeeps : ∀ b ∈ l, (∀ edge ∈ addEdge edges (f a), edge.target ≠ key b) ↔
            ∀ edge ∈ edges, edge.target ≠ key b := by
          intro b hb
          refine ⟨fun h edge hedge => h edge (mem_addEdge.mpr (.inl hedge)), fun h edge hedge => ?_⟩
          rcases mem_addEdge.mp hedge with hold | rfl
          · exact h edge hold
          · exact hf a ▸ hother b hb
        rw [if_pos ⟨hadd.1, hvacant.mpr hadd.2.1, hadd.2.2⟩, mem_addEdge, or_assoc]
        refine or_congr_right (or_congr (iff_and_self.mpr fun _ => hadd) ?_)
        refine exists_congr fun b => and_congr_right fun hb => and_congr_left' ?_
        exact and_congr_right' (and_congr_left' (hkeeps b hb))
      · rw [if_neg fun h => hadd ⟨h.1, hvacant.mp h.2.1, h.2.2⟩]
        exact or_congr_right ⟨.inr, fun h => h.resolve_left fun h => hadd h.1⟩

end Declaring

section Deriving

/-- The edges of the derived graph. -/
def graphEdges (exportAs : V → Option String) (steps : List (AdfStep V)) : List GraphEdge :=
  chainEdges (stepIds steps) steps (steps.zipIdx.foldl (fun edges (step, index) =>
    stepEdges exportAs (stepIds steps) steps index step edges) [])

theorem mem_chained {id : String} {step : AdfStep V} {i : ℕ} :
    ((id, step), i) ∈ ((stepIds steps).zip steps).zipIdx ↔
      steps[i]? = some step ∧ id = nodeId i step := by
  rw [List.mem_zipIdx_iff_getElem?]
  exact mem_zip_stepIds

theorem mem_graphEdges (hids : (stepIds steps).Nodup) (hknown : KnownDependencies steps) :
    e ∈ graphEdges exportAs steps ↔ InGraph exportAs steps e := by
  have hkeys : (((stepIds steps).zip steps).zipIdx.map fun a => a.1.1).Nodup := by
    have hmap : (((stepIds steps).zip steps).zipIdx.map fun a => a.1.1) =
        (((stepIds steps).zip steps).zipIdx.map Prod.fst).map Prod.fst := by
      rw [List.map_map]
      rfl
    rw [hmap, List.zipIdx_map_fst, List.map_fst_zip (by simp [stepIds])]
    exact hids
  refine (mem_foldl_vacant (f := fun a : (String × AdfStep V) × ℕ =>
    ⟨(stepIds steps).getD (a.2 - 1) "", a.1.1, .control, none⟩) (p := fun a => 0 < a.2)
    (q := fun a => isGraphDeclared steps = false ∨ a.1.2.fields.dependsOn.isNone ∧
      a.1.2.fields.consumes.isNone) hkeys fun a => rfl).trans ?_
  simp only [mem_declared hknown, Prod.exists, mem_chained]
  have hsource : ∀ i previous, steps[i]? = some previous →
      (stepIds steps).getD (i + 1 - 1) "" = nodeId i previous := by
    intro i previous hprevious
    rw [Nat.add_sub_cancel, List.getD_eq_getElem?_getD, getElem?_stepIds, hprevious]
    rfl
  refine or_congr_right ⟨?_, ?_⟩
  · rintro ⟨id, step, i, ⟨hstep, rfl⟩, ⟨hpos, hvacant, hplain⟩, rfl⟩
    obtain ⟨i, rfl⟩ := Nat.exists_eq_add_of_le' hpos
    have hlt := (List.getElem?_eq_some_iff.mp hstep).1
    have hprevious : steps[i]? = some steps[i] := List.getElem?_eq_getElem (by omega)
    rw [hsource i _ hprevious]
    exact .follows hprevious hstep hvacant hplain
  · rintro ⟨hprevious, hstep, hvacant, hplain⟩
    refine ⟨_, _, _, ⟨hstep, rfl⟩, ⟨Nat.succ_pos _, hvacant, hplain⟩, ?_⟩
    rw [hsource _ _ hprevious]

theorem graphEdges_nodupJoins : NodupJoins (graphEdges exportAs steps) := by
  have hdeclared : NodupJoins (steps.zipIdx.foldl (fun edges (step, index) =>
      stepEdges exportAs (stepIds steps) steps index step edges) []) :=
    NodupJoins.foldl List.nodup_nil fun edges a hedges => hedges.stepEdges
  refine hdeclared.foldl fun edges a hedges => ?_
  dsimp only
  split
  · exact hedges.addEdge
  · exact hedges

/-- Edges join nodes. -/
theorem InGraph.mem (hknown : KnownDependencies steps) (h : InGraph exportAs steps e) :
    e.source ∈ stepIds steps ∧ e.target ∈ stepIds steps := by
  rcases h with ⟨i, step, hstep, hdeclared⟩ | ⟨hprevious, hstep, -, -⟩
  · cases hdeclared with
    | dependsOn hd => exact ⟨hknown step (List.mem_of_getElem? hstep) _ hd, nodeId_mem hstep⟩
    | consumes _ hproducer _ => exact ⟨nodeId_mem hproducer, nodeId_mem hstep⟩
    | when_ _ hguard =>
        exact ⟨guard_mem hknown (List.mem_of_getElem? hstep) hguard, nodeId_mem hstep⟩
    | whenFrom _ _ hproducer _ => exact ⟨nodeId_mem hproducer, nodeId_mem hstep⟩
  · exact ⟨nodeId_mem hprevious, nodeId_mem hstep⟩

end Deriving

end Kyberion.Graph
