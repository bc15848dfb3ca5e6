import Kyberion.Workforce.SequenceNumbers
import Mathlib.Data.List.Induction

/-!
The compaction receipts of a worker journal. What a call has checked stays true
until it appends, because it holds the compaction lock; only a receipt on an
unended line can still disappear in between.
-/

namespace Kyberion.Workforce

open Js Transition

def WorkerOp.receipt : WorkerOp → Option CompactionSnapshotReceipt
  | .compactionCommit receipt => some receipt
  | _ => none

/-- The receipts among the records of a journal. -/
def receipts (events : List JournalEventEnvelope) : List CompactionSnapshotReceipt :=
  events.filterMap fun event => event.op.receipt

def receiptsFor (scope : String) (events : List JournalEventEnvelope) :
    List CompactionSnapshotReceipt :=
  (receipts events).filter fun receipt => receipt.scopeKey = scope

/-- The projected receipts of a scope. -/
def WorkerRestorableState.receipts (state : WorkerRestorableState) (scope : String) :
    List CompactionSnapshotReceipt :=
  (state.compactionSnapshots.bind fun record => record.fields.lookup scope).getD []

/-- Generations count from one, and every receipt names the one before as its parent. -/
def OneChain (chain : List CompactionSnapshotReceipt) : Prop :=
  chain.map (·.generation) = List.range' 1 chain.length ∧
    chain.map (·.parentId) = (none :: chain.map fun receipt => some receipt.id).dropLast

section Events

variable {isUuid : String → Bool} {events : List JournalEventEnvelope}
  {event : JournalEventEnvelope} {receipt : CompactionSnapshotReceipt}

theorem receipts_append (events later : List JournalEventEnvelope) :
    receipts (events ++ later) = receipts events ++ receipts later :=
  List.filterMap_append ..

theorem receipts_concat_other (h : event.op.receipt = none) :
    receipts (events ++ [event]) = receipts events := by
  simp [receipts, h]

theorem receipts_concat_receipt (h : event.op.receipt = some receipt) :
    receipts (events ++ [event]) = receipts events ++ [receipt] := by
  simp [receipts, h]

theorem receiptsFor_sublist {later : List JournalEventEnvelope} (h : events.Sublist later)
    (scope : String) : (receiptsFor scope events).Sublist (receiptsFor scope later) :=
  (h.filterMap _).filter _

theorem oneChain_nil : OneChain [] :=
  ⟨rfl, rfl⟩

theorem OneChain.generation_last {chain : List CompactionSnapshotReceipt} (h : OneChain chain) :
    (chain.getLast?.map (·.generation)).getD 0 = chain.length := by
  rw [← List.getLast?_map, h.1]
  cases chain with
  | nil => rfl
  | cons receipt chain => simp [List.getLast?_range']

theorem OneChain.concat {chain : List CompactionSnapshotReceipt} (h : OneChain chain)
    (hextends : extendsTip chain receipt = true) : OneChain (chain ++ [receipt]) := by
  simp only [extendsTip, Bool.and_eq_true, decide_eq_true_eq] at hextends
  obtain ⟨hparent, hgeneration⟩ := hextends
  rw [h.generation_last] at hgeneration
  refine ⟨?_, ?_⟩
  · rw [List.map_append, h.1, List.length_append, List.length_singleton, List.range'_concat,
      List.map_singleton, hgeneration, Nat.one_mul, Nat.add_comm]
  · have hlast : (none :: chain.map fun receipt => some receipt.id).getLast (by simp) =
        receipt.parentId := by
      rw [hparent]
      induction chain using List.reverseRecOn <;> simp
    rw [List.map_append, h.2, List.map_singleton, ← hlast, List.dropLast_append_getLast,
      List.map_append, List.map_singleton, ← List.cons_append, List.dropLast_concat]

theorem project_concat (events : List JournalEventEnvelope) (event : JournalEventEnvelope) :
    project isUuid (events ++ [event]) =
      (project isUuid events >>= fun state => projectEvent isUuid state event) := by
  simp only [project, List.foldlM_append, List.foldlM_cons, List.foldlM_nil, bind_pure]

/-- An operation that is no receipt is always applied, and keeps the receipts. -/
theorem projectEvent_other (state : WorkerRestorableState) (h : event.op.receipt = none) :
    ∃ state', projectEvent isUuid state event = .ok state' ∧
      state'.compactionSnapshots = state.compactionSnapshots := by
  obtain ⟨seq, ts, op⟩ := event
  cases op with
  | compactionCommit receipt => cases h
  | approvalResolve requestId =>
      simp only [projectEvent, WorkerOp.valid, WorkerOp.apply, if_true]
      split <;> exact ⟨_, rfl, rfl⟩
  | reminderConsume reminderId =>
      simp only [projectEvent, WorkerOp.valid, WorkerOp.apply, if_true]
      split <;> exact ⟨_, rfl, rfl⟩
  | goalUpsert goal => exact ⟨_, rfl, rfl⟩
  | goalCancel goalId reminderId => exact ⟨_, rfl, rfl⟩
  | delegationUpsert entry => exact ⟨_, rfl, rfl⟩
  | approvalRequest ref => exact ⟨_, rfl, rfl⟩
  | missionFork reminderId forkedFrom => exact ⟨_, rfl, rfl⟩

theorem snapshotsFor_congr {state state' : WorkerRestorableState}
    (h : state'.compactionSnapshots = state.compactionSnapshots) (scope : String) :
    snapshotsFor state' scope = snapshotsFor state scope := by
  rw [snapshotsFor, snapshotsFor, h]

/-- What `snapshotsFor` returns are the projected receipts. -/
theorem snapshotsFor_ok {state : WorkerRestorableState} {scope : String}
    {snapshots : List CompactionSnapshotReceipt} (h : snapshotsFor state scope = .ok snapshots) :
    snapshots = state.receipts scope := by
  unfold snapshotsFor at h
  unfold WorkerRestorableState.receipts
  split at h
  · rename_i hnone
    rw [hnone]
    exact (Except.ok.inj h).symm
  · rename_i record hrecord
    rw [hrecord]
    unfold Record.get at h
    cases hlookup : record.fields.lookup scope with
    | some own =>
        rw [hlookup] at h
        simp only [Option.bind_some, hlookup, Option.getD_some]
        exact (Except.ok.inj h).symm
    | none =>
        rw [hlookup] at h
        simp only [Option.bind_some, hlookup, Option.getD_none]
        by_cases hinherited : scope ∈ inheritedNames
        · rw [if_pos hinherited] at h
          cases h
        · rw [if_neg hinherited] at h
          exact (Except.ok.inj h).symm

theorem receipts_addSnapshot (state : WorkerRestorableState)
    (snapshots : List CompactionSnapshotReceipt) (scope : String) :
    (addSnapshot state snapshots receipt).receipts scope =
      if scope = receipt.scopeKey then snapshots ++ [receipt] else state.receipts scope := by
  simp only [WorkerRestorableState.receipts, addSnapshot, Option.bind_some, Record.lookup_set]
  split
  · rfl
  · cases state.compactionSnapshots <;> rfl

theorem snapshotsFor_of_addSnapshot {state : WorkerRestorableState} {scope : String}
    {snapshots found : List CompactionSnapshotReceipt} (hne : scope ≠ receipt.scopeKey)
    (h : snapshotsFor (addSnapshot state snapshots receipt) scope = .ok found) :
    snapshotsFor state scope = .ok found := by
  unfold snapshotsFor addSnapshot at h
  simp only [Record.get_set, if_neg hne] at h
  unfold snapshotsFor
  cases hrecord : state.compactionSnapshots with
  | some record => simpa [hrecord] using h
  | none =>
      rw [hrecord, Option.getD_none, Record.get_empty] at h
      by_cases hinherited : scope ∈ inheritedNames
      · rw [if_pos hinherited] at h
        cases h
      · rw [if_neg hinherited] at h
        exact h

/-- Applying a receipt skips one that is there already, or extends the chain of its scope. -/
theorem projectEvent_receipt {state state' : WorkerRestorableState}
    (hop : event.op.receipt = some receipt) (h : projectEvent isUuid state event = .ok state') :
    snapshotsFor state receipt.scopeKey = .ok (state.receipts receipt.scopeKey) ∧
      (receipt.id ∈ (state.receipts receipt.scopeKey).map (·.id) ∧ state' = state ∨
        extendsTip (state.receipts receipt.scopeKey) receipt = true ∧
          state' = addSnapshot state (state.receipts receipt.scopeKey) receipt) := by
  obtain ⟨seq, ts, op⟩ := event
  cases op <;> try cases hop
  unfold projectEvent at h
  split at h
  · obtain ⟨snapshots, hsnapshots, h⟩ := except_bind_ok h
    obtain rfl := snapshotsFor_ok hsnapshots
    refine ⟨hsnapshots, ?_⟩
    split at h
    · rename_i row hrow
      obtain ⟨-, heq⟩ := throwIf_eq_ok.mp h
      have hid : row.id = receipt.id := by simpa using List.find?_some hrow
      exact .inl ⟨List.mem_map.mpr ⟨row, List.mem_of_find?_eq_some hrow, hid⟩,
        (Except.ok.inj heq).symm⟩
    · obtain ⟨hextends, heq⟩ := throwIf_eq_ok.mp h
      exact .inr ⟨by simpa using hextends, (Except.ok.inj heq).symm⟩
  · cases h

/-- A journal that projects gives every scope its receipts, as one chain. -/
theorem project_receipts {state : WorkerRestorableState} (h : project isUuid events = .ok state)
    (hids : ((receipts events).map (·.id)).Nodup) (scope : String) :
    state.receipts scope = receiptsFor scope events ∧ OneChain (receiptsFor scope events) := by
  induction events using List.reverseRecOn generalizing state scope with
  | nil =>
      obtain rfl := Except.ok.inj h
      exact ⟨rfl, oneChain_nil⟩
  | append_singleton events event ih =>
      rw [project_concat] at h
      obtain ⟨before, hbefore, h⟩ := except_bind_ok h
      cases hop : event.op.receipt with
      | none =>
          rw [receipts_concat_other hop] at hids
          obtain ⟨state', hstate', hsame⟩ := projectEvent_other before hop
          obtain rfl := Except.ok.inj (hstate'.symm.trans h)
          rw [receiptsFor, receipts_concat_other hop, WorkerRestorableState.receipts, hsame]
          exact ih hbefore hids scope
      | some receipt =>
          rw [receipts_concat_receipt hop, List.map_append, List.nodup_append] at hids
          obtain ⟨hids, -, hnew⟩ := hids
          obtain ⟨hreceipts, hchain⟩ := ih hbefore hids scope
          have hconcat : receiptsFor scope (events ++ [event]) = if scope = receipt.scopeKey
              then receiptsFor scope events ++ [receipt] else receiptsFor scope events := by
            rw [receiptsFor, receipts_concat_receipt hop, List.filter_append]
            by_cases hscope : scope = receipt.scopeKey
            · subst hscope
              simp [receiptsFor]
            · simp [receiptsFor, hscope, Ne.symm hscope]
          rcases (projectEvent_receipt hop h).2 with ⟨hmem, -⟩ | ⟨hextends, rfl⟩
          · obtain ⟨row, hrow, hid⟩ := List.mem_map.mp hmem
            rw [(ih hbefore hids receipt.scopeKey).1] at hrow
            have hold := List.mem_map_of_mem (f := (·.id)) (List.mem_filter.mp hrow).1
            exact absurd hid (hnew row.id hold receipt.id (List.mem_singleton_self _))
          · rw [receipts_addSnapshot, hconcat]
            split
            · rename_i hscope
              subst hscope
              rw [hreceipts] at hextends ⊢
              exact ⟨rfl, hchain.concat hextends⟩
            · exact ⟨hreceipts, hchain⟩

/-- What a receipt that passes its check finds in the journal. -/
theorem checkCompaction_ok : checkCompaction isUuid events receipt = .ok () ↔
    ∃ state, project isUuid events = .ok state ∧
      snapshotsFor state receipt.scopeKey = .ok (state.receipts receipt.scopeKey) ∧
      fitsReceiptSchema isUuid receipt = true ∧
      extendsTip (state.receipts receipt.scopeKey) receipt = true := by
  constructor
  · intro h
    obtain ⟨state, hstate, h⟩ := except_bind_ok h
    obtain ⟨snapshots, hsnapshots, h⟩ := except_bind_ok h
    obtain ⟨hfits, h⟩ := throwIf_eq_ok.mp h
    obtain ⟨hextends, -⟩ := throwIf_eq_ok.mp h
    obtain rfl := snapshotsFor_ok hsnapshots
    exact ⟨state, hstate, hsnapshots, by simpa using hfits, by simpa using hextends⟩
  · rintro ⟨state, hstate, hsnapshots, hfits, hextends⟩
    simp only [checkCompaction, hstate, hsnapshots, except_ok_bind]
    simp [throwIf, hfits, hextends]

/-- A checked receipt can be appended. -/
theorem project_concat_receipt (hcheck : checkCompaction isUuid events receipt = .ok ())
    (hids : ((receipts events).map (·.id)).Nodup)
    (hnew : receipt.id ∉ (receipts events).map (·.id)) (hop : event.op = .compactionCommit receipt) :
    ∃ state, project isUuid (events ++ [event]) = .ok state := by
  obtain ⟨state, hstate, hsnapshots, hfits, hextends⟩ := checkCompaction_ok.mp hcheck
  rw [project_concat, hstate, except_ok_bind]
  have hvalid : event.op.valid isUuid = true := by rw [hop]; exact hfits
  rw [projectEvent, if_pos hvalid, hop, WorkerOp.apply, applyCompaction, hsnapshots, except_ok_bind]
  have habsent : (state.receipts receipt.scopeKey).find? (fun row => row.id = receipt.id) = none := by
    rw [List.find?_eq_none]
    intro row hrow hid
    rw [(project_receipts hstate hids receipt.scopeKey).1] at hrow
    exact hnew (List.mem_map.mpr ⟨row, (List.mem_filter.mp hrow).1, by simpa using hid⟩)
  rw [habsent]
  exact ⟨_, throwIf_eq_ok.mpr ⟨by simp [hextends], rfl⟩⟩

theorem project_concat_other (hproject : ∃ state, project isUuid events = .ok state)
    (hop : event.op.receipt = none) :
    ∃ state, project isUuid (events ++ [event]) = .ok state := by
  obtain ⟨state, hstate⟩ := hproject
  obtain ⟨state', hstate', -⟩ := projectEvent_other state hop
  exact ⟨state', by rw [project_concat, hstate, except_ok_bind, hstate']⟩

theorem project_of_concat (h : ∃ state, project isUuid (events ++ [event]) = .ok state) :
    ∃ state, project isUuid events = .ok state := by
  obtain ⟨state, hstate⟩ := h
  rw [project_concat] at hstate
  obtain ⟨before, hbefore, -⟩ := except_bind_ok hstate
  exact ⟨before, hbefore⟩

/-- A record that is no receipt does not change the outcome of a check. -/
theorem checkCompaction_concat_other (hop : event.op.receipt = none)
    (hcheck : checkCompaction isUuid events receipt = .ok ()) :
    checkCompaction isUuid (events ++ [event]) receipt = .ok () := by
  obtain ⟨state, hstate, hsnapshots, hfits, hextends⟩ := checkCompaction_ok.mp hcheck
  obtain ⟨state', hstate', hsame⟩ := projectEvent_other state hop
  refine checkCompaction_ok.mpr ⟨state', by rw [project_concat, hstate, except_ok_bind, hstate'], ?_⟩
  rw [snapshotsFor_congr hsame, WorkerRestorableState.receipts, hsame]
  exact ⟨hsnapshots, hfits, hextends⟩

/-- A check that passes does so without the last record, unless that is a receipt of its scope. -/
theorem checkCompaction_of_concat
    (hother : ∀ last, event.op.receipt = some last → last.scopeKey ≠ receipt.scopeKey)
    (hcheck : checkCompaction isUuid (events ++ [event]) receipt = .ok ()) :
    checkCompaction isUuid events receipt = .ok () := by
  obtain ⟨state', hstate', hsnapshots, hfits, hextends⟩ := checkCompaction_ok.mp hcheck
  rw [project_concat] at hstate'
  obtain ⟨state, hstate, hevent⟩ := except_bind_ok hstate'
  have hbefore : snapshotsFor state receipt.scopeKey = .ok (state'.receipts receipt.scopeKey) := by
    cases hop : event.op.receipt with
    | none =>
        obtain ⟨other, hother, hkeeps⟩ := projectEvent_other state hop
        obtain rfl := Except.ok.inj (hother.symm.trans hevent)
        rw [← snapshotsFor_congr hkeeps, hsnapshots]
    | some last =>
        rcases (projectEvent_receipt hop hevent).2 with ⟨-, rfl⟩ | ⟨-, rfl⟩
        · exact hsnapshots
        · exact snapshotsFor_of_addSnapshot (hother last hop).symm hsnapshots
  have hsame := snapshotsFor_ok hbefore
  exact checkCompaction_ok.mpr ⟨state, hstate, hsame ▸ hbefore, hfits, hsame ▸ hextends⟩

end Events

end Kyberion.Workforce
