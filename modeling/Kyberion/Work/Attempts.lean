import Kyberion.Work.Ownership
import Kyberion.Work.Versions

/-!
The attempts of an item under the operations of the store: as long as an item is claimed only when
none of its attempts runs, at most one does, it is the current one, and a live lease of the item is
the lease it runs under.
-/

namespace Kyberion.Work

open Js (isBlank trim)

section Snapshots

def WorkItem.runIds (item : WorkItem) : List String :=
  item.attemptList.map (·.runId)

/-- No attempt of the item runs. -/
def Stopped (item : WorkItem) : Prop :=
  ∀ a ∈ item.attemptList, a.status ≠ .running

/-- A running attempt is the current one, has not ended, and names a lease. -/
structure OneRunning (item : WorkItem) : Prop where
  named : ∀ id ∈ item.runIds, id ≠ ""
  distinct : item.runIds.Nodup
  running : ∀ a ∈ item.attemptList, a.status = .running →
    item.currentAttemptId = some a.runId ∧ a.endedAt = none ∧
      ∃ id, a.leaseId = some id ∧ IsId id

variable {current x : WorkItem} {a b : WorkItemAttempt}

theorem OneRunning.eq (h : OneRunning x) (ha : a ∈ x.attemptList) (hb : b ∈ x.attemptList)
    (hid : a.runId = b.runId) : a = b :=
  List.inj_on_of_nodup_map h.distinct ha hb hid

theorem Stopped.oneRunning (h : Stopped x) (hnamed : ∀ id ∈ x.runIds, id ≠ "")
    (hdistinct : x.runIds.Nodup) : OneRunning x where
  named := hnamed
  distinct := hdistinct
  running a ha hrun := absurd hrun (h a ha)

theorem boundItemAttempts_attemptList (x : WorkItem) :
    ∃ n, (boundItemAttempts x).attemptList = x.attemptList.drop n := by
  unfold boundItemAttempts
  split
  · exact ⟨0, rfl⟩
  · rename_i attempts hattempts
    split
    · exact ⟨0, rfl⟩
    · exact ⟨_, by rw [WorkItem.attemptList, WorkItem.attemptList, hattempts]; rfl⟩

theorem line_attemptList (x : WorkItem) :
    ∃ n, x.line.attemptList = (x.attemptList.drop n).map WorkItemAttempt.persisted := by
  obtain ⟨n, h⟩ := boundItemAttempts_attemptList x
  refine ⟨n, ?_⟩
  rw [← h]
  show ((boundItemAttempts x).attempts.map fun attempts =>
    attempts.map WorkItemAttempt.persisted).getD [] = ((boundItemAttempts x).attempts.getD []).map _
  cases (boundItemAttempts x).attempts <;> rfl

theorem mem_line_attemptList (ha : a ∈ x.line.attemptList) :
    ∃ b ∈ x.attemptList, b.persisted = a := by
  obtain ⟨n, h⟩ := line_attemptList x
  rw [h] at ha
  obtain ⟨b, hb, heq⟩ := List.mem_map.mp ha
  exact ⟨b, List.mem_of_mem_drop hb, heq⟩

theorem line_runIds_sublist (x : WorkItem) : x.line.runIds.Sublist x.runIds := by
  obtain ⟨n, h⟩ := line_attemptList x
  rw [WorkItem.runIds, h, List.map_map]
  exact (List.drop_sublist n x.attemptList).map _

theorem line_currentAttemptId (x : WorkItem) : x.line.currentAttemptId = x.currentAttemptId := by
  obtain ⟨attempts, h⟩ := boundItemAttempts_eq x
  show (boundItemAttempts x).currentAttemptId = x.currentAttemptId
  rw [h]

theorem OneRunning.line (h : OneRunning x) : OneRunning x.line where
  named id hid := h.named id ((line_runIds_sublist x).subset hid)
  distinct := h.distinct.sublist (line_runIds_sublist x)
  running a ha hrun := by
    obtain ⟨b, hb, rfl⟩ := mem_line_attemptList ha
    rw [line_currentAttemptId]
    exact h.running b hb hrun

theorem set_runIds {attempts : List WorkItemAttempt} {index : ℕ} {previous next : WorkItemAttempt}
    (hat : attempts[index]? = some previous) (hid : next.runId = previous.runId) :
    (attempts.set index next).map (·.runId) = attempts.map (·.runId) := by
  rw [List.map_set, hid]
  apply List.ext_getElem?
  intro i
  rw [List.getElem?_set]
  split
  · rename_i heq
    subst heq
    rw [List.getElem?_map, hat]
    obtain ⟨hlt, -⟩ := List.getElem?_eq_some_iff.mp hat
    simp [hlt]
  · rfl

/-- The only attempt that may run, replaced by one of its run that does not. -/
theorem set_stopped {attempts : List WorkItemAttempt} {index : ℕ} {previous next : WorkItemAttempt}
    (hdistinct : (attempts.map (·.runId)).Nodup) (hat : attempts[index]? = some previous)
    (hid : next.runId = previous.runId) (hstatus : next.status ≠ .running)
    (hrun : ∀ a ∈ attempts, a.status = .running → a.runId = previous.runId) :
    ∀ a ∈ attempts.set index next, a.status ≠ .running := by
  intro a ha hstill
  have hlt := (List.getElem?_eq_some_iff.mp hat).1
  rw [← set_runIds hat hid] at hdistinct
  have heq : a = next := by
    rcases List.mem_or_eq_of_mem_set ha with hold | heq
    · exact List.inj_on_of_nodup_map hdistinct ha (List.mem_set hlt _)
        ((hrun a hold hstill).trans hid.symm)
    · exact heq
  exact hstatus (heq ▸ hstill)

section Finalize

variable {now : ℤ} {status : WorkItemAttemptStatus} {input : AttemptEnd}

theorem finalize_runIds (now : ℤ) (current : WorkItem) (status : WorkItemAttemptStatus)
    (input : AttemptEnd) :
    (finalizeWorkItemAttempt now current status input).attempts.map (·.runId) =
      current.runIds := by
  unfold finalizeWorkItemAttempt
  split
  · rfl
  · rename_i index hindex
    split
    · rfl
    · rename_i previous hprevious
      exact set_runIds hprevious rfl

theorem attemptIndex_running (h : OneRunning current) (ha : a ∈ current.attemptList)
    (hrun : a.status = .running) :
    attemptIndex current = current.attemptList.findIdx? fun b => b.runId = a.runId := by
  have hne : a.runId ≠ "" := h.named _ (List.mem_map_of_mem ha)
  have htruthy : truthy current.currentAttemptId = some a.runId := by
    simp [truthy, (h.running a ha hrun).1, hne]
  rw [attemptIndex, htruthy]

/-- What ends is the attempt that runs, if one does. -/
theorem finalize_stopped (h : OneRunning current) (hstatus : status ≠ .running) :
    ∀ a ∈ (finalizeWorkItemAttempt now current status input).attempts, a.status ≠ .running := by
  unfold finalizeWorkItemAttempt
  cases hat : attemptIndex current with
  | none =>
      intro a ha hrun
      rw [attemptIndex_running h ha hrun, List.findIdx?_eq_none_iff] at hat
      simpa using hat a ha
  | some index =>
      cases hprevious : current.attemptList[index]? with
      | none =>
          intro a ha hrun
          simp only [hprevious] at ha
          rw [attemptIndex_running h ha hrun] at hat
          have hlt := (List.findIdx?_eq_some_iff_getElem.mp hat).1
          rw [List.getElem?_eq_none_iff] at hprevious
          omega
      | some previous =>
          simp only [hprevious]
          refine set_stopped h.distinct hprevious rfl hstatus fun a ha hrun => ?_
          rw [attemptIndex_running h ha hrun] at hat
          obtain ⟨_, hmatch, -⟩ := List.findIdx?_eq_some_iff_getElem.mp hat
          obtain ⟨_, hget⟩ := List.getElem?_eq_some_iff.mp hprevious
          rw [hget] at hmatch
          exact (of_decide_eq_true hmatch).symm

end Finalize

end Snapshots

/-- Every current item has at most one running attempt, and a live lease of the item is its. -/
structure Attended (now : ℤ) (s : Store) : Prop where
  stored : ∀ item ∈ s.currentWorkItems, Stored item
  single : ∀ item ∈ s.currentWorkItems, OneRunning item
  leased : ∀ item ∈ s.currentWorkItems, ∀ a ∈ item.attemptList, a.status = .running →
    ∀ lease ∈ s.currentLeaseRecords, lease.itemId = item.itemId → lease.live now = true →
      a.leaseId = some lease.leaseId

section Edits

variable {s : Store} {now : ℤ} {current x : WorkItem} {r lease : WorkLease}

theorem Attended.initial (now : ℤ) : Attended now .empty where
  stored _ h := nomatch h
  single _ h := nomatch h
  leased _ h := nomatch h

theorem WorkLease.live_mono {now' : ℤ} (h : lease.live now' = true) (hle : now ≤ now') :
    lease.live now = true := by
  simp only [WorkLease.live, Bool.and_eq_true, decide_eq_true_eq] at h ⊢
  exact ⟨h.1, lt_of_le_of_lt hle h.2⟩

theorem Attended.advance {now' : ℤ} (h : Attended now s) (hle : now ≤ now') : Attended now' s where
  stored := h.stored
  single := h.single
  leased item hitem a ha hrun lease hmem hsame hlive :=
    h.leased item hitem a ha hrun lease hmem hsame (WorkLease.live_mono hlive hle)

/-- A lease record appended under an id that has none, or has one of the same item that was live
before if it is live after. -/
theorem Attended.appendLease (h : Attended now s) (hne : r.leaseId ≠ "")
    (hr : r.live now = true → ∀ item ∈ s.currentWorkItems, item.itemId = r.itemId →
      ∀ a ∈ item.attemptList, a.status = .running → a.leaseId = some r.leaseId) :
    Attended now { s with leases := s.leases ++ [r] } where
  stored := h.stored
  single := h.single
  leased item hitem a ha hrun lease hmem hsame hlive := by
    rcases (Store.mem_append_lease hne).mp hmem with rfl | ⟨hold, -⟩
    · exact hr hlive item hitem hsame.symm a ha hrun
    · exact h.leased item hitem a ha hrun lease hold hsame hlive

theorem Attended.endLease (h : Attended now s) (hne : r.leaseId ≠ "") (hr : r.status ≠ .active) :
    Attended now { s with leases := s.leases ++ [r] } := by
  refine h.appendLease hne fun hlive => ?_
  simp [WorkLease.live, hr] at hlive

theorem Attended.renewLease (h : Attended now s) (hmem : lease ∈ s.currentLeaseRecords)
    (hlive : lease.live now = true) {expiresAt renewedAt : ℤ} :
    Attended now { s with leases := s.leases ++
      [{ lease with expiresAt := expiresAt, renewedAt := renewedAt }] } := by
  refine h.appendLease (Store.mem_currentLeaseRecords.mp hmem).1 fun _ item hitem hsame a ha hrun => ?_
  exact h.leased item hitem a ha hrun lease hmem hsame.symm hlive

/-- A new lease of an item of which no attempt runs. -/
theorem Attended.grantLease (h : Attended now s) (hne : r.leaseId ≠ "")
    (hstopped : ∀ item ∈ s.currentWorkItems, item.itemId = r.itemId → Stopped item) :
    Attended now { s with leases := s.leases ++ [r] } :=
  h.appendLease hne fun _ item hitem hsame a ha hrun => absurd hrun (hstopped item hitem hsame a ha)

theorem Attended.appendItem (h : Attended now s) (hx : isGovernedWorkItem x = true)
    (hsingle : OneRunning x)
    (hleased : ∀ a ∈ x.attemptList, a.status = .running → ∀ lease ∈ s.currentLeaseRecords,
      lease.itemId = x.itemId → lease.live now = true → a.leaseId = some lease.leaseId) :
    Attended now { s with items := s.items ++ [x.line] } := by
  have hne : x.line.itemId ≠ "" := by
    rw [line_itemId]
    exact isGovernedWorkItem_itemId hx
  have hcases {item : WorkItem}
      (hitem : item ∈ Store.currentWorkItems { s with items := s.items ++ [x.line] }) :
      item = x.line ∨ item ∈ s.currentWorkItems :=
    ((Store.mem_append_item hne).mp hitem).imp_right And.left
  constructor
  · intro item hitem
    rcases hcases hitem with rfl | hold
    · exact stored_persisted ((boundItemAttempts_governed x).trans hx)
    · exact h.stored item hold
  · intro item hitem
    rcases hcases hitem with rfl | hold
    · exact hsingle.line
    · exact h.single item hold
  · intro item hitem a ha hrun lease hmem hsame hlive
    rcases hcases hitem with rfl | hold
    · obtain ⟨b, hb, rfl⟩ := mem_line_attemptList ha
      rw [line_itemId] at hsame
      exact hleased b hb hrun lease hmem hsame hlive
    · exact h.leased item hold a ha hrun lease hmem hsame hlive

/-- A snapshot that changes nothing about the attempts of a current item. -/
theorem Attended.appendSame (h : Attended now s) (hcurrent : current ∈ s.currentWorkItems)
    (hitem : x.itemId = current.itemId) (hattempts : x.attemptList = current.attemptList)
    (hid : x.currentAttemptId = current.currentAttemptId) :
    (appendItemSnapshot x).wp (fun _ => Attended now) (Attended now) s := by
  refine wp_appendItemSnapshot.mpr ⟨fun hok => h.appendItem hok.1 ?_ ?_, fun _ => h⟩
  · have hsingle := h.single current hcurrent
    constructor
    · rw [WorkItem.runIds, hattempts]
      exact hsingle.named
    · rw [WorkItem.runIds, hattempts]
      exact hsingle.distinct
    · rw [hattempts, hid]
      exact hsingle.running
  · rw [hattempts, hitem]
    exact h.leased current hcurrent

/-- A snapshot in which no attempt runs. -/
theorem Attended.appendStopped (h : Attended now s) (hstopped : Stopped x)
    (hnamed : ∀ id ∈ x.runIds, id ≠ "") (hdistinct : x.runIds.Nodup) :
    (appendItemSnapshot x).wp (fun _ => Attended now) (Attended now) s := by
  refine wp_appendItemSnapshot.mpr ⟨fun hok => h.appendItem hok.1 ?_ ?_, fun _ => h⟩
  · exact hstopped.oneRunning hnamed hdistinct
  · exact fun a ha hrun => absurd hrun (hstopped a ha)

/-- A snapshot of a current item in which no attempt runs any more. -/
theorem Attended.appendEnded (h : Attended now s) (hcurrent : current ∈ s.currentWorkItems)
    (hids : x.runIds = current.runIds) (hstopped : Stopped x) :
    (appendItemSnapshot x).wp (fun _ => Attended now) (Attended now) s := by
  have hsingle := h.single current hcurrent
  refine h.appendStopped hstopped ?_ ?_
  · rw [hids]
    exact hsingle.named
  · rw [hids]
    exact hsingle.distinct

end Edits

section Successors

variable {env : Env} {current x : WorkItem} {now : ℤ}

theorem updated_same {input : UpdateWorkItemInput} (env : Env) (current : WorkItem)
    (hold : Option WorkEffectOwnership) (lease : Option WorkLease)
    (hclear : updateClearsLease input (input.status.getD current.status) = false) :
    (nextItemSnapshot env current (patchWorkItem env current input hold) lease false).attemptList =
        current.attemptList ∧
      (nextItemSnapshot env current (patchWorkItem env current input hold) lease
        false).currentAttemptId = current.currentAttemptId := by
  unfold nextItemSnapshot patchWorkItem
  simp only [hclear, Bool.false_eq_true, if_false]
  split <;> exact ⟨rfl, rfl⟩

theorem updated_cleared {input : UpdateWorkItemInput} (env : Env) (current : WorkItem)
    (hold : Option WorkEffectOwnership) (lease : Option WorkLease)
    (hclear : updateClearsLease input (input.status.getD current.status) = true) :
    ∃ ending, (nextItemSnapshot env current (patchWorkItem env current input hold) lease
        true).attemptList = (finalizeWorkItemAttempt env.now current
          (closingStatus (input.status.getD current.status)) ending).attempts := by
  unfold nextItemSnapshot patchWorkItem
  simp only [hclear, if_true]
  exact ⟨_, rfl⟩

theorem closingStatus_ne (status : WorkItemStatus) : closingStatus status ≠ .running := by
  unfold closingStatus
  split
  · decide
  · split <;> decide

/-- A snapshot whose attempts are those of a current item with one of them ended. -/
theorem ended_of_finalized {status : WorkItemAttemptStatus} {ending : AttemptEnd}
    (h : OneRunning current) (hstatus : status ≠ .running)
    (hx : x.attemptList = (finalizeWorkItemAttempt now current status ending).attempts) :
    x.runIds = current.runIds ∧ Stopped x := by
  constructor
  · rw [WorkItem.runIds, hx]
    exact finalize_runIds now current status ending
  · rw [Stopped, hx]
    exact finalize_stopped h hstatus

theorem replayedItem_ended {at_ : ℤ} (hone : OneRunning current)
    (h : replayedItem env at_ current = .ok x) : x.runIds = current.runIds ∧ Stopped x := by
  unfold replayedItem at h
  obtain ⟨hold, -, h⟩ := Js.except_bind_ok h
  obtain rfl := Except.ok.inj h
  exact ended_of_finalized hone (show WorkItemAttemptStatus.completed ≠ .running by decide) rfl

theorem recoveredItem_ended {at_ : ℤ} {options : ReapWorkLeasesOptions} (hone : OneRunning current)
    (h : recoveredItem env at_ options current = .ok x) :
    x.runIds = current.runIds ∧ Stopped x := by
  unfold recoveredItem at h
  obtain ⟨hold, -, h⟩ := Js.except_bind_ok h
  obtain rfl := Except.ok.inj h
  exact ended_of_finalized hone (show WorkItemAttemptStatus.released ≠ .running by decide) rfl

theorem runningAttempt_some {running : WorkItemAttempt} (h : runningAttempt current = some running) :
    running ∈ current.attemptList ∧ running.status = .running := by
  refine ⟨List.mem_of_find?_eq_some h, ?_⟩
  have hfound := List.find?_some h
  simp only [Bool.and_eq_true, decide_eq_true_eq] at hfound
  exact hfound.1

theorem reconciledItem_ended {at_ : ℤ} {running : WorkItemAttempt} (hone : OneRunning current)
    (h : runningAttempt current = some running) :
    (reconciledItem at_ current running).runIds = current.runIds ∧
      Stopped (reconciledItem at_ current running) := by
  obtain ⟨hmem, hrun⟩ := runningAttempt_some h
  have hlt : (current.attemptList.findIdx fun attempt => attempt.runId = running.runId) <
      current.attemptList.length :=
    List.findIdx_lt_length_of_exists ⟨running, hmem, by simp⟩
  have hat := List.getElem?_eq_getElem hlt
  have hid := of_decide_eq_true (List.findIdx_getElem (w := hlt))
  refine ⟨set_runIds hat hid.symm, set_stopped hone.distinct hat hid.symm (by simp) ?_⟩
  intro a ha hstill
  have hcurrent := (hone.running a ha hstill).1
  rw [(hone.running running hmem hrun).1] at hcurrent
  exact (Option.some.inj hcurrent).symm.trans hid.symm

end Successors

end Kyberion.Work
