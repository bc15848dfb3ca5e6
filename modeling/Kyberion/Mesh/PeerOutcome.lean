import Kyberion.Mesh.PeerTask

/-!
The outcome of a peer task. A record that is appended replaces the whole state
of its task, so an outcome survives as long as no call appends a copy that was
made before it.
-/

namespace Kyberion.Mesh.PeerTask

open Js Transition

def keyOf (record : PeerTaskRecord) : PeerTaskDirection × String :=
  (record.direction, record.taskId)

/-- No result of the task has been recorded since the copy was read, save one that the call is
about to record itself. -/
def noResultSince (w : World) (copied : PeerTaskRecord) (recorded : Option PeerTaskResult) : Bool :=
  (current w.ledger (keyOf copied)).all fun row =>
    row.result.isNone || row.result = copied.result || row.result = recorded

/-- The task still waits for its decision. -/
def undecided (w : World) (copied : PeerTaskRecord) : Bool :=
  (current w.ledger (keyOf copied)).all fun row => row.state = .pending

/-- The append of a call overwrites no result, and no decision with a pending record. -/
def keepsOutcome (w : World) : PeerTaskAction → Bool
  | .sent c outcome _ =>
      match w.calls c with
      | .sending outbound => noResultSince w outbound none &&
          (match outcome with
            | .sent true => true
            | _ => undecided w outbound)
      | _ => true
  | .record c _ =>
      match w.calls c with
      | .recording outbound result => noResultSince w outbound (some result)
      | _ => true
  | .register c _ =>
      match w.calls c with
      | .registering base => noResultSince w base none && undecided w base
      | _ => true
  | .claim c _ | .startWork c _ | .finishWork c _ _ | .delivered c _ _ =>
      match w.calls c with
      | .deciding record _ _ _ | .executing record _ | .running record _ | .delivering record =>
          noResultSince w record none
      | _ => true
  | _ => true

-- The equations of the condition are made here, once for all the lemmas below.
attribute [local simp] keepsOutcome

/-- The state of a record that carries a result. -/
def Sound (record : PeerTaskRecord) : Prop :=
  ∀ result, record.result = some result →
    record.state = result.status.state ∨ record.state = .expired

/-- The outcomes of `w` stand in `w'`. -/
def Kept (w w' : World) : Prop :=
  ∀ key record, current w.ledger key = some record →
    ∃ record', current w'.ledger key = some record' ∧
      (∀ result, record.result = some result → record'.result = some result) ∧
      (record.state ≠ .pending → record'.state ≠ .pending)

def PhaseInv : Phase → Prop
  | .idle => True
  | .sending outbound | .recording outbound _ => outbound.result = none
  | .registering base => base.result = none
  | .deciding record row runs _ => record.result = none ∧ keyOf row = keyOf record ∧ Sound row ∧
      row.state ≠ .pending ∧ (if runs then row.result = none else row.result.isSome)
  | .executing record _ | .running record _ => record.result = none
  | .delivering record => record.result.isSome ∧ Sound record

structure OutcomeInv (w : World) : Prop where
  rows : ∀ row ∈ w.ledger, Sound row
  calls : ∀ c, PhaseInv (w.calls c)

theorem Kept.refl (w : World) : Kept w w :=
  fun _ record h => ⟨record, h, fun _ hresult => hresult, fun hstate => hstate⟩

theorem Kept.trans {w w' w'' : World} (h : Kept w w') (h' : Kept w' w'') : Kept w w'' := by
  intro key record hcur
  obtain ⟨record', hcur', hresult, hstate⟩ := h key record hcur
  obtain ⟨record'', hcur'', hresult', hstate'⟩ := h' key record' hcur'
  exact ⟨record'', hcur'', fun result hr => hresult' result (hresult result hr),
    fun hs => hstate' (hstate hs)⟩

theorem Sound.of_result_none {record : PeerTaskRecord} (h : record.result = none) :
    Sound record := by
  intro result hresult
  rw [h] at hresult
  cases hresult

/-- A pending record carries no result. -/
theorem Sound.result_none {record : PeerTaskRecord} (h : Sound record)
    (hstate : record.state = .pending) : record.result = none := by
  cases hresult : record.result with
  | none => rfl
  | some result =>
      rcases h result hresult with hs | hs <;> rw [hstate] at hs
      · cases hstatus : result.status <;> rw [hstatus] at hs <;> cases hs
      · cases hs

theorem Sound.not_pending {record : PeerTaskRecord} (h : Sound record)
    (hresult : record.result.isSome) : record.state ≠ .pending := by
  intro hstate
  rw [h.result_none hstate] at hresult
  cases hresult

theorem Sound.shown {record : PeerTaskRecord} (h : Sound record) (now : ℤ) :
    Sound (shown now record) := by
  unfold PeerTask.shown
  split
  · exact fun _ _ => .inr rfl
  · exact h

section Reads

variable {ledger : List PeerTaskRecord} {now : ℤ} {direction : PeerTaskDirection} {taskId : String}
  {record : PeerTaskRecord}

theorem sound_getPeerTask (h : ∀ row ∈ ledger, Sound row)
    (hget : getPeerTask ledger now direction taskId = some record) : Sound record := by
  obtain ⟨row, hrow, rfl⟩ := Option.map_eq_some_iff.mp hget
  exact (h row (mem_of_lastFor hrow).1).shown now

theorem current_append (ledger : List PeerTaskRecord) (row : PeerTaskRecord)
    (key : PeerTaskDirection × String) :
    current (ledger ++ [row]) key = if key = keyOf row then some row else current ledger key := by
  rw [current, lastFor_concat]
  by_cases hkey : key = keyOf row
  · subst hkey
    simp [recordKey, keyOf]
  · have hne : recordKey row ≠ some key := fun heq => hkey (Option.some.inj heq).symm
    rw [if_neg hne, if_neg hkey]
    rfl

theorem current_compact (ledger : List PeerTaskRecord) (key : PeerTaskDirection × String) :
    current (compactByKey recordKey ledger) key = current ledger key := by
  apply lastFor_compactByKey
  intro a b j ha hj hb
  rw [hb, ← hj, ha]

end Reads

section Rows

variable {fitsResult : PeerTaskResult → Bool} {record row : PeerTaskRecord} {now : ℤ}

/-- What a decision appends. -/
theorem decideRow_ok {host : Host} {catalog : List PeerTaskCatalogEntry} {input : DecideInput}
    {runs : Bool} (h : decideRow fitsResult host catalog input record = .ok (row, runs)) :
    record.state = .pending ∧ keyOf row = keyOf record ∧ row.state ≠ .pending ∧
      (if runs then row.result = record.result else row.result.isSome ∧ Sound row) := by
  obtain ⟨hstate, h⟩ := throwIf_eq_ok.mp h
  refine ⟨not_not.mp hstate, ?_⟩
  split at h
  · obtain ⟨result, hresult, h⟩ := except_bind_ok h
    cases h
    obtain ⟨-, hresult⟩ := throwIf_eq_ok.mp hresult
    cases hresult
    refine ⟨rfl, ?_, rfl, fun result hsome => ?_⟩
    · dsimp only
      split <;> simp
    · obtain rfl := Option.some.inj hsome
      dsimp only
      split
      · exact .inr rfl
      · exact .inl rfl
  · obtain ⟨entry, -, h⟩ := except_bind_ok h
    cases h
    exact ⟨rfl, by simp, rfl⟩

/-- What a resumption appends. -/
theorem resumeRow_ok {host : Host} {catalog : List PeerTaskCatalogEntry} {force : Bool}
    (h : resumeRow host catalog force record = .ok row) :
    record.result = none ∧ keyOf row = keyOf record ∧ row.state ≠ .pending ∧
      row.result = none := by
  obtain ⟨hchecks, h⟩ := throwIf_eq_ok.mp h
  obtain ⟨-, h⟩ := throwIf_eq_ok.mp h
  obtain ⟨entry, -, h⟩ := except_bind_ok h
  cases h
  simp only [not_or, not_not] at hchecks
  exact ⟨hchecks.2.2, rfl, by simp [hchecks.1], hchecks.2.2⟩

/-- What an execution appends last. -/
theorem finishRow_ok {report : RunReport} (h : finishRow fitsResult report now record = .ok row) :
    keyOf row = keyOf record ∧ row.result.isSome ∧ Sound row := by
  obtain ⟨result, hresult, h⟩ := except_bind_ok h
  obtain ⟨-, hresult⟩ := throwIf_eq_ok.mp hresult
  cases h
  cases hresult
  refine ⟨rfl, rfl, fun result hsome => ?_⟩
  obtain rfl := Option.some.inj hsome
  exact .inl rfl

theorem Sound.deliveredRow (h : Sound record) (messageId : String) (outcome : SendOutcome) :
    Sound ((deliveredRow messageId outcome now record).stamp now) :=
  h

theorem sound_resultRow (result : PeerTaskResult) :
    Sound ((resultRow result record).stamp now) := by
  intro result' hsome
  obtain rfl := Option.some.inj hsome
  exact .inl rfl

end Rows

section Steps

variable {w w' : World} {c : ℕ} {phase : Phase} {row : PeerTaskRecord}

theorem OutcomeInv.call (h : OutcomeInv w) (hcall : w.calls c = phase) : PhaseInv phase :=
  hcall ▸ h.calls c

theorem calls_put (h : OutcomeInv w) (hphase : PhaseInv phase) (d : ℕ) :
    PhaseInv ((w.put c phase).calls d) := by
  by_cases hd : d = c
  · subst hd
    rw [show (w.put d phase).calls d = phase from Function.update_self ..]
    exact hphase
  · rw [show (w.put c phase).calls d = w.calls d from Function.update_of_ne hd ..]
    exact h.calls d

/-- A call that only reads, waits or ends. -/
theorem put_keeps (h : OutcomeInv w) (hphase : PhaseInv phase) :
    OutcomeInv (w.put c phase) ∧ Kept w (w.put c phase) :=
  ⟨⟨h.rows, calls_put h hphase⟩, Kept.refl w⟩

theorem lock_keeps {taskId : String} {holder : Option ℕ} (h : OutcomeInv w' ∧ Kept w w') :
    OutcomeInv (w'.lock taskId holder) ∧ Kept w (w'.lock taskId holder) :=
  ⟨⟨h.1.rows, h.1.calls⟩, h.2⟩

/-- A record that carries the result of the current one and is no step back to pending. -/
theorem append_keeps (h : OutcomeInv w) (hrow : Sound row)
    (hcur : ∀ record, current w.ledger (keyOf row) = some record →
      (∀ result, record.result = some result → row.result = some result) ∧
        (record.state ≠ .pending → row.state ≠ .pending)) (hphase : PhaseInv phase) :
    OutcomeInv ((w.append row).put c phase) ∧ Kept w ((w.append row).put c phase) := by
  have hrows : ∀ r ∈ w.ledger ++ [row], Sound r := by
    rw [List.forall_mem_append, List.forall_mem_singleton]
    exact ⟨h.rows, hrow⟩
  refine ⟨⟨hrows, calls_put ⟨hrows, h.calls⟩ hphase⟩, fun key record hrecord => ?_⟩
  change ∃ record', current (w.ledger ++ [row]) key = some record' ∧ _
  rw [current_append]
  by_cases hkey : key = keyOf row
  · subst hkey
    rw [if_pos rfl]
    exact ⟨row, rfl, hcur record hrecord⟩
  · rw [if_neg hkey]
    exact ⟨record, hrecord, fun _ hresult => hresult, fun hstate => hstate⟩

/-- What the side condition says of the current record. -/
theorem noResultSince_row {copied record : PeerTaskRecord} {recorded : Option PeerTaskResult}
    (h : noResultSince w copied recorded = true)
    (hrecord : current w.ledger (keyOf copied) = some record) {result : PeerTaskResult}
    (hresult : record.result = some result) :
    copied.result = some result ∨ recorded = some result := by
  simp only [noResultSince, hrecord, Option.all_some, hresult, Option.isNone_some, Bool.false_or,
    Bool.or_eq_true, decide_eq_true_eq] at h
  exact h.imp Eq.symm Eq.symm

/-- A record that is copied from one without a result, when none has come in since. -/
theorem append_copy_keeps {copied : PeerTaskRecord} (h : OutcomeInv w)
    (hok : noResultSince w copied none = true) (hnone : copied.result = none)
    (hkey : keyOf row = keyOf copied) (hrow : Sound row) (hstate : row.state ≠ .pending)
    (hphase : PhaseInv phase) :
    OutcomeInv ((w.append row).put c phase) ∧ Kept w ((w.append row).put c phase) := by
  refine append_keeps h hrow (fun record hrecord => ⟨fun result hresult => ?_, fun _ => hstate⟩)
    hphase
  rw [hkey] at hrecord
  rcases noResultSince_row hok hrecord hresult with hcopied | hrecorded
  · rw [hnone] at hcopied
    cases hcopied
  · cases hrecorded

/-- A pending record that is copied from one without a result, when nothing has been decided. -/
theorem append_pending_keeps {copied : PeerTaskRecord} (h : OutcomeInv w)
    (hok : noResultSince w copied none = true) (hundecided : undecided w copied = true)
    (hnone : row.result = none) (hcopied : copied.result = none) (hkey : keyOf row = keyOf copied)
    (hphase : PhaseInv phase) :
    OutcomeInv ((w.append row).put c phase) ∧ Kept w ((w.append row).put c phase) := by
  refine append_keeps h (.of_result_none hnone) (fun record hrecord => ?_) hphase
  rw [hkey] at hrecord
  refine ⟨fun result hresult => ?_, fun hstate => absurd ?_ hstate⟩
  · rcases noResultSince_row hok hrecord hresult with hr | hr
    · rw [hcopied] at hr
      cases hr
    · cases hr
  · simpa [undecided, hrecord] using hundecided

theorem phaseInv_afterResult {deliver : Bool} (hresult : row.result.isSome) (hrow : Sound row) :
    PhaseInv (afterResult row deliver) := by
  cases deliver
  · trivial
  · exact ⟨hresult, hrow⟩

variable {peer : Peer}

theorem sent_keeps (h : OutcomeInv w) {outbound : PeerTaskRecord} {outcome : SendOutcome} {now : ℤ}
    (hcall : w.calls c = .sending outbound)
    (hok : keepsOutcome w (.sent c outcome now) = true) :
    OutcomeInv ((w.append ((proposalRow outcome now outbound).stamp now)).put c .idle) ∧
      Kept w ((w.append ((proposalRow outcome now outbound).stamp now)).put c .idle) := by
  have hnone : outbound.result = none := h.call hcall
  simp only [keepsOutcome, hcall, Bool.and_eq_true] at hok
  obtain ⟨hresult, hstate⟩ := hok
  split at hstate
  · exact append_copy_keeps h hresult hnone rfl (.of_result_none hnone) (by simp [proposalRow,
      PeerTaskRecord.stamp]) trivial
  · exact append_pending_keeps h hresult hstate hnone hnone rfl trivial

theorem record_keeps (h : OutcomeInv w) {outbound : PeerTaskRecord} {result : PeerTaskResult}
    {now : ℤ} (hcall : w.calls c = .recording outbound result)
    (hok : keepsOutcome w (.record c now) = true) :
    OutcomeInv ((w.append ((resultRow result outbound).stamp now)).put c .idle) ∧
      Kept w ((w.append ((resultRow result outbound).stamp now)).put c .idle) := by
  have hnone : outbound.result = none := h.call hcall
  simp only [keepsOutcome, hcall] at hok
  refine append_keeps h (sound_resultRow result) (fun record hrecord => ⟨fun r hr => ?_, fun _ => ?_⟩)
    trivial
  · rcases noResultSince_row hok hrecord hr with hcopied | hrecorded
    · rw [hnone] at hcopied
      cases hcopied
    · exact hrecorded
  · exact (sound_resultRow result).not_pending rfl

theorem register_keeps (h : OutcomeInv w) {base : PeerTaskRecord} {now : ℤ}
    (hcall : w.calls c = .registering base) (hok : keepsOutcome w (.register c now) = true) :
    OutcomeInv ((w.append (base.stamp now)).put c .idle) ∧
      Kept w ((w.append (base.stamp now)).put c .idle) := by
  have hnone : base.result = none := h.call hcall
  simp only [keepsOutcome, hcall, Bool.and_eq_true] at hok
  exact append_pending_keeps h hok.1 hok.2 hnone hnone rfl trivial

theorem claim_keeps (h : OutcomeInv w) {record : PeerTaskRecord} {runs deliver : Bool} {now : ℤ}
    (hcall : w.calls c = .deciding record row runs deliver)
    (hok : keepsOutcome w (.claim c now) = true) {next : Phase}
    (hnext : next = if runs then .executing (row.stamp now) deliver
      else afterResult (row.stamp now) deliver) :
    OutcomeInv ((w.append (row.stamp now)).put c next) ∧
      Kept w ((w.append (row.stamp now)).put c next) := by
  obtain ⟨hnone, hkey, hrow, hstate, hruns⟩ := h.call hcall
  simp only [keepsOutcome, hcall] at hok
  refine append_copy_keeps h hok hnone hkey hrow hstate ?_
  cases runs with
  | true =>
      rw [hnext]
      exact hruns
  | false =>
      rw [hnext]
      exact phaseInv_afterResult hruns hrow

theorem startWork_keeps (h : OutcomeInv w) {record : PeerTaskRecord} {deliver : Bool} {now : ℤ}
    (hcall : w.calls c = .executing record deliver)
    (hok : keepsOutcome w (.startWork c now) = true) (workItemId : Option String) :
    let row : PeerTaskRecord := { record with state := .running, workItemId, updatedAt := now }
    OutcomeInv ((w.append row).put c (.running row deliver)) ∧
      Kept w ((w.append row).put c (.running row deliver)) := by
  have hnone : record.result = none := h.call hcall
  simp only [keepsOutcome, hcall] at hok
  exact append_copy_keeps h hok hnone rfl (.of_result_none hnone) (fun hstate => nomatch hstate) hnone

theorem finishWork_keeps (h : OutcomeInv w) {record : PeerTaskRecord} {deliver : Bool} {now : ℤ}
    {report : RunReport} (hcall : w.calls c = .running record deliver)
    (hok : keepsOutcome w (.finishWork c report now) = true)
    (hrow : finishRow peer.fitsResult report now record = .ok row) :
    OutcomeInv ((w.append (row.stamp now)).put c (afterResult (row.stamp now) deliver)) ∧
      Kept w ((w.append (row.stamp now)).put c (afterResult (row.stamp now) deliver)) := by
  have hnone : record.result = none := h.call hcall
  obtain ⟨hkey, hresult, hsound⟩ := finishRow_ok hrow
  simp only [keepsOutcome, hcall] at hok
  exact append_copy_keeps h hok hnone hkey hsound (hsound.not_pending hresult)
    (phaseInv_afterResult hresult hsound)

theorem delivered_keeps (h : OutcomeInv w) {record : PeerTaskRecord} {outcome : SendOutcome}
    {now : ℤ} (hcall : w.calls c = .delivering record)
    (hok : keepsOutcome w (.delivered c outcome now) = true) (messageId : String) :
    OutcomeInv ((w.append ((deliveredRow messageId outcome now record).stamp now)).put c .idle) ∧
      Kept w ((w.append ((deliveredRow messageId outcome now record).stamp now)).put c .idle) := by
  obtain ⟨hresult, hsound⟩ := h.call hcall
  simp only [keepsOutcome, hcall] at hok
  refine append_keeps h (hsound.deliveredRow messageId outcome)
    (fun cur hcur => ⟨fun r hr => ?_, fun _ => hsound.not_pending hresult⟩) trivial
  exact (noResultSince_row hok hcur hr).resolve_right fun hnone => nomatch hnone

theorem step_keeps (h : OutcomeInv w) {a : PeerTaskAction} (hok : keepsOutcome w a = true)
    (hstep : (peerTasks peer).step w a = some w') : OutcomeInv w' ∧ Kept w w' := by
  have hread {now : ℤ} {direction : PeerTaskDirection} {taskId : String} {record : PeerTaskRecord}
      (hget : getPeerTask w.ledger now direction taskId = some record) : Sound record :=
    sound_getPeerTask h.rows hget
  cases a with
  | propose c input taskId sessionId now =>
      simp only [peerTasks] at hstep
      split at hstep
      · obtain ⟨hfresh, hstep⟩ := Option.ite_none_right_eq_some.mp hstep
        split at hstep
        · rename_i row hrow
          obtain rfl := Option.some.inj hstep
          obtain ⟨-, hrow⟩ := throwIf_eq_ok.mp hrow
          obtain ⟨-, hrow⟩ := throwIf_eq_ok.mp hrow
          cases hrow
          refine append_keeps h (.of_result_none rfl) (fun record hrecord => ?_) rfl
          rw [keyOf, Option.isNone_iff_eq_none.mp hfresh] at hrecord
          cases hrecord
        · obtain rfl := Option.some.inj hstep
          exact ⟨h, Kept.refl w⟩
      · cases hstep
  | resend c taskId now =>
      simp only [peerTasks] at hstep
      split at hstep
      · split at hstep
        · rename_i record hget
          obtain rfl := Option.some.inj hstep
          split
          · rename_i hpending
            exact put_keeps h ((hread hget).result_none hpending)
          · exact ⟨h, Kept.refl w⟩
        · obtain rfl := Option.some.inj hstep
          exact ⟨h, Kept.refl w⟩
      · cases hstep
  | sent c outcome now =>
      simp only [peerTasks] at hstep
      split at hstep
      · rename_i outbound hcall
        obtain rfl := Option.some.inj hstep
        exact sent_keeps h hcall hok
      · cases hstep
  | receiveResult c senderPeerId result now =>
      simp only [peerTasks] at hstep
      split at hstep
      · split at hstep
        · obtain rfl := Option.some.inj hstep
          split
          · rename_i hnone
            exact put_keeps h (Option.isNone_iff_eq_none.mp hnone)
          · exact ⟨h, Kept.refl w⟩
        · obtain rfl := Option.some.inj hstep
          exact ⟨h, Kept.refl w⟩
      · cases hstep
  | record c now =>
      simp only [peerTasks] at hstep
      split at hstep
      · rename_i outbound result hcall
        obtain rfl := Option.some.inj hstep
        exact record_keeps h hcall hok
      · cases hstep
  | receiveRequest c catalog envelope request now =>
      simp only [peerTasks] at hstep
      split at hstep
      · split at hstep
        · rename_i base hbase
          obtain rfl := Option.some.inj hstep
          refine put_keeps h ?_
          obtain ⟨-, hbase⟩ := throwIf_eq_ok.mp hbase
          obtain ⟨-, hbase⟩ := throwIf_eq_ok.mp hbase
          obtain ⟨-, hbase⟩ := throwIf_eq_ok.mp hbase
          split at hbase
          · cases hbase
          · cases hbase
            rfl
        · obtain rfl := Option.some.inj hstep
          exact ⟨h, Kept.refl w⟩
      · cases hstep
  | register c now =>
      simp only [peerTasks] at hstep
      split at hstep
      · rename_i base hcall
        obtain rfl := Option.some.inj hstep
        exact register_keeps h hcall hok
      · cases hstep
  | decide c host catalog input =>
      simp only [peerTasks] at hstep
      split at hstep
      · obtain ⟨-, hstep⟩ := Option.ite_none_right_eq_some.mp hstep
        split at hstep
        · rename_i record hget
          split at hstep
          · rename_i row runs hrow
            obtain rfl := Option.some.inj hstep
            obtain ⟨hpending, hkey, hstate, hruns⟩ := decideRow_ok hrow
            have hnone := (hread hget).result_none hpending
            refine lock_keeps (put_keeps h ⟨hnone, hkey, ?_, hstate, ?_⟩)
            · cases runs with
              | true => exact .of_result_none (hruns.trans hnone)
              | false => exact hruns.2
            · cases runs with
              | true => exact hruns.trans hnone
              | false => exact hruns.1
          · obtain rfl := Option.some.inj hstep
            exact ⟨h, Kept.refl w⟩
        · obtain rfl := Option.some.inj hstep
          exact ⟨h, Kept.refl w⟩
      · cases hstep
  | resume c host catalog taskId force deliver =>
      simp only [peerTasks] at hstep
      split at hstep
      · obtain ⟨-, hstep⟩ := Option.ite_none_right_eq_some.mp hstep
        split at hstep
        · split at hstep
          · rename_i row hrow
            obtain rfl := Option.some.inj hstep
            obtain ⟨hnone, hkey, hstate, hrow⟩ := resumeRow_ok hrow
            exact lock_keeps (put_keeps h ⟨hnone, hkey, .of_result_none hrow, hstate, hrow⟩)
          · obtain rfl := Option.some.inj hstep
            exact ⟨h, Kept.refl w⟩
        · obtain rfl := Option.some.inj hstep
          exact ⟨h, Kept.refl w⟩
      · cases hstep
  | claim c now =>
      simp only [peerTasks] at hstep
      split at hstep
      · rename_i record row runs deliver hcall
        obtain rfl := Option.some.inj hstep
        exact lock_keeps (claim_keeps h hcall hok rfl)
      · cases hstep
  | startWork c now =>
      simp only [peerTasks] at hstep
      split at hstep
      · rename_i record deliver hcall
        obtain rfl := Option.some.inj hstep
        exact startWork_keeps h hcall hok _
      · cases hstep
  | finishWork c report now =>
      simp only [peerTasks] at hstep
      split at hstep
      · rename_i record deliver hcall
        split at hstep
        · rename_i row hrow
          obtain rfl := Option.some.inj hstep
          exact finishWork_keeps h hcall hok hrow
        · obtain rfl := Option.some.inj hstep
          exact put_keeps h trivial
      · cases hstep
  | deliver c taskId now =>
      simp only [peerTasks] at hstep
      split at hstep
      · split at hstep
        · rename_i record hget
          obtain rfl := Option.some.inj hstep
          split
          · rename_i hresult
            exact put_keeps h ⟨hresult, hread hget⟩
          · exact ⟨h, Kept.refl w⟩
        · obtain rfl := Option.some.inj hstep
          exact ⟨h, Kept.refl w⟩
      · cases hstep
  | delivered c outcome now =>
      simp only [peerTasks] at hstep
      split at hstep
      · rename_i record hcall
        obtain rfl := Option.some.inj hstep
        exact delivered_keeps h hcall hok _
      · cases hstep
  | drop c =>
      simp only [peerTasks] at hstep
      split at hstep
      · cases hstep
      · obtain rfl := Option.some.inj hstep
        exact lock_keeps (put_keeps h trivial)
      · obtain rfl := Option.some.inj hstep
        exact put_keeps h trivial
  | compact =>
      obtain rfl := Option.some.inj hstep
      refine ⟨⟨fun row hrow => h.rows row ?_, h.calls⟩, fun key record hrecord => ?_⟩
      · exact (compactByKey_sublist _ _).subset hrow
      · exact ⟨record, (current_compact _ _).trans hrecord, fun _ hresult => hresult,
          fun hstate => hstate⟩

/-- In every run whose appends overwrite no outcome, a result that the current record of a task
carries stays there, and a task that has been decided stays decided. -/
theorem peer_task_outcome_kept {w w' : World}
    (h : (peerTasks peer).Reach (fun w a => keepsOutcome w a = true) w)
    (hlater : (peerTasks peer).Leads (fun w a => keepsOutcome w a = true) w w')
    {key : PeerTaskDirection × String} {record : PeerTaskRecord}
    (hrecord : current w.ledger key = some record) :
    ∃ record', current w'.ledger key = some record' ∧
      (∀ result, record.result = some result → record'.result = some result ∧
        (record'.state = result.status.state ∨ record'.state = .expired)) ∧
      (record.state ≠ .pending → record'.state ≠ .pending) := by
  have hinv {w : World} (h : (peerTasks peer).Reach (fun w a => keepsOutcome w a = true) w) :
      OutcomeInv w := by
    refine h.invariant (fun w hinit => ?_) fun w a w' h hok hstep => (step_keeps h hok hstep).1
    obtain rfl : w = {} := hinit
    exact ⟨fun row hrow => (nomatch hrow), fun c => trivial⟩
  have hkept : Kept w w' := System.Leads.preserves Kept.refl (fun _ _ _ => Kept.trans)
    (fun s a t hs hok hstep => (step_keeps (hinv hs) hok hstep).2) h hlater
  obtain ⟨record', hcur, hresult, hstate⟩ := hkept key record hrecord
  have hsound := (hinv (h.leads hlater)).rows record' (mem_of_lastFor hcur).1
  exact ⟨record', hcur, fun result hr => ⟨hresult result hr, hsound result (hresult result hr)⟩,
    hstate⟩

end Steps

def proposer : Peer where
  tenantId := "acme"
  localPeerId := "a"
  fitsRequest _ := true
  fitsResult _ := true
  sha256 _ := "0f"

def done : PeerTaskResult where
  taskId := "PTK-00000001"
  taskType := "build"
  status := .completed
  summary := "build completed"
  finishedAt := 5

def task : PeerTaskDirection × String :=
  (.outbound, "PTK-00000001")

/-- A proposal on its way. -/
def proposes (c : ℕ) : PeerTaskAction :=
  .propose c { recipientPeerId := "b", taskType := "build", summary := "s" } "PTK-00000001" "S" 0

/-- The result comes in. -/
def comesBack (c : ℕ) : List PeerTaskAction :=
  [.receiveResult c "b" done 6, .record c 6]

theorem peer_task_outcome_kept_in_turn : ∃ (w w' : World) (record record' : PeerTaskRecord),
    current w.ledger task = some record ∧ record.result = some done ∧
      current w'.ledger task = some record' ∧ record'.result = some done := by
  obtain ⟨w, w', hs, hlater, hdone⟩ := (peerTasks proposer).exists_leads_of_execOk keepsOutcome
    (s := {}) ([proposes 0, .sent 0 (.sent false) 1] ++ comesBack 1) (comesBack 2 |>.take 1)
    (fun w _ => (current w.ledger task).bind (·.result) = some done) rfl (by decide +kernel)
  obtain ⟨record, hrecord, hresult⟩ := Option.bind_eq_some_iff.mp hdone
  obtain ⟨record', hrecord', hkept, -⟩ := peer_task_outcome_kept hs hlater hrecord
  exact ⟨w, w', record, record', hrecord, hresult, hrecord', (hkept done hresult).1⟩

/-- The reply to a proposal that comes after the result takes the result away. -/
theorem late_reply_loses_result :
    ¬ ∀ w w' : World, (peerTasks proposer).Reachable w →
      (peerTasks proposer).Leads (fun _ _ => True) w w' → ∀ key record result,
        current w.ledger key = some record → record.result = some result →
          ∃ record', current w'.ledger key = some record' ∧ record'.result = some result := by
  intro h
  obtain ⟨w, w', hs, hlater, hdone, hlost⟩ := (peerTasks proposer).exists_leads_of_execOk
    (fun _ _ => true) (s := {}) (proposes 0 :: comesBack 1) [.sent 0 (.failed "timeout") 7]
    (fun w w' => (current w.ledger task).bind (·.result) = some done ∧
      (current w'.ledger task).bind (·.result) = none) rfl (by decide +kernel)
  obtain ⟨record, hrecord, hresult⟩ := Option.bind_eq_some_iff.mp hdone
  obtain ⟨record', hrecord', hkept⟩ := h w w' hs.reachable (hlater.mono fun _ _ _ => trivial) task
    record done hrecord hresult
  rw [hrecord', Option.bind_some, hkept] at hlost
  cases hlost

end Kyberion.Mesh.PeerTask
