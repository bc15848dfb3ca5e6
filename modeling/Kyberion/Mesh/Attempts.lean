import Kyberion.Mesh.Finality

/-!
How often a delivery was tried. `claimDueMeshDeliveries` counts an attempt when
it hands the delivery out, and `retryMeshDelivery` counts the same attempt once
more when it puts the delivery back.
-/

namespace Kyberion.Mesh

open Js

/-- The delivery that a row is about: its tenant and its id. -/
def MeshHubDeliveryRecord.key (row : MeshHubDeliveryRecord) : String × String :=
  (row.tenantScope.tenantId, row.deliveryId)

/-- The attempts on record; none for a delivery that does not exist. -/
def Store.attempts (s : Store) (key : String × String) : ℕ :=
  ((s.current key.1 key.2).map fun row => row.attemptCount).getD 0

/-- The store, the deliveries that were handed out and those that were put back, each as often as
it happened, and the deliveries that ran out of attempts, with the limit they were held to. -/
structure Ledger where
  store : Store
  handed : List (String × String)
  retried : List (String × String)
  exhausted : List ((String × String) × ℤ)

/-- The rows that a command hands out. -/
def handedRows (env : MeshEnv) (s : Store) : Command → List MeshHubDeliveryRecord
  | .claimDue now limit =>
      match ((claimDueMeshDeliveries env now limit).run s).2 with
      | .ok rows => rows
      | .error _ => []
  | _ => []

/-- The row of a delivery that a retry puts back or gives up. -/
def retriedRows (env : MeshEnv) (s : Store) : Command → List MeshHubDeliveryRecord
  | .retry deliveryId now retryPolicy =>
      match ((retryMeshDelivery env deliveryId now retryPolicy).run s).2 with
      | .ok row => if row.status = .expired then [] else [row]
      | .error _ => []
  | _ => []

def Command.maxAttempts : Command → ℤ
  | .retry _ _ retryPolicy => (normalizeRetryPolicy retryPolicy).maxAttempts
  | _ => 0

def ledger : Transition.System Ledger Action where
  init s := s = ⟨.empty, [], [], []⟩
  step s a :=
    let retried := retriedRows a.env s.store a.command
    some
      { store := ((a.command.call a.env).run s.store).1
        handed := s.handed ++ (handedRows a.env s.store a.command).map fun row => row.key
        retried := s.retried ++ retried.map fun row => row.key
        exhausted := s.exhausted ++ (retried.filter fun row => row.status = .deadLettered).map
          fun row => (row.key, a.command.maxAttempts) }

/-- Every attempt on record is a hand-out, and who ran out of attempts had all of them. -/
structure Accounted (s : Ledger) : Prop where
  attempts : ∀ tenant id row, s.store.current tenant id = some row →
    row.attemptCount = s.handed.count (tenant, id)
  exhausted : ∀ key limit, (key, limit) ∈ s.exhausted → limit ≤ s.handed.count key

/-- Whether a retry puts the delivery back or gives it up: the delivery is there, it has not
expired, its status admits a retry, and the next due time can be told when one is needed. -/
def retryCounts (env : MeshEnv) (s : Store) (deliveryId now : String)
    (retryPolicy : PartialRetryPolicy) : Bool :=
  let policy := normalizeRetryPolicy retryPolicy
  (loadCurrentDelivery env s deliveryId none).any fun current =>
    !env.clock.reached now current.expiresAt && !notRetryable current.status &&
      (decide (policy.maxAttempts ≤ current.attemptCount + 1) ||
        (env.clock.later now (nextRetryDelayMs (current.attemptCount + 1) policy)).toBool)

/-- The command is no retry that counts. -/
def countedOnce (s : Ledger) (a : Action) : Bool :=
  match a.command with
  | .retry deliveryId now retryPolicy => !retryCounts a.env s.store deliveryId now retryPolicy
  | _ => true

/-- The rows lie with their tenants, and each listed delivery has one more attempt on record. -/
structure Adds (s : Store) (keys : List (String × String)) (t : Store) : Prop where
  own : Own t
  attempts : ∀ key, t.attempts key = s.attempts key + keys.count key

section Appends

variable {env : MeshEnv} {s t : Store} {row next : MeshHubDeliveryRecord}
  {keys : List (String × String)} {key : String × String}

theorem attempts_of_current (h : s.current row.tenantScope.tenantId row.deliveryId = some row) :
    s.attempts row.key = row.attemptCount := by
  simp [Store.attempts, MeshHubDeliveryRecord.key, h]

theorem attempts_appended_self (hid : row.deliveryId ≠ "") :
    (s.appended env row).attempts row.key = row.attemptCount := by
  refine attempts_of_current ?_
  rw [current_appended]
  exact if_pos ⟨rfl, (deliveryKey_eq hid).mpr rfl⟩

theorem attempts_appended_of_ne (h : key ≠ row.key) :
    (s.appended env row).attempts key = s.attempts key := by
  unfold Store.attempts
  rw [current_appended, if_neg]
  rintro ⟨htenant, hkey⟩
  exact h (Prod.ext htenant (deliveryKey_some hkey).1.symm)

theorem attempts_lettered {letter : MeshDeadLetterRecord} :
    (s.lettered env letter).attempts key = s.attempts key := by
  unfold Store.attempts
  rw [current_lettered]

theorem Adds.refl (h : Own s) : Adds s [] s where
  own := h
  attempts _ := rfl

/-- A row with the attempts that are on record already. -/
theorem Adds.same (h : Adds s keys t) (hid : row.deliveryId ≠ "")
    (hrow : row.attemptCount = t.attempts row.key) : Adds s keys (t.appended env row) where
  own := h.own.appended
  attempts key := by
    by_cases hkey : key = row.key
    · subst hkey
      rw [attempts_appended_self hid, hrow, h.attempts]
    · rw [attempts_appended_of_ne hkey, h.attempts]

/-- A row with one attempt more than is on record. -/
theorem Adds.one (h : Adds s keys t) (hid : row.deliveryId ≠ "")
    (hrow : row.attemptCount = t.attempts row.key + 1) :
    Adds s (keys ++ [row.key]) (t.appended env row) where
  own := h.own.appended
  attempts key := by
    rw [List.count_append]
    by_cases hkey : key = row.key
    · subst hkey
      rw [attempts_appended_self hid, hrow, h.attempts, List.count_singleton_self, Nat.add_assoc]
    · rw [attempts_appended_of_ne hkey, h.attempts, List.count_singleton, if_neg]
      · rfl
      · simpa using Ne.symm hkey

theorem Adds.lettered (h : Adds s keys t) {letter : MeshDeadLetterRecord} :
    Adds s keys (t.lettered env letter) where
  own tenant row hrow := h.own tenant row (deliveries_lettered tenant ▸ hrow)
  attempts _ := attempts_lettered.trans (h.attempts _)

/-- A delivery ends as soon as its last row can be appended. -/
theorem wp_endDelivery {failureClass : MeshFailureClass} {reason : RejectReason}
    {Q : Unit → Store → Prop} {E : Store → Prop} :
    (endDelivery env row failureClass reason).wp Q E s ↔
      (isValidTenantSlug row.tenantScope.tenantId = false → E s) ∧
        (isValidTenantSlug row.tenantScope.tenantId = true →
          Q () ((s.appended env row).lettered env
            (buildDeadLetter env row failureClass reason))) := by
  simp only [endDelivery, Call.wp_bind]
  rw [wp_appendDelivery]
  refine and_congr_right fun _ => forall_congr' fun hvalid => ?_
  rw [wp_appendDeadLetter]
  constructor
  · exact fun h => h.2 hvalid
  · intro h
    refine ⟨fun hinvalid => ?_, fun _ => h⟩
    exact absurd (hvalid.symm.trans hinvalid) (by decide)

end Appends

section Commands

variable {env : MeshEnv} {s t : Store} {row next : MeshHubDeliveryRecord}
  {keys : List (String × String)}

theorem appendDelivery_same (h : Adds s keys t) (hid : row.deliveryId ≠ "")
    (hrow : row.attemptCount = t.attempts row.key) :
    (appendDelivery env row).wp (fun _ => Adds s keys) (Adds s keys) t :=
  wp_appendDelivery.mpr ⟨fun _ => h, fun _ => h.same hid hrow⟩

theorem endDelivery_same {failureClass : MeshFailureClass} {reason : RejectReason}
    (h : Adds s keys t) (hid : row.deliveryId ≠ "")
    (hrow : row.attemptCount = t.attempts row.key) :
    (endDelivery env row failureClass reason).wp (fun _ => Adds s keys) (Adds s keys) t :=
  wp_endDelivery.mpr ⟨fun _ => h, fun _ => (h.same hid hrow).lettered⟩

theorem Own.loaded_ne (h : Own s) {tenantId : Option String}
    (hrow : row ∈ loadCurrentDeliveries env s tenantId) : row.deliveryId ≠ "" :=
  (h.current (h.loaded hrow)).2.2

theorem Own.found_ne (h : Own s) {deliveryId : String} {tenantId : Option String}
    (hrow : loadCurrentDelivery env s deliveryId tenantId = some row) : row.deliveryId ≠ "" :=
  (h.current (h.found hrow)).2.2

/-- A row that any tenant's file yields lies with a tenant whose name is valid. -/
theorem Own.loaded_valid (h : Own s) (hrow : row ∈ loadCurrentDeliveries env s none) :
    isValidTenantSlug row.tenantScope.tenantId = true := by
  obtain ⟨k, -, hlast⟩ := mem_latestById.mp hrow
  obtain ⟨hmem, -⟩ := mem_of_lastFor hlast
  obtain ⟨tenant, htenant, hin⟩ := List.mem_flatMap.mp hmem
  rw [h tenant row hin]
  exact (List.mem_filter.mp htenant).2

/-- A new delivery starts without attempts. -/
theorem appendNewDelivery_adds {request : MeshRequest} {route : MeshDeliveryRoute}
    {now : Option String} (h : Own s)
    (hnew : s.current request.tenantScope.tenantId (deliveryIdForRequest env request) = none) :
    (appendNewDelivery env request route now).wp (fun _ => Adds s []) (Adds s []) s := by
  have hnone : s.attempts (request.tenantScope.tenantId, deliveryIdForRequest env request) = 0 := by
    simp [Store.attempts, hnew]
  have hrefl : Adds s [] s := .refl h
  simp only [appendNewDelivery, Call.wp_bind, Call.wp_lift, Call.wp_pure]
  refine ⟨fun expiresAt _ => ?_, fun _ _ => hrefl⟩
  have hid : (acceptedSnapshot env request route (orElse now env.nowIso) expiresAt).deliveryId ≠ "" :=
    deliveryId_ne
  refine wp_appendDelivery.mpr ⟨fun _ => hrefl, fun _ => ?_⟩
  refine appendDelivery_same (hrefl.same hid hnone.symm) deliveryId_ne ?_
  exact (attempts_appended_self hid).symm

/-- What was handed out has one attempt more. -/
theorem claimDue_adds {now : String} {limit : ℤ} (h : Own s) :
    (claimDueMeshDeliveries env now limit).wp
      (fun rows => Adds s (rows.map fun row => row.key)) (fun _ => False) s := by
  simp only [claimDueMeshDeliveries, Call.wp_bind, Call.wp_read, Call.wp_pure]
  set current := (((loadCurrentDeliveries env s none).filter (isDue env now)).mergeSort
    (dispatchesBefore env)).take limit.toNat with hcurrent
  have hsub : current.Subperm (loadCurrentDeliveries env s none) :=
    ((List.take_sublist _ _).subperm.trans (List.mergeSort_perm _ _).subperm).trans
      List.filter_sublist.subperm
  have hdistinct : current.Pairwise fun a b => a.deliveryId ≠ b.deliveryId := loaded_distinct hsub
  have hstart : ∃ done, current = done ++ current ∧ Adds s (done.map fun row => row.key) s :=
    ⟨[], rfl, .refl h⟩
  -- in the loop: what is done has one attempt more, what is left has those of its row
  refine Call.wp_mono (fun _ t ht => ?_) (fun _ ht => ht)
    (Call.wp_each_rest (I := fun rest t => ∃ done, current = done ++ rest ∧
      Adds s (done.map fun row => row.key) t) (fun row rest t hstep => ?_) hstart)
  · obtain ⟨done, hdone, hadds⟩ := ht
    rw [List.append_nil] at hdone
    rw [hdone, List.map_map]
    exact hadds
  · obtain ⟨done, hdone, ht⟩ := hstep
    have hrow : row ∈ loadCurrentDeliveries env s none := hsub.subset (by simp [hdone])
    have hvalid : isValidTenantSlug row.tenantScope.tenantId = true := h.loaded_valid hrow
    have hfresh : row.key ∉ done.map fun row => row.key := by
      rw [hdone] at hdistinct
      intro hin
      obtain ⟨other, hother, hsame⟩ := List.mem_map.mp hin
      exact (List.pairwise_append.mp hdistinct).2.2 other hother row List.mem_cons_self
        (congrArg Prod.snd hsame)
    refine wp_appendDelivery.mpr ⟨fun hinvalid => ?_, fun _ => ⟨done ++ [row], ?_, ?_⟩⟩
    · exact absurd (hvalid.symm.trans hinvalid) (by decide)
    · rw [hdone, List.append_assoc]
      rfl
    · have hloaded : row.deliveryId ≠ "" := h.loaded_ne hrow
      have hid : (dispatchedRow row).deliveryId ≠ "" := hloaded
      rw [List.map_append]
      refine ht.one hid ?_
      change row.attemptCount + 1 = t.attempts row.key + 1
      rw [ht.attempts, attempts_of_current (h.loaded hrow), List.count_eq_zero.mpr hfresh]

/-- A retry charges the delivery that it puts back or gives up. -/
theorem retry_adds {deliveryId now : String} {retryPolicy : PartialRetryPolicy} (h : Own s) :
    (retryMeshDelivery env deliveryId now retryPolicy).wp
      (fun row => Adds s (if row.status = .expired then [] else [row.key])) (Adds s []) s := by
  have hrefl : Adds s [] s := .refl h
  simp only [retryMeshDelivery, Call.wp_bind, Call.wp_read]
  cases hload : loadCurrentDelivery env s deliveryId none with
  | none => simpa only [Call.wp_fail] using hrefl
  | some current =>
      have hattempts : s.attempts current.key = current.attemptCount :=
        attempts_of_current (h.found hload)
      have hid : current.deliveryId ≠ "" := h.found_ne hload
      simp only [Call.wp_ite, Call.wp_bind, Call.wp_refuse, Call.wp_lift, Call.wp_pure]
      refine ⟨fun _ => ?_, fun _ => ⟨fun _ => hrefl, fun _ => ⟨fun _ => ?_,
        fun _ => ⟨fun retryAt _ => ?_, fun _ _ => hrefl⟩⟩⟩⟩
      · exact endDelivery_same hrefl hid hattempts.symm
      · have hid : (exhaustedRow current).deliveryId ≠ "" := hid
        refine wp_endDelivery.mpr ⟨fun _ => hrefl, fun _ => Adds.lettered ?_⟩
        exact hrefl.one hid (congrArg (· + 1) hattempts.symm)
      · have hid : (requeuedRow retryAt current).deliveryId ≠ "" := hid
        refine wp_appendDelivery.mpr ⟨fun _ => hrefl, fun _ => ?_⟩
        exact hrefl.one hid (congrArg (· + 1) hattempts.symm)

/-- What a retry returns is expired, unless the retry counts. -/
theorem retry_counts {deliveryId now : String} {retryPolicy : PartialRetryPolicy} :
    (retryMeshDelivery env deliveryId now retryPolicy).wp
      (fun row _ => row.status = .expired ∨ retryCounts env s deliveryId now retryPolicy = true)
      (fun _ => True) s := by
  simp only [retryMeshDelivery, Call.wp_bind, Call.wp_read]
  cases hload : loadCurrentDelivery env s deliveryId none with
  | none => simp only [Call.wp_fail]
  | some current =>
      simp only [Call.wp_ite, Call.wp_bind, Call.wp_refuse, Call.wp_lift, Call.wp_pure]
      refine ⟨fun _ => ?_, fun hlive => ⟨fun _ => trivial, fun hretry => ⟨fun hmax => ?_,
        fun _ => ⟨fun retryAt hlater => ?_, fun _ _ => trivial⟩⟩⟩⟩
      · exact wp_endDelivery.mpr ⟨fun _ => trivial, fun _ => .inl rfl⟩
      · refine wp_endDelivery.mpr ⟨fun _ => trivial, fun _ => .inr ?_⟩
        rw [Nat.cast_add_one] at hmax
        simp [retryCounts, hload, hlive, hretry, hmax]
      · refine wp_appendDelivery.mpr ⟨fun _ => trivial, fun _ => .inr ?_⟩
        simp [retryCounts, hload, hlive, hretry, hlater, Except.toBool]

/-- No other command changes what is on record. -/
theorem command_same {command : Command} (h : Own s)
    (hclaim : ∀ now limit, command ≠ .claimDue now limit)
    (hretry : ∀ deliveryId now retryPolicy, command ≠ .retry deliveryId now retryPolicy) :
    (command.call env).wp (fun _ => Adds s []) (Adds s []) s := by
  have hrefl : Adds s [] s := .refl h
  cases command with
  | claimDue now limit => exact absurd rfl (hclaim now limit)
  | retry deliveryId now retryPolicy => exact absurd rfl (hretry deliveryId now retryPolicy)
  | accept request now =>
      simp only [Command.call, Call.wp_void, acceptMeshRequest, Call.wp_bind, Call.wp_lift,
        Call.wp_read]
      refine ⟨fun _ hvalid => ?_, fun _ _ => hrefl⟩
      cases hfind : findCurrentDeliveryByIdempotency env s request with
      | some current => simpa only [Call.wp_pure] using hrefl
      | none =>
          simp only [Call.wp_bind, Call.wp_lift, Call.wp_pure]
          exact ⟨fun _ _ => appendNewDelivery_adds h (current_none hvalid hfind),
            fun _ _ => hrefl⟩
  | enqueue request route policyVersion now =>
      simp only [Command.call, Call.wp_void, enqueueMeshDelivery, Call.wp_bind, Call.wp_lift,
        Call.wp_read]
      refine ⟨fun _ hfresh => ?_, fun _ _ => hrefl⟩
      obtain ⟨_, hvalid, -⟩ := except_bind_ok hfresh
      cases hfind : findCurrentDeliveryByIdempotency env s request with
      | some current => simpa only [Call.wp_pure] using hrefl
      | none => exact appendNewDelivery_adds h (current_none hvalid hfind)
  | acknowledge deliveryId receipt =>
      simp only [Command.call, Call.wp_void, acknowledgeMeshDelivery, Call.wp_bind, Call.wp_read]
      cases hload : loadCurrentDelivery env s deliveryId none with
      | none => simpa only [Call.wp_fail] using hrefl
      | some current =>
          have hid : current.deliveryId ≠ "" := h.found_ne hload
          simp only [Call.wp_bind, Call.wp_refuse, Call.wp_pure]
          exact ⟨fun _ => hrefl, fun _ => appendDelivery_same hrefl hid
            (attempts_of_current (h.found hload)).symm⟩
  | reject deliveryId reason =>
      simp only [Command.call, Call.wp_void, rejectMeshDelivery, Call.wp_bind, Call.wp_read]
      cases hload : loadCurrentDelivery env s deliveryId none with
      | none => simpa only [Call.wp_fail] using hrefl
      | some current =>
          have hid : current.deliveryId ≠ "" := h.found_ne hload
          simp only [Call.wp_bind, Call.wp_refuse, Call.wp_pure]
          exact ⟨fun _ => hrefl, fun _ => endDelivery_same hrefl hid
            (attempts_of_current (h.found hload)).symm⟩
  | expire now =>
      simp only [Command.call, Call.wp_void, expireMeshDeliveries, Call.wp_bind, Call.wp_read,
        Call.wp_pure]
      refine Call.wp_each (I := Adds s []) (fun row hrow t ht => ?_) hrefl
      have hloaded := (List.mem_filter.mp hrow).1
      have hid : row.deliveryId ≠ "" := h.loaded_ne hloaded
      refine endDelivery_same ht hid ?_
      change row.attemptCount = t.attempts row.key
      rw [ht.attempts, attempts_of_current (h.loaded hloaded)]
      rfl

end Commands

section Runs

variable {env : MeshEnv} {s : Store} {command : Command}

/-- What a command adds to the record: what it hands out, and what it puts back or gives up. -/
theorem command_adds (h : Own s) :
    Adds s ((handedRows env s command ++ retriedRows env s command).map fun row => row.key)
      ((command.call env).run s).1 := by
  by_cases hclaim : ∃ now limit, command = .claimDue now limit
  · obtain ⟨now, limit, rfl⟩ := hclaim
    have hadds : (claimDueMeshDeliveries env now limit).wp _ _ s := claimDue_adds h
    simp only [Command.call, Call.void_fst, handedRows, retriedRows, List.append_nil]
    cases hret : ((claimDueMeshDeliveries env now limit).run s).2 with
    | ok rows => exact Call.wp_ok hadds hret
    | error e => exact (Call.wp_error hadds hret).elim
  by_cases hretry : ∃ deliveryId now retryPolicy, command = .retry deliveryId now retryPolicy
  · obtain ⟨deliveryId, now, retryPolicy, rfl⟩ := hretry
    have hadds : (retryMeshDelivery env deliveryId now retryPolicy).wp _ _ s := retry_adds h
    simp only [Command.call, Call.void_fst, handedRows, retriedRows, List.nil_append]
    cases hret : ((retryMeshDelivery env deliveryId now retryPolicy).run s).2 with
    | ok row =>
        have hrow := Call.wp_ok hadds hret
        by_cases hexpired : row.status = .expired <;> simpa [hexpired] using hrow
    | error e => exact Call.wp_error hadds hret
  · have hsame : (command.call env).wp (fun _ => Adds s []) (Adds s []) s :=
      command_same h (fun now limit hc => hclaim ⟨now, limit, hc⟩)
        fun deliveryId now retryPolicy hc => hretry ⟨deliveryId, now, retryPolicy, hc⟩
    have hnone : handedRows env s command ++ retriedRows env s command = [] := by
      cases command <;> simp_all [handedRows, retriedRows]
    rw [hnone]
    exact Call.wp_fst.mp hsame

/-- A command that is no counting retry puts nothing back and gives nothing up. -/
theorem retriedRows_nil {l : Ledger} {a : Action} (hok : countedOnce l a = true) :
    retriedRows a.env l.store a.command = [] := by
  cases hop : a.command with
  | retry deliveryId now retryPolicy =>
      simp only [countedOnce, hop, Bool.not_eq_true'] at hok
      simp only [retriedRows]
      cases hret : ((retryMeshDelivery a.env deliveryId now retryPolicy).run l.store).2 with
      | ok row =>
          rcases Call.wp_ok retry_counts hret with hexpired | hcounts
          · exact if_pos hexpired
          · exact absurd (hok.symm.trans hcounts) (by decide)
      | error e => rfl
  | _ => rfl

/-- The attempts on record are the hand-outs and the retries together. -/
structure Charged (l : Ledger) : Prop where
  own : Own l.store
  attempts : ∀ key, l.store.attempts key = l.handed.count key + l.retried.count key

theorem Charged.start : Charged ⟨.empty, [], [], []⟩ where
  own _ _ hrow := absurd hrow List.not_mem_nil
  attempts _ := rfl

theorem Charged.step {l m : Ledger} {a : Action} (h : Charged l) (hstep : ledger.step l a = some m) :
    Charged m := by
  obtain rfl := Option.some.inj hstep
  have hadds : Adds l.store _ ((a.command.call a.env).run l.store).1 := command_adds h.own
  refine ⟨hadds.own, fun key => ?_⟩
  have hkey := hadds.attempts key
  have hbefore := h.attempts key
  simp only [List.map_append, List.count_append] at hkey ⊢
  omega

theorem charged_reachable {l : Ledger} (hl : ledger.Reachable l) : Charged l := by
  refine hl.invariant (I := Charged) (fun l hinit => ?_) fun l a m h _ hstep => h.step hstep
  obtain rfl : l = ⟨.empty, [], [], []⟩ := hinit
  exact .start

/-- In a run without a retry that counts, nothing was put back and nothing given up. -/
theorem retried_nil {l : Ledger} (hl : ledger.Reach (fun l a => countedOnce l a = true) l) :
    l.retried = [] ∧ l.exhausted = [] := by
  refine hl.invariant (I := fun l => l.retried = [] ∧ l.exhausted = []) (fun l hinit => ?_)
    fun l a m h hok hstep => ?_
  · obtain rfl : l = ⟨.empty, [], [], []⟩ := hinit
    exact ⟨rfl, rfl⟩
  · obtain rfl := Option.some.inj hstep
    simp [h.1, h.2, retriedRows_nil hok]

/-- In a run without a retry that counts, the attempts on record are the hand-outs. In any run
they are so for the deliveries that no retry has put back or given up, and for no others. -/
theorem attempts_are_handouts (l : Ledger) :
    (ledger.Reach (fun l a => countedOnce l a = true) l → Accounted l) ∧
    (ledger.Reachable l → ∀ tenant id row, l.store.current tenant id = some row →
      (row.attemptCount = l.handed.count (tenant, id) ↔ (tenant, id) ∉ l.retried)) := by
  have hattempts (hl : ledger.Reachable l) {tenant id : String}
      {row : MeshHubDeliveryRecord} (hrow : l.store.current tenant id = some row) :
      row.attemptCount = l.handed.count (tenant, id) + l.retried.count (tenant, id) := by
    rw [← (charged_reachable hl).attempts]
    simp [Store.attempts, hrow]
  refine ⟨fun hl => ?_, fun hl tenant id row hrow => ?_⟩
  · obtain ⟨hretried, hexhausted⟩ := retried_nil hl
    refine ⟨fun tenant id row hrow => ?_, fun key limit hin => ?_⟩
    · rw [hattempts hl.reachable hrow, hretried]
      rfl
    · rw [hexhausted] at hin
      exact absurd hin List.not_mem_nil
  · rw [hattempts hl hrow, ← List.count_eq_zero]
    omega

def claimAction : Action where
  env := plainEnv
  command := .claimDue "" 10

/-- A retry without delay, under the limit of five attempts that holds when none is given. -/
def promptRetry : Action where
  env := plainEnv
  command := .retry "mhd-0" "" { initialDelayMs := some 0 }

def attemptsOf (l : Ledger) : ℕ :=
  l.store.attempts ("acme", "mhd-0")

theorem attempts_are_handouts_claimed :
    ∃ l, l.handed = [("acme", "mhd-0")] ∧ attemptsOf l = 1 ∧ Accounted l := by
  obtain ⟨l, hl, hhanded, hattempts⟩ := ledger.exists_reach_of_execOk countedOnce
    (s := ⟨.empty, [], [], []⟩) [acceptAction, claimAction]
    (fun l => l.handed = [("acme", "mhd-0")] ∧ attemptsOf l = 1) rfl (by decide +kernel)
  exact ⟨l, hhanded, hattempts, (attempts_are_handouts l).1 hl⟩

/-- A delivery with five attempts to make is given up after it was handed out three times. -/
theorem three_handouts_exhaust_five : ¬ ∀ l, ledger.Reachable l → Accounted l := by
  intro h
  obtain ⟨l, hl, hin, hhanded⟩ := Transition.System.exists_reachable_of_exec (S := ledger)
    (s := ⟨.empty, [], [], []⟩)
    [acceptAction, claimAction, promptRetry, claimAction, promptRetry, claimAction, promptRetry]
    (fun l => (("acme", "mhd-0"), 5) ∈ l.exhausted ∧ l.handed.count ("acme", "mhd-0") = 3)
    rfl (by decide +kernel)
  have hlimit := (h l hl).exhausted _ _ hin
  rw [hhanded] at hlimit
  exact absurd hlimit (by decide)

end Runs

end Kyberion.Mesh
