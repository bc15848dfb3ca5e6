import Kyberion.Mesh.Broker

/-!
A delivery that is over stays over and has one dead letter at most, when nobody
acknowledges, rejects or retries a delivery that is over. Nothing else would
stop it: `acknowledgeMeshDelivery` and `rejectMeshDelivery` do not look at the
status, and `retryMeshDelivery` looks at it only before the expiry.
-/

namespace Kyberion.Mesh

open Js

/-- No delivery that is over in `s` has another status in `t`. -/
def Final (s t : Store) : Prop :=
  ∀ tenant id row, s.current tenant id = some row → row.status.terminal = true →
    ∃ now, t.current tenant id = some now ∧ now.status = row.status

def OneDeadLetter (s : Store) : Prop :=
  ∀ tenant id, (s.lettersOf tenant id).length ≤ 1

/-- The command leaves the status of a delivery that is over alone. -/
def leavesEnded (s : Store) (a : Action) : Bool :=
  match a.command with
  | .acknowledge deliveryId receipt =>
      (loadCurrentDelivery a.env s deliveryId none).all fun current =>
        !current.status.terminal || (receipt.completed && current.status = .completed) ||
          a.env.clock.reached (orElse receipt.acknowledgedAt a.env.nowIso) current.expiresAt
  | .reject deliveryId _ =>
      (loadCurrentDelivery a.env s deliveryId none).all fun current =>
        !current.status.terminal || a.env.clock.reached a.env.nowIso current.expiresAt
  | .retry deliveryId now _ =>
      (loadCurrentDelivery a.env s deliveryId none).all fun current =>
        !current.status.terminal || !a.env.clock.reached now current.expiresAt
  | _ => true

/-- Every row lies with its tenant. -/
def Own (s : Store) : Prop :=
  ∀ tenant, ∀ row ∈ s.deliveries tenant, row.tenantScope.tenantId = tenant

/-- Every row lies with its tenant, and only a delivery that is over has a dead letter. -/
structure Inv (s : Store) : Prop where
  own : Own s
  one : OneDeadLetter s
  ended : ∀ tenant id, s.lettersOf tenant id ≠ [] →
    ∃ row, s.current tenant id = some row ∧ row.status.terminal = true

section Files

variable {s : Store} {tenant id : String} {row : MeshHubDeliveryRecord}

theorem deliveryKey_eq (hid : id ≠ "") : deliveryKey row = some id ↔ row.deliveryId = id := by
  unfold deliveryKey
  split
  · rename_i hempty
    simp [hempty, hid.symm]
  · simp

theorem deliveryKey_some (h : deliveryKey row = some id) : row.deliveryId = id ∧ id ≠ "" := by
  unfold deliveryKey at h
  split at h
  · cases h
  · rename_i hne
    obtain rfl := Option.some.inj h
    exact ⟨rfl, hne⟩

theorem current_addDelivery (other : String) :
    (s.addDelivery tenant row).current other id =
      if other = tenant ∧ deliveryKey row = some id then some row else s.current other id := by
  unfold Store.current Store.addDelivery
  by_cases h : other = tenant
  · subst h
    simp [lastFor_concat]
  · simp [h]

theorem current_compactDeliveries (other : String) :
    (s.compactDeliveries tenant).current other id = s.current other id := by
  unfold Store.current Store.compactDeliveries
  dsimp only
  by_cases h : other = tenant
  · subst h
    rw [Function.update_self]
    refine lastFor_compactByKey fun a b j ha hj hb => ?_
    obtain ⟨hid, hne⟩ := deliveryKey_some ha
    rw [deliveryKey_eq hne, Option.some.inj hb, ← Option.some.inj hj, hid]
  · rw [Function.update_of_ne h]

theorem mem_compactDeliveries {other : String}
    (h : row ∈ (s.compactDeliveries tenant).deliveries other) : row ∈ s.deliveries other := by
  unfold Store.compactDeliveries at h
  by_cases htenant : other = tenant
  · subst htenant
    exact (compactByKey_sublist _ _).subset (by simpa using h)
  · simpa [htenant] using h

theorem lettersOf_compactDeadLetters (other : String) :
    ((s.compactDeadLetters tenant).lettersOf other id).Sublist (s.lettersOf other id) := by
  unfold Store.lettersOf Store.compactDeadLetters
  dsimp only
  by_cases h : other = tenant
  · subst h
    rw [Function.update_self]
    exact (compactByKey_sublist _ _).filter _
  · rw [Function.update_of_ne h]

theorem lettersOf_addDeadLetter {letter : MeshDeadLetterRecord} (other : String) :
    (s.addDeadLetter tenant letter).lettersOf other id =
      s.lettersOf other id ++
        if other = tenant ∧ letter.deliveryId = id then [letter] else [] := by
  unfold Store.lettersOf Store.addDeadLetter
  by_cases h : other = tenant
  · subst h
    by_cases hid : letter.deliveryId = id <;> simp [List.filter_append, hid]
  · simp [h]

/-- The last row for a key in some files is the last of one of them. -/
theorem lastFor_flatMap {tenants : List String}
    (h : lastFor deliveryKey id (tenants.flatMap s.deliveries) = some row) :
    ∃ tenant, s.current tenant id = some row := by
  induction tenants with
  | nil => cases h
  | cons tenant rest ih =>
      rw [List.flatMap_cons, lastFor_append] at h
      cases hrest : lastFor deliveryKey id (rest.flatMap s.deliveries) with
      | none =>
          rw [hrest, Option.none_or] at h
          exact ⟨tenant, h⟩
      | some last =>
          rw [hrest, Option.some_or] at h
          exact ih (hrest.trans h)

theorem Own.current (h : Own s) (hcur : s.current tenant id = some row) :
    row.tenantScope.tenantId = tenant ∧ row.deliveryId = id ∧ id ≠ "" := by
  obtain ⟨hmem, hkey⟩ := mem_of_lastFor hcur
  exact ⟨h tenant row hmem, deliveryKey_some hkey⟩

/-- A row that was loaded is the latest of its delivery. -/
theorem Own.loaded (h : Own s) {env : MeshEnv} {tenantId : Option String}
    (hrow : row ∈ loadCurrentDeliveries env s tenantId) :
    s.current row.tenantScope.tenantId row.deliveryId = some row := by
  obtain ⟨k, hk, hlast⟩ := mem_latestById.mp hrow
  obtain ⟨tenant, hcur⟩ := lastFor_flatMap hlast
  obtain ⟨htenant, hid, -⟩ := h.current hcur
  rw [htenant, hid, hcur]

theorem Own.found (h : Own s) {env : MeshEnv} {deliveryId : String} {tenantId : Option String}
    (hrow : loadCurrentDelivery env s deliveryId tenantId = some row) :
    s.current row.tenantScope.tenantId row.deliveryId = some row := by
  unfold loadCurrentDelivery at hrow
  split at hrow
  · cases hrow
  · exact h.loaded (List.mem_of_find?_eq_some hrow)

end Files

/-- The store after a row has been appended and the file maintained. -/
def Store.appended (env : MeshEnv) (s : Store) (row : MeshHubDeliveryRecord) : Store :=
  let t := s.addDelivery row.tenantScope.tenantId row
  if env.maintains t then t.compactDeliveries row.tenantScope.tenantId else t

def Store.lettered (env : MeshEnv) (s : Store) (letter : MeshDeadLetterRecord) : Store :=
  let t := s.addDeadLetter letter.tenantScope.tenantId letter
  if env.maintains t then t.compactDeadLetters letter.tenantScope.tenantId else t

/-- The row may come after what the delivery is now. -/
def Follows (s : Store) (row : MeshHubDeliveryRecord) : Prop :=
  ∀ old, s.current row.tenantScope.tenantId row.deliveryId = some old →
    old.status.terminal = true → row.status = old.status

section Appends

variable {env : MeshEnv} {s t u : Store} {row next : MeshHubDeliveryRecord}
  {letter : MeshDeadLetterRecord} {Q : Unit → Store → Prop} {E : Store → Prop}

theorem wp_appendDelivery :
    (appendDelivery env row).wp Q E s ↔
      (isValidTenantSlug row.tenantScope.tenantId = false → E s) ∧
        (isValidTenantSlug row.tenantScope.tenantId = true → Q () (s.appended env row)) := by
  simp [appendDelivery, maintain, Store.appended]

theorem wp_appendDeadLetter :
    (appendDeadLetter env letter).wp Q E s ↔
      (isValidTenantSlug letter.tenantScope.tenantId = false → E s) ∧
        (isValidTenantSlug letter.tenantScope.tenantId = true → Q () (s.lettered env letter)) := by
  simp [appendDeadLetter, maintain, Store.lettered]

theorem current_appended (tenant id : String) :
    (s.appended env row).current tenant id =
      if tenant = row.tenantScope.tenantId ∧ deliveryKey row = some id then some row
      else s.current tenant id := by
  rw [← current_addDelivery]
  unfold Store.appended
  dsimp only
  split
  · exact current_compactDeliveries tenant
  · rfl

theorem current_appended_of_ne {tenant id : String} (h : id ≠ row.deliveryId) :
    (s.appended env row).current tenant id = s.current tenant id := by
  rw [current_appended, if_neg]
  rintro ⟨-, hsame⟩
  exact h (deliveryKey_some hsame).1.symm

theorem lettersOf_appended (tenant id : String) :
    (s.appended env row).lettersOf tenant id = s.lettersOf tenant id := by
  unfold Store.appended
  dsimp only
  split <;> rfl

theorem current_lettered (tenant id : String) :
    (s.lettered env letter).current tenant id = s.current tenant id := by
  unfold Store.lettered
  dsimp only
  split <;> rfl

theorem lettersOf_lettered (tenant id : String) :
    ((s.lettered env letter).lettersOf tenant id).Sublist
      (s.lettersOf tenant id ++
        if tenant = letter.tenantScope.tenantId ∧ letter.deliveryId = id then [letter] else []) := by
  rw [← lettersOf_addDeadLetter]
  unfold Store.lettered
  dsimp only
  split
  · exact lettersOf_compactDeadLetters tenant
  · exact List.Sublist.refl _

theorem Final.refl (s : Store) : Final s s :=
  fun _ _ row hrow _ => ⟨row, hrow, rfl⟩

theorem Final.trans (h : Final s t) (h' : Final t u) : Final s u := by
  intro tenant id row hrow hended
  obtain ⟨now, hnow, hstatus⟩ := h tenant id row hrow hended
  obtain ⟨last, hlast, hsame⟩ := h' tenant id now hnow (hstatus ▸ hended)
  exact ⟨last, hlast, hsame.trans hstatus⟩

theorem Final.appended (h : Follows s row) : Final s (s.appended env row) := by
  intro tenant id old hold hended
  rw [current_appended]
  split
  · rename_i hsame
    obtain ⟨rfl, hkey⟩ := hsame
    obtain ⟨rfl, -⟩ := deliveryKey_some hkey
    exact ⟨row, rfl, h old hold hended⟩
  · exact ⟨old, hold, rfl⟩

theorem mem_appended {tenant : String} (h : next ∈ (s.appended env row).deliveries tenant) :
    next ∈ s.deliveries tenant ∨ next = row ∧ tenant = row.tenantScope.tenantId := by
  have hadd (hmem : next ∈ (s.addDelivery row.tenantScope.tenantId row).deliveries tenant) :
      next ∈ s.deliveries tenant ∨ next = row ∧ tenant = row.tenantScope.tenantId := by
    unfold Store.addDelivery at hmem
    by_cases htenant : tenant = row.tenantScope.tenantId
    · subst htenant
      simpa using hmem
    · exact .inl (by simpa [htenant] using hmem)
  unfold Store.appended at h
  dsimp only at h
  split at h
  · exact hadd (mem_compactDeliveries h)
  · exact hadd h

theorem Own.appended (h : Own s) : Own (s.appended env row) := by
  intro tenant next hnext
  rcases mem_appended hnext with hold | ⟨rfl, rfl⟩
  · exact h tenant next hold
  · rfl

theorem Inv.appended (h : Inv s) (hrow : Follows s row) : Inv (s.appended env row) where
  own := h.own.appended
  one tenant id := by
    rw [lettersOf_appended]
    exact h.one tenant id
  ended tenant id hletters := by
    rw [lettersOf_appended] at hletters
    obtain ⟨old, hold, hended⟩ := h.ended tenant id hletters
    have hfinal : Final s (s.appended env row) := .appended hrow
    obtain ⟨now, hnow, hstatus⟩ := hfinal tenant id old hold hended
    exact ⟨now, hnow, hstatus ▸ hended⟩

theorem deliveries_lettered (tenant : String) :
    (s.lettered env letter).deliveries tenant = s.deliveries tenant := by
  unfold Store.lettered
  dsimp only
  split <;> rfl

/-- The first dead letter of a delivery that is over. -/
theorem Inv.lettered (h : Inv s)
    (hcur : s.current letter.tenantScope.tenantId letter.deliveryId = some row)
    (hended : row.status.terminal = true)
    (hfirst : s.lettersOf letter.tenantScope.tenantId letter.deliveryId = []) :
    Inv (s.lettered env letter) where
  own tenant next hnext := h.own tenant next (deliveries_lettered tenant ▸ hnext)
  one tenant id := by
    refine (lettersOf_lettered tenant id).length_le.trans ?_
    split
    · rename_i hsame
      obtain ⟨rfl, rfl⟩ := hsame
      simp [hfirst]
    · simpa using h.one tenant id
  ended tenant id hletters := by
    rw [current_lettered]
    by_cases hsame : tenant = letter.tenantScope.tenantId ∧ letter.deliveryId = id
    · obtain ⟨rfl, rfl⟩ := hsame
      exact ⟨row, hcur, hended⟩
    · refine h.ended tenant id fun hnone => hletters ?_
      have hsub : ((s.lettered env letter).lettersOf tenant id).Sublist _ :=
        lettersOf_lettered tenant id
      rw [if_neg hsame, hnone] at hsub
      exact List.eq_nil_of_sublist_nil hsub

theorem Final.lettered : Final s (s.lettered env letter) :=
  fun tenant id row hrow _ => ⟨row, (current_lettered tenant id).trans hrow, rfl⟩

/-- A delivery that is not over has no dead letter. -/
theorem Inv.unlettered (h : Inv s) {tenant id : String} (hcur : s.current tenant id = some row)
    (hlive : row.status.terminal = false) : s.lettersOf tenant id = [] := by
  by_contra hletters
  obtain ⟨old, hold, hended⟩ := h.ended tenant id hletters
  obtain rfl := Option.some.inj (hcur.symm.trans hold)
  rw [hlive] at hended
  cases hended

end Appends

section Commands

variable {env : MeshEnv} {s t : Store} {row next : MeshHubDeliveryRecord}

/-- What a command leaves behind: the invariant, and what was over as it was. -/
def Kept (s t : Store) : Prop :=
  Inv t ∧ Final s t

theorem appendDelivery_keeps (h : Kept s t) (hrow : Follows t row) :
    (appendDelivery env row).wp (fun _ => Kept s) (Kept s) t :=
  wp_appendDelivery.mpr ⟨fun _ => h, fun _ => ⟨h.1.appended hrow, h.2.trans (.appended hrow)⟩⟩

/-- A delivery that was not over ends, and other deliveries are left as they are. -/
theorem endDelivery_keeps {failureClass : MeshFailureClass} {reason : RejectReason}
    (h : Kept s t) (hrow : t.current row.tenantScope.tenantId row.deliveryId = some row)
    (hlive : row.status.terminal = false) (htenant : next.tenantScope = row.tenantScope)
    (hid : next.deliveryId = row.deliveryId) (hended : next.status.terminal = true) :
    (endDelivery env next failureClass reason).wp
      (fun _ u => Kept s u ∧ ∀ tenant id, id ≠ row.deliveryId →
        u.current tenant id = t.current tenant id) (Kept s) t := by
  have hfollows : Follows t next := by
    intro old hold hover
    rw [htenant, hid, hrow] at hold
    obtain rfl := Option.some.inj hold
    rw [hlive] at hover
    cases hover
  have hkey : deliveryKey next = some next.deliveryId := by
    refine (deliveryKey_eq ?_).mpr rfl
    rw [hid]
    exact (h.1.own.current hrow).2.2
  have hinv : Inv (t.appended env next) := h.1.appended hfollows
  have hfinal : Final s (t.appended env next) := h.2.trans (.appended hfollows)
  simp only [endDelivery, Call.wp_bind]
  refine wp_appendDelivery.mpr ⟨fun _ => h, fun _ => wp_appendDeadLetter.mpr
    ⟨fun _ => ⟨hinv, hfinal⟩, fun _ => ⟨⟨?_, hfinal.trans .lettered⟩, fun tenant id hne => ?_⟩⟩⟩
  · have hcurrent : (t.appended env next).current next.tenantScope.tenantId next.deliveryId =
        some next := by
      rw [current_appended]
      exact if_pos ⟨rfl, hkey⟩
    refine hinv.lettered hcurrent hended ?_
    have hletters : t.lettersOf next.tenantScope.tenantId next.deliveryId = [] := by
      rw [htenant, hid]
      exact h.1.unlettered hrow hlive
    rw [lettersOf_appended]
    exact hletters
  · rw [current_lettered, current_appended_of_ne (hid.symm ▸ hne)]

/-- Deliveries that a loop still has to visit are as they were loaded, and none is over. -/
structure Pending (s : Store) (rest : List MeshHubDeliveryRecord) (t : Store) : Prop where
  kept : Kept s t
  live : ∀ row ∈ rest, t.current row.tenantScope.tenantId row.deliveryId = some row ∧
    row.status.terminal = false
  distinct : rest.Pairwise fun a b => a.deliveryId ≠ b.deliveryId

/-- Rows that were loaded together are about different deliveries. -/
theorem loaded_distinct {rest : List MeshHubDeliveryRecord}
    (hsub : rest.Subperm (loadCurrentDeliveries env s none)) :
    rest.Pairwise fun a b => a.deliveryId ≠ b.deliveryId := by
  have hpairs := latestById_pairwise deliveryKey ((tenantIds env s).flatMap s.deliveries)
  obtain ⟨sub, hperm, hsublist⟩ := hsub
  refine hperm.pairwise ((hpairs.sublist hsublist).imp fun {a b} hab heq => hab ?_)
    fun {a b} hab => hab.symm
  unfold deliveryKey
  rw [heq]

theorem Pending.all {rest : List MeshHubDeliveryRecord} (h : Inv s)
    (hsub : rest.Subperm (loadCurrentDeliveries env s none))
    (hlive : ∀ row ∈ rest, row.status.terminal = false) : Pending s rest s where
  kept := ⟨h, .refl s⟩
  live row hrow := ⟨h.own.loaded (hsub.subset hrow), hlive row hrow⟩
  distinct := loaded_distinct hsub

theorem Pending.done {rest : List MeshHubDeliveryRecord} (h : Pending s (row :: rest) t)
    {u : Store} (hkept : Kept s u)
    (hframe : ∀ tenant id, id ≠ row.deliveryId → u.current tenant id = t.current tenant id) :
    Pending s rest u where
  kept := hkept
  live other hother := by
    have hne := (List.pairwise_cons.mp h.distinct).1 other hother
    rw [hframe _ _ hne.symm]
    exact h.live other (List.mem_cons_of_mem row hother)
  distinct := (List.pairwise_cons.mp h.distinct).2

theorem appendNewDelivery_keeps {request : MeshRequest} {route : MeshDeliveryRoute}
    {now : Option String} (h : Inv s)
    (hnew : s.current request.tenantScope.tenantId (deliveryIdForRequest env request) = none) :
    (appendNewDelivery env request route now).wp (fun _ => Kept s) (Kept s) s := by
  have hfollows (expiresAt : String) :
      Follows s (acceptedSnapshot env request route (orElse now env.nowIso) expiresAt) := by
    intro old hold
    cases (hnew.symm.trans hold : none = some old)
  have hkept : Kept s s := ⟨h, .refl s⟩
  simp only [appendNewDelivery, Call.wp_bind, Call.wp_lift, Call.wp_pure]
  refine ⟨fun expiresAt _ => ?_, fun _ _ => hkept⟩
  refine wp_appendDelivery.mpr ⟨fun _ => hkept, fun _ => ?_⟩
  refine appendDelivery_keeps ⟨h.appended (hfollows expiresAt), .appended (hfollows expiresAt)⟩ ?_
  -- the queued row follows the accepted one, which is not over
  intro old hold hover
  rw [current_appended] at hold
  split at hold
  · obtain rfl := Option.some.inj hold
    cases hover
  · cases (hnew.symm.trans hold : none = some old)

theorem deliveryId_trim {request : MeshRequest} :
    trim (deliveryIdForRequest env request) = deliveryIdForRequest env request := by
  unfold deliveryIdForRequest
  rw [← String.ofList_toList (s := "mhd-"), ← String.ofList_append]
  refine trim_ofList fun c hc => ?_
  rcases List.mem_append.mp hc with hlead | hdigest
  · simp at hlead
    rcases hlead with rfl | rfl | rfl | rfl <;> decide
  · have hall := List.all_eq_true.mp (HexDigest.wellFormed _) c (List.mem_of_mem_take hdigest)
    exact idChar_notWhiteSpace (by simp_all)

theorem deliveryId_ne {request : MeshRequest} : deliveryIdForRequest env request ≠ "" := by
  intro hempty
  have hlist := congrArg String.toList hempty
  simp [deliveryIdForRequest] at hlist

theorem tenant_ne {request : MeshRequest} (hvalid : validateTenantScope request = .ok ()) :
    request.tenantScope.tenantId ≠ "" := by
  obtain ⟨hslug, -⟩ := throwIf_eq_ok.mp hvalid
  exact fun hempty => hslug (.inl hempty)

theorem mem_loadCurrentDeliveries {tenant : String} (htenant : tenant ≠ "") :
    row ∈ loadCurrentDeliveries env s (some tenant) ↔
      ∃ id, deliveryKey row = some id ∧ s.current tenant id = some row := by
  unfold loadCurrentDeliveries
  rw [mem_latestById]
  simp [Option.filter, htenant, Store.current]

/-- The delivery of a request is looked up under its id. -/
theorem loadCurrentDelivery_request {request : MeshRequest}
    (hvalid : validateTenantScope request = .ok ()) :
    loadCurrentDelivery env s (deliveryIdForRequest env request)
      (some request.tenantScope.tenantId) =
        s.current request.tenantScope.tenantId (deliveryIdForRequest env request) := by
  have hid : deliveryIdForRequest env request ≠ "" := deliveryId_ne
  rw [loadCurrentDelivery, isBlank, deliveryId_trim, if_neg (by simpa using hid)]
  have hmem (q : MeshHubDeliveryRecord) :
      q ∈ loadCurrentDeliveries env s (some request.tenantScope.tenantId) ↔
        q ∈ latestById deliveryKey (s.deliveries request.tenantScope.tenantId) := by
    rw [mem_loadCurrentDeliveries (tenant_ne hvalid), mem_latestById]
    rfl
  have hfind := find_current (k := deliveryIdForRequest env request) hmem
  simp only [deliveryKey_eq hid] at hfind
  exact hfind

theorem current_none {request : MeshRequest}
    (hvalid : validateTenantScope request = .ok ())
    (h : findCurrentDeliveryByIdempotency env s request = none) :
    s.current request.tenantScope.tenantId (deliveryIdForRequest env request) = none := by
  rw [← loadCurrentDelivery_request hvalid]
  exact (Option.or_eq_none_iff.mp h).1

theorem follows_of_live
    (hrow : s.current row.tenantScope.tenantId row.deliveryId = some row)
    (htenant : next.tenantScope = row.tenantScope) (hid : next.deliveryId = row.deliveryId)
    (hnext : row.status.terminal = true → next.status = row.status) : Follows s next := by
  intro old hold hover
  rw [htenant, hid, hrow] at hold
  obtain rfl := Option.some.inj hold
  exact hnext hover

theorem retryable_live {status : MeshDeliveryStatus} (h : ¬ notRetryable status = true) :
    status.terminal = false := by
  cases status <;> simp_all [notRetryable, MeshDeliveryStatus.terminal]

/-- One command keeps the invariant, and leaves what is over as it is. -/
theorem command_keeps {a : Action} (h : Inv s) (hok : leavesEnded s a = true) :
    Kept s ((a.command.call a.env).run s).1 := by
  rw [← Call.wp_fst (m := a.command.call a.env) (I := Kept s)]
  have hkept : Kept s s := ⟨h, .refl s⟩
  have hlive {row : MeshHubDeliveryRecord} {other : Bool}
      (hrow : (!row.status.terminal || other) = true) (hother : other = false) :
      row.status.terminal = false := by
    simpa [hother] using hrow
  cases hop : a.command with
  | accept request now =>
      simp only [Command.call, Call.wp_void, acceptMeshRequest, Call.wp_bind, Call.wp_lift,
        Call.wp_read]
      refine ⟨fun _ hvalid => ?_, fun _ _ => hkept⟩
      cases hfind : findCurrentDeliveryByIdempotency a.env s request with
      | some current => simpa only [Call.wp_pure] using hkept
      | none =>
          simp only [Call.wp_bind, Call.wp_lift, Call.wp_pure]
          exact ⟨fun _ _ => appendNewDelivery_keeps h (current_none hvalid hfind),
            fun _ _ => hkept⟩
  | enqueue request route policyVersion now =>
      simp only [Command.call, Call.wp_void, enqueueMeshDelivery, Call.wp_bind, Call.wp_lift,
        Call.wp_read]
      refine ⟨fun _ hfresh => ?_, fun _ _ => hkept⟩
      obtain ⟨_, hvalid, -⟩ := except_bind_ok hfresh
      cases hfind : findCurrentDeliveryByIdempotency a.env s request with
      | some current => simpa only [Call.wp_pure] using hkept
      | none => exact appendNewDelivery_keeps h (current_none hvalid hfind)
  | claimDue now limit =>
      simp only [Command.call, Call.wp_void, claimDueMeshDeliveries, Call.wp_bind, Call.wp_read,
        Call.wp_pure]
      have hpending : Pending s ((((loadCurrentDeliveries a.env s none).filter
          (isDue a.env now)).mergeSort (dispatchesBefore a.env)).take limit.toNat) s := by
        refine .all h (((List.take_sublist _ _).subperm.trans
          (List.mergeSort_perm _ _).subperm).trans List.filter_sublist.subperm) fun row hrow => ?_
        have hdue := (List.mem_filter.mp (List.mem_mergeSort.mp (List.mem_of_mem_take hrow))).2
        simp only [isDue, Bool.and_eq_true, decide_eq_true_eq] at hdue
        rw [hdue.1]
        rfl
      refine Call.wp_mono (fun _ _ ht => ht.kept) (fun _ ht => ht)
        (Call.wp_each_rest (I := Pending s) (fun row rest t ht => ?_) hpending)
      obtain ⟨hrow, hlive⟩ := ht.live row List.mem_cons_self
      have hfollows : Follows t (dispatchedRow row) :=
        follows_of_live hrow rfl rfl fun hover => by
          rw [hlive] at hover
          cases hover
      refine wp_appendDelivery.mpr ⟨fun _ => ht.kept, fun _ => ht.done ?_ ?_⟩
      · exact ⟨ht.kept.1.appended hfollows, ht.kept.2.trans (.appended hfollows)⟩
      · exact fun tenant id hne => current_appended_of_ne hne
  | acknowledge deliveryId receipt =>
      simp only [Command.call, Call.wp_void, acknowledgeMeshDelivery, Call.wp_bind, Call.wp_read]
      cases hload : loadCurrentDelivery a.env s deliveryId none with
      | none => simpa only [Call.wp_fail] using hkept
      | some current =>
          simp only [Call.wp_bind, Call.wp_refuse, Call.wp_pure]
          refine ⟨fun _ => hkept, fun hbefore => appendDelivery_keeps hkept ?_⟩
          refine follows_of_live (h.own.found hload) rfl rfl fun hover => ?_
          simp only [leavesEnded, hop, hload, Option.all_some, hover, Bool.not_true,
            Bool.false_or, Bool.or_eq_true, Bool.and_eq_true, decide_eq_true_eq] at hok
          obtain ⟨hcompleted, hstatus⟩ := hok.resolve_right hbefore
          simp [acknowledgedRow, hcompleted, hstatus]
  | reject deliveryId reason =>
      simp only [Command.call, Call.wp_void, rejectMeshDelivery, Call.wp_bind, Call.wp_read]
      cases hload : loadCurrentDelivery a.env s deliveryId none with
      | none => simpa only [Call.wp_fail] using hkept
      | some current =>
          simp only [Call.wp_bind, Call.wp_refuse, Call.wp_pure]
          refine ⟨fun _ => hkept, fun hbefore => ?_⟩
          simp only [leavesEnded, hop, hload, Option.all_some] at hok
          exact Call.wp_mono (fun _ _ ht => ht.1) (fun _ ht => ht) (endDelivery_keeps hkept
            (h.own.found hload) (hlive hok (by simpa using hbefore)) rfl rfl rfl)
  | retry deliveryId now retryPolicy =>
      simp only [Command.call, Call.wp_void, retryMeshDelivery, Call.wp_bind, Call.wp_read]
      cases hload : loadCurrentDelivery a.env s deliveryId none with
      | none => simpa only [Call.wp_fail] using hkept
      | some current =>
          have hfound := h.own.found hload
          simp only [leavesEnded, hop, hload, Option.all_some] at hok
          simp only [Call.wp_ite, Call.wp_bind, Call.wp_refuse, Call.wp_lift, Call.wp_pure]
          refine ⟨fun hreached => ?_, fun _ => ⟨fun _ => hkept, fun hretry => ⟨fun _ => ?_,
            fun _ => ⟨fun retryAt _ => ?_, fun _ _ => hkept⟩⟩⟩⟩
          · exact Call.wp_mono (fun _ _ ht => ht.1) (fun _ ht => ht) (endDelivery_keeps hkept
              hfound (hlive hok (by simpa using hreached)) rfl rfl rfl)
          · exact Call.wp_mono (fun _ _ ht => ht.1) (fun _ ht => ht) (endDelivery_keeps hkept
              hfound (retryable_live hretry) rfl rfl rfl)
          · refine appendDelivery_keeps hkept (follows_of_live hfound rfl rfl fun hover => ?_)
            rw [retryable_live hretry] at hover
            cases hover
  | expire now =>
      simp only [Command.call, Call.wp_void, expireMeshDeliveries, Call.wp_bind, Call.wp_read,
        Call.wp_pure]
      have hpending : Pending s ((loadCurrentDeliveries a.env s none).filter
          (expires a.env now)) s := by
        refine .all h List.filter_sublist.subperm fun row hrow => ?_
        have hexpires := (List.mem_filter.mp hrow).2
        cases hstatus : row.status <;> simp_all [expires, MeshDeliveryStatus.terminal]
      refine Call.wp_mono (fun _ _ ht => ht.kept) (fun _ ht => ht)
        (Call.wp_each_rest (I := Pending s) (fun row rest t ht => ?_) hpending)
      obtain ⟨hrow, hlive⟩ := ht.live row List.mem_cons_self
      exact Call.wp_mono (fun _ _ hu => ht.done hu.1 hu.2) (fun _ hu => hu)
        (endDelivery_keeps ht.kept hrow hlive rfl rfl rfl)

end Commands

section Runs

theorem inv_reach {s : Store} (hs : broker.Reach (fun s a => leavesEnded s a = true) s) :
    Inv s := by
  refine hs.invariant (I := Inv) (fun s hs => ?_) fun s a t h hok hstep => ?_
  · obtain rfl : s = .empty := hs
    exact ⟨fun _ _ hrow => absurd hrow List.not_mem_nil, fun _ _ => Nat.zero_le 1,
      fun _ _ hletters => absurd rfl hletters⟩
  · obtain rfl := Option.some.inj hstep
    exact (command_keeps h hok).1

/-- In a run that leaves ended deliveries alone, no command moves a delivery that is over, and no
delivery gets a second dead letter. -/
theorem ended_deliveries_final {s t : Store} {a : Action}
    (hs : broker.Reach (fun s a => leavesEnded s a = true) s) (hok : leavesEnded s a = true)
    (hstep : broker.step s a = some t) : Final s t ∧ OneDeadLetter t := by
  obtain rfl := Option.some.inj hstep
  obtain ⟨hinv, hfinal⟩ := command_keeps (inv_reach hs) hok
  exact ⟨hfinal, hinv.one⟩

/-- Instants as texts of their length. -/
def plainEnv : MeshEnv where
  clock :=
    ⟨fun text => some text.length, fun n => some (String.ofList (List.replicate n.toNat '0'))⟩
  nowIso := ""
  uuids := id
  sha256 := fun _ => ⟨['0'], by decide⟩
  localeCompare := compare
  readdir := id
  maintains := fun _ => false

def acceptAction : Action where
  env := plainEnv
  command := .accept
    { requestId := "r", tenantScope := ⟨"acme", "same_tenant"⟩, createdAt := "", ttlMs := 2
      idempotencyKey := "k", requestKind := .reviewRequest, target := .peer "p"
      payload := ⟨.public_, ⟨"a", "h", "vault"⟩⟩ } none

def completeAction : Action where
  env := plainEnv
  command := .acknowledge "mhd-0" { completed := true }

def retryAction (now : String) : Action where
  env := plainEnv
  command := .retry "mhd-0" now {}

def statusOf (s : Store) : Option MeshDeliveryStatus :=
  (s.current "acme" "mhd-0").map fun row => row.status

theorem ended_deliveries_final_after_completion : ∃ s t, statusOf s = some .completed ∧
    broker.step s (retryAction "0") = some t ∧ Final s t ∧ OneDeadLetter t := by
  obtain ⟨s, hs, hstatus, hok⟩ := broker.exists_reach_of_execOk leavesEnded (s := .empty)
    [acceptAction, completeAction]
    (fun s => statusOf s = some .completed ∧ leavesEnded s (retryAction "0") = true) rfl
    (by decide +kernel)
  exact ⟨s, _, hstatus, rfl, ended_deliveries_final hs hok rfl⟩

/-- A retry after the expiry turns a completed delivery into an expired one. -/
theorem completed_delivery_expires :
    ¬ ∀ s t a, broker.Reachable s → broker.step s a = some t → Final s t ∧ OneDeadLetter t := by
  intro h
  obtain ⟨s, hs, hstatus, hnext⟩ := Transition.System.exists_reachable_of_exec (S := broker)
    (s := .empty) [acceptAction, completeAction]
    (fun s => statusOf s = some .completed ∧
      (broker.step s (retryAction "00")).bind statusOf = some .expired) rfl (by decide +kernel)
  obtain ⟨row, hrow, hcompleted⟩ := Option.map_eq_some_iff.mp hstatus
  obtain ⟨now, hnow, hsame⟩ := (h s _ (retryAction "00") hs rfl).1 "acme" "mhd-0" row hrow
    (by rw [hcompleted]; rfl)
  obtain ⟨t, ht, hexpired⟩ := Option.bind_eq_some_iff.mp hnext
  obtain rfl := Option.some.inj ht
  rw [statusOf, hnow, Option.map_some, hsame, hcompleted] at hexpired
  cases hexpired

end Runs

end Kyberion.Mesh
