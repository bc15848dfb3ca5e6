import Kyberion.Mesh.Finality

/-!
One delivery for each tenant and idempotency key. A request without a key is
looked up under the empty key but stored under "unknown", so it is told apart
from a request whose key is "unknown" only while the tenant has none of the other.
-/

namespace Kyberion.Mesh

open Js

/-- Commands and folds of the files, in any order. -/
inductive StoreAction
  | command (action : Action)
  | compact (tenant : String)

def meshStore : Transition.System Store StoreAction where
  init s := s = .empty
  step s
    | .command a => broker.step s a
    | .compact tenant => some ((s.compactDeliveries tenant).compactDeadLetters tenant)

/-- The key under which the delivery of a request is stored. -/
def storedKey (request : MeshRequest) : String :=
  orElse (some request.idempotencyKey) "unknown"

/-- No delivery of the tenant is stored under the fallback key but the request's own. -/
def meetsNoFallback (env : MeshEnv) (s : Store) (request : MeshRequest) : Bool :=
  storedKey request ≠ "unknown" ||
    (loadCurrentDeliveries env s (some request.tenantScope.tenantId)).all fun row =>
      row.idempotencyKey ≠ "unknown" || row.deliveryId = deliveryIdForRequest env request

/-- The command brings no request that the fallback key confuses with another. -/
def keepsFallbackApart (s : Store) : StoreAction → Bool
  | .command a =>
      match a.command with
      | .accept request _ => meetsNoFallback a.env s request
      | .enqueue request _ _ _ => meetsNoFallback a.env s request
      | _ => true
  | .compact _ => true

/-- Every command digests with the same function. -/
def Digests (sha256 : String → HexDigest) : StoreAction → Prop
  | .command a => a.env.sha256 = sha256
  | .compact _ => True

def OneDeliveryPerKey (s : Store) : Prop :=
  ∀ tenant id id' row row', s.current tenant id = some row → s.current tenant id' = some row' →
    row.idempotencyKey = row'.idempotencyKey → id = id'

/-- Every delivery of `s` is a delivery of `t`, under the same key. -/
def Lasting (s t : Store) : Prop :=
  ∀ tenant id row, s.current tenant id = some row →
    ∃ now, t.current tenant id = some now ∧ now.idempotencyKey = row.idempotencyKey

/-- `deliveryIdForRequest` for a tenant and a key. -/
def deliveryIdOf (sha256 : String → HexDigest) (tenant key : String) : String :=
  "mhd-" ++ String.ofList ((sha256 (tenant ++ ":" ++ key)).chars.take 24)

/-- The id of a delivery comes from its tenant and the key of its request. -/
structure KeyInv (sha256 : String → HexDigest) (s : Store) : Prop where
  own : Own s
  named : ∀ tenant id row, s.current tenant id = some row → row.idempotencyKey ≠ "" ∧
    (id = deliveryIdOf sha256 tenant row.idempotencyKey ∨
      row.idempotencyKey = "unknown" ∧ id = deliveryIdOf sha256 tenant "")
  one : OneDeliveryPerKey s

section Lasting

variable {env : MeshEnv} {s t u : Store} {row next : MeshHubDeliveryRecord}

theorem Lasting.refl (s : Store) : Lasting s s :=
  fun _ _ row hrow => ⟨row, hrow, rfl⟩

theorem Lasting.trans (h : Lasting s t) (h' : Lasting t u) : Lasting s u := by
  intro tenant id row hrow
  obtain ⟨now, hnow, hkey⟩ := h tenant id row hrow
  obtain ⟨last, hlast, hsame⟩ := h' tenant id now hnow
  exact ⟨last, hlast, hsame.trans hkey⟩

theorem Lasting.of_current (h : ∀ tenant id, t.current tenant id = s.current tenant id) :
    Lasting s t :=
  fun tenant id row hrow => ⟨row, (h tenant id).trans hrow, rfl⟩

/-- The row is a later snapshot of a delivery. -/
def Continues (s : Store) (row : MeshHubDeliveryRecord) : Prop :=
  ∃ old, s.current row.tenantScope.tenantId row.deliveryId = some old ∧
    old.idempotencyKey = row.idempotencyKey

theorem Continues.mono (h : Continues s row) (hlast : Lasting s t) : Continues t row := by
  obtain ⟨old, hold, hkey⟩ := h
  obtain ⟨now, hnow, hsame⟩ := hlast _ _ old hold
  exact ⟨now, hnow, hsame.trans hkey⟩

theorem Continues.lasting (h : Continues s row) : Lasting s (s.appended env row) := by
  intro tenant id old hold
  rw [current_appended]
  split
  · rename_i hsame
    obtain ⟨rfl, hkey⟩ := hsame
    obtain ⟨rfl, -⟩ := deliveryKey_some hkey
    obtain ⟨last, hlast, hkey⟩ := h
    obtain rfl := Option.some.inj (hlast.symm.trans hold)
    exact ⟨row, rfl, hkey.symm⟩
  · exact ⟨old, hold, rfl⟩

theorem lasting_of_new (h : s.current row.tenantScope.tenantId row.deliveryId = none) :
    Lasting s (s.appended env row) := by
  intro tenant id old hold
  rw [current_appended, if_neg]
  · exact ⟨old, hold, rfl⟩
  · rintro ⟨rfl, hkey⟩
    obtain ⟨rfl, -⟩ := deliveryKey_some hkey
    cases (h.symm.trans hold : none = some old)

end Lasting

section Keys

variable {env : MeshEnv} {sha256 : String → HexDigest} {s t : Store}
  {row : MeshHubDeliveryRecord} {request : MeshRequest}

/-- The invariant looks only at which deliveries there are, and under which keys. -/
theorem KeyInv.of_current (h : KeyInv sha256 s) (hown : Own t)
    (hback : ∀ tenant id now, t.current tenant id = some now →
      ∃ old, s.current tenant id = some old ∧ old.idempotencyKey = now.idempotencyKey) :
    KeyInv sha256 t where
  own := hown
  named tenant id now hnow := by
    obtain ⟨old, hold, hkey⟩ := hback tenant id now hnow
    exact hkey ▸ h.named tenant id old hold
  one tenant id id' now now' hnow hnow' hsame := by
    obtain ⟨old, hold, hkey⟩ := hback tenant id now hnow
    obtain ⟨old', hold', hkey'⟩ := hback tenant id' now' hnow'
    exact h.one tenant id id' old old' hold hold' (by rw [hkey, hkey', hsame])

theorem KeyInv.continues (h : KeyInv sha256 s) (hrow : Continues s row) :
    KeyInv sha256 (s.appended env row) := by
  refine h.of_current h.own.appended fun tenant id now hnow => ?_
  rw [current_appended] at hnow
  split at hnow
  · rename_i hsame
    obtain ⟨rfl, hkey⟩ := hsame
    obtain ⟨rfl, -⟩ := deliveryKey_some hkey
    obtain rfl := Option.some.inj hnow
    exact hrow
  · exact ⟨now, hnow, rfl⟩

/-- A delivery under a key that the tenant did not have. -/
theorem KeyInv.new (h : KeyInv sha256 s) (hkey : row.idempotencyKey ≠ "")
    (hid : row.deliveryId = deliveryIdOf sha256 row.tenantScope.tenantId row.idempotencyKey ∨
      row.idempotencyKey = "unknown" ∧
        row.deliveryId = deliveryIdOf sha256 row.tenantScope.tenantId "")
    (hnew : ∀ id old, s.current row.tenantScope.tenantId id = some old →
      old.idempotencyKey ≠ row.idempotencyKey) :
    KeyInv sha256 (s.appended env row) where
  own := h.own.appended
  named tenant id now hnow := by
    rw [current_appended] at hnow
    split at hnow
    · rename_i hsame
      obtain ⟨rfl, hdelivery⟩ := hsame
      obtain ⟨rfl, -⟩ := deliveryKey_some hdelivery
      obtain rfl := Option.some.inj hnow
      exact ⟨hkey, hid⟩
    · exact h.named tenant id now hnow
  one tenant id id' now now' hnow hnow' hsame := by
    rw [current_appended] at hnow hnow'
    split at hnow <;> split at hnow'
    · rename_i hrow hrow'
      exact Option.some.inj (hrow.2.symm.trans hrow'.2)
    · rename_i hrow _
      obtain ⟨rfl, -⟩ := hrow
      obtain rfl := Option.some.inj hnow
      exact absurd hsame.symm (hnew id' now' hnow')
    · rename_i _ hrow
      obtain ⟨rfl, -⟩ := hrow
      obtain rfl := Option.some.inj hnow'
      exact absurd hsame (hnew id now hnow)
    · exact h.one tenant id id' now now' hnow hnow' hsame

/-- A delivery stored under the key of a request has the id of the request. -/
theorem KeyInv.id_of_storedKey (h : KeyInv sha256 s) (hsha : env.sha256 = sha256)
    (hvalid : validateTenantScope request = .ok ())
    (hok : meetsNoFallback env s request = true) {id : String}
    (hrow : s.current request.tenantScope.tenantId id = some row)
    (hkey : row.idempotencyKey = storedKey request) : id = deliveryIdForRequest env request := by
  obtain ⟨-, hid, hne⟩ := h.own.current hrow
  by_cases hfallback : storedKey request = "unknown"
  · have hmem : row ∈ loadCurrentDeliveries env s (some request.tenantScope.tenantId) :=
      (mem_loadCurrentDeliveries (tenant_ne hvalid)).mpr
        ⟨id, (deliveryKey_eq hne).mpr hid, hrow⟩
    simp only [meetsNoFallback, hfallback, ne_eq, not_true_eq_false, decide_false,
      Bool.false_or] at hok
    have happart := List.all_eq_true.mp hok row hmem
    rw [hkey, hfallback] at happart
    rw [← hid]
    simpa using happart
  · obtain ⟨-, hnamed⟩ := h.named _ id row hrow
    rw [hkey] at hnamed
    have hne : request.idempotencyKey ≠ "" := fun hempty =>
      hfallback (by simp [storedKey, orElse, hempty])
    have hraw : storedKey request = request.idempotencyKey := by simp [storedKey, orElse, hne]
    have hname := hnamed.resolve_right fun hunknown => hfallback hunknown.1
    rw [hname, hraw, ← hsha]
    rfl

/-- What a command leaves behind: the invariant, and every delivery there was. -/
def Steady (sha256 : String → HexDigest) (s t : Store) : Prop :=
  KeyInv sha256 t ∧ Lasting s t

theorem appendDelivery_steady (h : Steady sha256 s t) (hrow : Continues t row) :
    (appendDelivery env row).wp (fun _ => Steady sha256 s) (Steady sha256 s) t :=
  wp_appendDelivery.mpr ⟨fun _ => h, fun _ => ⟨h.1.continues hrow, h.2.trans hrow.lasting⟩⟩

theorem Steady.lettered {letter : MeshDeadLetterRecord} (h : Steady sha256 s t) :
    Steady sha256 s (t.lettered env letter) := by
  refine ⟨h.1.of_current (fun tenant row hrow => ?_) fun tenant id now hnow => ?_,
    h.2.trans (.of_current current_lettered)⟩
  · exact h.1.own tenant row (deliveries_lettered tenant ▸ hrow)
  · exact ⟨now, (current_lettered tenant id).symm.trans hnow, rfl⟩

theorem endDelivery_steady {failureClass : MeshFailureClass} {reason : RejectReason}
    (h : Steady sha256 s t) (hrow : Continues t row) :
    (endDelivery env row failureClass reason).wp (fun _ => Steady sha256 s)
      (Steady sha256 s) t := by
  simp only [endDelivery, Call.wp_bind]
  refine Call.wp_mono (fun _ u hu => ?_) (fun _ hu => hu) (appendDelivery_steady h hrow)
  exact wp_appendDeadLetter.mpr ⟨fun _ => hu, fun _ => hu.lettered⟩

end Keys

section Commands

variable {env : MeshEnv} {sha256 : String → HexDigest} {s t : Store} {request : MeshRequest}

theorem storedKey_ne : storedKey request ≠ "" := by
  unfold storedKey orElse
  dsimp only
  split
  · decide
  · assumption

theorem storedKey_named :
    deliveryIdForRequest env request =
        deliveryIdOf env.sha256 request.tenantScope.tenantId (storedKey request) ∨
      storedKey request = "unknown" ∧ deliveryIdForRequest env request =
        deliveryIdOf env.sha256 request.tenantScope.tenantId "" := by
  by_cases hempty : request.idempotencyKey = ""
  · right
    refine ⟨by simp [storedKey, orElse, hempty], ?_⟩
    rw [← hempty]
    rfl
  · left
    have hraw : storedKey request = request.idempotencyKey := by
      simp [storedKey, orElse, hempty]
    rw [hraw]
    rfl

theorem appendNewDelivery_steady {route : MeshDeliveryRoute} {now : Option String}
    (h : KeyInv sha256 s) (hsha : env.sha256 = sha256)
    (hvalid : validateTenantScope request = .ok ()) (hok : meetsNoFallback env s request = true)
    (hfind : findCurrentDeliveryByIdempotency env s request = none) :
    (appendNewDelivery env request route now).wp (fun _ => Steady sha256 s)
      (Steady sha256 s) s := by
  have hnew := current_none hvalid hfind
  have hkeys : ∀ id old, s.current request.tenantScope.tenantId id = some old →
      old.idempotencyKey ≠ storedKey request := by
    intro id old hold hkey
    obtain rfl := h.id_of_storedKey hsha hvalid hok hold hkey
    cases (hnew.symm.trans hold : none = some old)
  have hstart : Steady sha256 s s := ⟨h, .refl s⟩
  simp only [appendNewDelivery, Call.wp_bind, Call.wp_lift, Call.wp_pure]
  refine ⟨fun expiresAt _ => ?_, fun _ _ => hstart⟩
  refine wp_appendDelivery.mpr ⟨fun _ => hstart, fun _ => ?_⟩
  refine appendDelivery_steady ⟨?_, lasting_of_new hnew⟩ ?_
  · exact h.new storedKey_ne (hsha ▸ storedKey_named) hkeys
  -- the queued row is a later snapshot of the accepted one
  · refine ⟨acceptedSnapshot env request route (orElse now env.nowIso) expiresAt, ?_, ?_⟩
    · rw [current_appended]
      exact if_pos ⟨rfl, (deliveryKey_eq deliveryId_ne).mpr rfl⟩
    · have hne : storedKey request ≠ "" := storedKey_ne
      show storedKey request = orElse (some (storedKey request)) "unknown"
      simp [orElse, hne]

/-- One command keeps the deliveries apart and loses none. -/
theorem command_steady {a : Action} (h : KeyInv sha256 s) (hsha : a.env.sha256 = sha256)
    (hok : keepsFallbackApart s (.command a) = true) :
    Steady sha256 s ((a.command.call a.env).run s).1 := by
  rw [← Call.wp_fst (m := a.command.call a.env) (I := Steady sha256 s)]
  have hstart : Steady sha256 s s := ⟨h, .refl s⟩
  have hloaded {tenantId : Option String} {row : MeshHubDeliveryRecord}
      (hrow : row ∈ loadCurrentDeliveries a.env s tenantId) :
      s.current row.tenantScope.tenantId row.deliveryId = some row := h.own.loaded hrow
  cases hop : a.command with
  | accept request now =>
      simp only [keepsFallbackApart, hop] at hok
      simp only [Command.call, Call.wp_void, acceptMeshRequest, Call.wp_bind, Call.wp_lift,
        Call.wp_read]
      refine ⟨fun _ hvalid => ?_, fun _ _ => hstart⟩
      cases hfind : findCurrentDeliveryByIdempotency a.env s request with
      | some current => simpa only [Call.wp_pure] using hstart
      | none =>
          simp only [Call.wp_bind, Call.wp_lift, Call.wp_pure]
          exact ⟨fun _ _ => appendNewDelivery_steady h hsha hvalid hok hfind, fun _ _ => hstart⟩
  | enqueue request route policyVersion now =>
      simp only [keepsFallbackApart, hop] at hok
      simp only [Command.call, Call.wp_void, enqueueMeshDelivery, Call.wp_bind, Call.wp_lift,
        Call.wp_read]
      refine ⟨fun _ hfresh => ?_, fun _ _ => hstart⟩
      obtain ⟨_, hvalid, -⟩ := except_bind_ok hfresh
      cases hfind : findCurrentDeliveryByIdempotency a.env s request with
      | some current => simpa only [Call.wp_pure] using hstart
      | none => exact appendNewDelivery_steady h hsha hvalid hok hfind
  | claimDue now limit =>
      simp only [Command.call, Call.wp_void, claimDueMeshDeliveries, Call.wp_bind, Call.wp_read,
        Call.wp_pure]
      refine Call.wp_each (fun row hrow t ht => appendDelivery_steady ht ?_) hstart
      have hmem := (List.mem_filter.mp (List.mem_mergeSort.mp (List.mem_of_mem_take hrow))).1
      have hcontinues : Continues s (dispatchedRow row) := ⟨row, hloaded hmem, rfl⟩
      exact hcontinues.mono ht.2
  | acknowledge deliveryId receipt =>
      simp only [Command.call, Call.wp_void, acknowledgeMeshDelivery, Call.wp_bind, Call.wp_read]
      cases hload : loadCurrentDelivery a.env s deliveryId none with
      | none => simpa only [Call.wp_fail] using hstart
      | some current =>
          simp only [Call.wp_bind, Call.wp_refuse, Call.wp_pure]
          exact ⟨fun _ => hstart, fun _ =>
            appendDelivery_steady hstart ⟨current, h.own.found hload, rfl⟩⟩
  | reject deliveryId reason =>
      simp only [Command.call, Call.wp_void, rejectMeshDelivery, Call.wp_bind, Call.wp_read]
      cases hload : loadCurrentDelivery a.env s deliveryId none with
      | none => simpa only [Call.wp_fail] using hstart
      | some current =>
          simp only [Call.wp_bind, Call.wp_refuse, Call.wp_pure]
          exact ⟨fun _ => hstart, fun _ =>
            endDelivery_steady hstart ⟨current, h.own.found hload, rfl⟩⟩
  | retry deliveryId now retryPolicy =>
      simp only [Command.call, Call.wp_void, retryMeshDelivery, Call.wp_bind, Call.wp_read]
      cases hload : loadCurrentDelivery a.env s deliveryId none with
      | none => simpa only [Call.wp_fail] using hstart
      | some current =>
          have hfound := h.own.found hload
          simp only [Call.wp_ite, Call.wp_bind, Call.wp_refuse, Call.wp_lift, Call.wp_pure]
          refine ⟨fun _ => ?_, fun _ => ⟨fun _ => hstart, fun _ => ⟨fun _ => ?_,
            fun _ => ⟨fun retryAt _ => ?_, fun _ _ => hstart⟩⟩⟩⟩
          · exact endDelivery_steady hstart ⟨current, hfound, rfl⟩
          · exact endDelivery_steady hstart ⟨current, hfound, rfl⟩
          · exact appendDelivery_steady hstart ⟨current, hfound, rfl⟩
  | expire now =>
      simp only [Command.call, Call.wp_void, expireMeshDeliveries, Call.wp_bind, Call.wp_read,
        Call.wp_pure]
      refine Call.wp_each (fun row hrow t ht => endDelivery_steady ht ?_) hstart
      have hmem := (List.mem_filter.mp hrow).1
      have hcontinues : Continues s (expiredRow row) := ⟨row, hloaded hmem, rfl⟩
      exact hcontinues.mono ht.2

theorem step_steady {a : StoreAction} (h : KeyInv sha256 s) (hsha : Digests sha256 a)
    (hok : keepsFallbackApart s a = true) (hstep : meshStore.step s a = some t) :
    Steady sha256 s t := by
  cases a with
  | command a =>
      obtain rfl := Option.some.inj hstep
      exact command_steady h hsha hok
  | compact tenant =>
      obtain rfl := Option.some.inj hstep
      have hcurrent (other id : String) : ((s.compactDeliveries tenant).compactDeadLetters
          tenant).current other id = s.current other id := current_compactDeliveries other
      refine ⟨h.of_current (fun other row hrow => h.own other row ?_) fun other id now hnow =>
        ⟨now, (hcurrent other id).symm.trans hnow, rfl⟩, .of_current hcurrent⟩
      exact mem_compactDeliveries hrow

end Commands

section Runs

variable {sha256 : String → HexDigest}

theorem keyInv_reach {s : Store}
    (hs : meshStore.Reach (fun s a => Digests sha256 a ∧ keepsFallbackApart s a = true) s) :
    KeyInv sha256 s := by
  refine hs.invariant (fun s hs => ?_) fun s a t h hok hstep =>
    (step_steady h hok.1 hok.2 hstep).1
  obtain rfl : s = .empty := hs
  refine ⟨fun _ _ hrow => absurd hrow List.not_mem_nil, ?_, ?_⟩
  · intro tenant id row hrow
    cases hrow
  · intro tenant id id' row row' hrow
    cases hrow

/-- An accept whose delivery is there returns it and writes nothing. -/
theorem accept_duplicate {env : MeshEnv} {s : Store} {request : MeshRequest}
    {row : MeshHubDeliveryRecord} (h : KeyInv sha256 s) (hsha : env.sha256 = sha256)
    (hvalid : validateTenantScope request = .ok ()) (hok : meetsNoFallback env s request = true)
    {id : String} (hrow : s.current request.tenantScope.tenantId id = some row)
    (hkey : row.idempotencyKey = storedKey request) (now : Option String) :
    (acceptMeshRequest env request now).run s = (s, .ok (row, true)) := by
  obtain rfl := h.id_of_storedKey hsha hvalid hok hrow hkey
  have hfind : findCurrentDeliveryByIdempotency env s request = some row := by
    unfold findCurrentDeliveryByIdempotency
    dsimp only
    rw [loadCurrentDelivery_request hvalid, hrow, Option.some_or]
  refine Call.run_of_wp ?_
  simp only [acceptMeshRequest, Call.wp_bind, Call.wp_lift, Call.wp_read, hfind, Call.wp_pure,
    and_self, implies_true, true_and]
  intro e he
  rw [hvalid] at he
  cases he

/-- In a run that keeps the fallback key apart there is one delivery for each tenant and key, an
accept of what is there appends nothing and returns it, and no delivery is lost. -/
theorem accept_idempotent {s : Store}
    (hs : meshStore.Reach (fun s a => Digests sha256 a ∧ keepsFallbackApart s a = true) s) :
    OneDeliveryPerKey s ∧
      (∀ env request now id row, env.sha256 = sha256 → validateTenantScope request = .ok () →
        meetsNoFallback env s request = true →
        s.current request.tenantScope.tenantId id = some row →
        row.idempotencyKey = storedKey request →
        (acceptMeshRequest env request now).run s = (s, .ok (row, true))) ∧
      ∀ a t, Digests sha256 a → keepsFallbackApart s a = true → meshStore.step s a = some t →
        Lasting s t := by
  have h := keyInv_reach hs
  refine ⟨h.one, fun env request now id row hsha hvalid hok hrow hkey => ?_,
    fun a t hsha hok hstep => (step_steady h hsha hok hstep).2⟩
  exact accept_duplicate h hsha hvalid hok hrow hkey now

/-- Digests that tell texts apart by their length. -/
def lengthEnv : MeshEnv :=
  { plainEnv with
    sha256 := fun text =>
      ⟨List.replicate text.length '0', by
        rw [List.all_eq_true]
        intro c hc
        rw [List.eq_of_mem_replicate hc]
        decide⟩ }

def keyedRequest (key : String) : MeshRequest where
  requestId := "r"
  tenantScope := ⟨"acme", "same_tenant"⟩
  createdAt := ""
  ttlMs := 2
  idempotencyKey := key
  requestKind := .reviewRequest
  target := .peer "p"
  payload := ⟨.public_, ⟨"a", "h", "vault"⟩⟩

def acceptKeyed (key : String) : StoreAction :=
  .command ⟨lengthEnv, .accept (keyedRequest key) none⟩

def keysOf (s : Store) : List (String × String) :=
  (loadCurrentDeliveries lengthEnv s (some "acme")).map fun row =>
    (row.deliveryId, row.idempotencyKey)

theorem accept_idempotent_after_accept : ∃ s,
    keysOf s = [("mhd-000000", "k"), ("mhd-0000000", "kk")] ∧ OneDeliveryPerKey s ∧
      ((acceptMeshRequest lengthEnv (keyedRequest "kk") none).run s).1 = s := by
  obtain ⟨s, hs, hkeys, hok⟩ := meshStore.exists_reach_of_execOk_mem keepsFallbackApart
    (Q := Digests lengthEnv.sha256) (s := .empty)
    [acceptKeyed "k", acceptKeyed "kk", .compact "acme", acceptKeyed "k"]
    (fun s => keysOf s = [("mhd-000000", "k"), ("mhd-0000000", "kk")] ∧
      ((s.current "acme" "mhd-0000000").any fun row => row.idempotencyKey = "kk") = true)
    (fun a ha => by simp at ha; rcases ha with rfl | rfl | rfl | rfl <;> trivial) rfl
    (by decide +kernel)
  obtain ⟨hone, hduplicate, -⟩ := accept_idempotent hs
  obtain ⟨row, hrow, hkey⟩ := (Option.any_eq_true _ _).mp hok
  have hstored : row.idempotencyKey = storedKey (keyedRequest "kk") := by
    rw [decide_eq_true_eq] at hkey
    rw [hkey]
    rfl
  have hrun := hduplicate lengthEnv (keyedRequest "kk") none "mhd-0000000" row rfl rfl rfl hrow
    hstored
  exact ⟨s, hkeys, hone, by rw [hrun]⟩

/-- A request without a key is stored as a second delivery under "unknown". -/
theorem empty_key_accepted_twice :
    ¬ ∀ sha256 s, meshStore.Reach (fun _ a => Digests sha256 a) s → OneDeliveryPerKey s := by
  intro h
  obtain ⟨s, hs, hfirst, hsecond⟩ := meshStore.exists_reach_of_execOk_mem (fun _ _ => true)
    (Q := Digests lengthEnv.sha256) (s := .empty) [acceptKeyed "unknown", acceptKeyed ""]
    (fun s => ((s.current "acme" "mhd-000000000000").any fun row =>
        row.idempotencyKey = "unknown") = true ∧
      ((s.current "acme" "mhd-00000").any fun row => row.idempotencyKey = "unknown") = true)
    (fun a ha => by simp at ha; rcases ha with rfl | rfl <;> trivial) rfl (by decide +kernel)
  obtain ⟨row, hrow, hkey⟩ := (Option.any_eq_true _ _).mp hfirst
  obtain ⟨row', hrow', hkey'⟩ := (Option.any_eq_true _ _).mp hsecond
  have hsame : row.idempotencyKey = row'.idempotencyKey := by
    simp only [decide_eq_true_eq] at hkey hkey'
    rw [hkey, hkey']
  have hone := h _ s (hs.mono fun _ _ hok => hok.1) "acme" _ _ row row' hrow hrow' hsame
  revert hone
  decide

end Runs

end Kyberion.Mesh
