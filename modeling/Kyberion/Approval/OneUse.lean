import Kyberion.Transition
import Kyberion.Approval.Use

/-!
At most one use of an approval over a whole run. The run of locked calls on one
record keeps a history of what was granted; the invariant ties that history to
the marks on the record. The apply claim does not read the consumption, so the
invariant needs every apply claim to meet a record that carries none.
-/

namespace Kyberion.Approval

open Transition

inductive Call
  | claim (env : CallEnv) (params : ClaimParams)
  | consume (env : CallEnv) (params : ConsumeParams)
  | applyResult (params : ResultParams)
  | revoke (env : CallEnv) (params : RevokeParams)
  | revokeStandingEffect (env : CallEnv) (params : RevokeParams) (consumer effectRef : String)
  deriving DecidableEq, Repr

def Call.perform (host : Host) (record : ApprovalRequestRecord) :
    Call → Except String ApprovalRequestRecord
  | .claim env params => claimApprovalApply host env params (some record)
  | .consume env params => consumeApprovalWithin host env params (some record)
  | .applyResult params => recordApprovalApplyResultUnlocked params (some record)
  | .revoke env params => Approval.revoke host env params (some record)
  | .revokeStandingEffect env params consumer effectRef =>
      revokeStandingEffectApproval host env params consumer effectRef (some record)

inductive Event
  | claimed | consumed | revoked | recorded | refused
  deriving DecidableEq, Repr

def Event.isGrant : Event → Bool
  | .claimed | .consumed => true
  | _ => false

/-- What a call that returned has done. -/
def Call.effect : Call → Event
  | .claim _ _ => .claimed
  | .consume _ params => if params.consumes then .consumed else .recorded
  | .applyResult _ => .recorded
  | .revoke _ _ | .revokeStandingEffect _ _ _ _ => .revoked

structure UseState where
  record : ApprovalRequestRecord
  history : List Event
  deriving DecidableEq, Repr

def UseState.advance (s : UseState) (call : Call) :
    Except String ApprovalRequestRecord → UseState
  | .ok record => ⟨record, s.history ++ [call.effect]⟩
  | .error _ => ⟨s.record, s.history ++ [.refused]⟩

/-- Any sequence of calls on one record, whatever marks it starts with. -/
def useSystem (host : Host) : System UseState Call where
  init s := s.history = []
  step s call := some (s.advance call (call.perform host s.record))

def grants (history : List Event) : ℕ :=
  history.countP Event.isGrant

/-- At most one grant, and none once a revocation succeeded. -/
def UsedOnce (history : List Event) : Prop :=
  grants history ≤ 1 ∧ history.Pairwise fun e later => e = .revoked → later.isGrant = false

instance (history : List Event) : Decidable (UsedOnce history) := by
  unfold UsedOnce
  infer_instance

/-- The record carries a mark of one of the two ways to spend it. -/
def Spent (record : ApprovalRequestRecord) : Prop :=
  record.applyClaim.isSome ∨ record.consumption.isSome

structure UseInv (s : UseState) : Prop where
  usedOnce : UsedOnce s.history
  spent : grants s.history = 1 → Spent s.record
  revoked : Event.revoked ∈ s.history → s.record.revocation.isSome

/-- An apply claim is attempted only while the record carries no consumption. -/
def ClaimMeetsNoConsumption (s : UseState) (call : Call) : Prop :=
  ∀ env params, call = .claim env params → s.record.consumption = none

/-- What a call that returns does to the marks it does not own. -/
structure KeepsMarks (old new : ApprovalRequestRecord) : Prop where
  spent : Spent old → Spent new
  revoked : old.revocation.isSome → new.revocation.isSome

theorem perform_keepsMarks {host : Host} {record updated : ApprovalRequestRecord} {call : Call}
    (h : call.perform host record = .ok updated) : KeepsMarks record updated := by
  cases call with
  | claim env params =>
      obtain ⟨-, -, -, rfl⟩ := claimApprovalApply_ok h
      exact ⟨fun _ => .inl rfl, id⟩
  | consume env params =>
      obtain ⟨-, -, -, -, rfl⟩ := consumeApprovalWithin_ok h
      split
      · exact ⟨fun _ => .inr rfl, id⟩
      · exact ⟨id, id⟩
  | applyResult params =>
      obtain rfl := recordApprovalApplyResultUnlocked_ok h
      exact ⟨id, id⟩
  | revoke env params =>
      obtain ⟨-, -, rfl⟩ := revoke_ok h
      exact ⟨id, fun _ => rfl⟩
  | revokeStandingEffect env params consumer effectRef =>
      simp only [Call.perform, revokeStandingEffectApproval, Js.throwIf_eq_ok] at h
      obtain ⟨-, -, rfl⟩ := revoke_ok h.2
      exact ⟨id, fun _ => rfl⟩

/-- A grant needs an unrevoked record; away from the defect it needs an unspent one. -/
theorem perform_grant {host : Host} {s : UseState} {updated : ApprovalRequestRecord} {call : Call}
    (h : call.perform host s.record = .ok updated) (hgrant : call.effect.isGrant)
    (hok : ClaimMeetsNoConsumption s call) :
    s.record.revocation = none ∧ ¬ Spent s.record ∧ Spent updated := by
  cases call with
  | claim env params =>
      obtain ⟨hrevocation, hclaim, -, rfl⟩ := claimApprovalApply_ok h
      refine ⟨hrevocation, ?_, .inl rfl⟩
      simp [Spent, hclaim, hok env params rfl]
  | consume env params =>
      obtain ⟨hrevocation, hconsumption, hclaim, -, rfl⟩ := consumeApprovalWithin_ok h
      have hconsumes : params.consumes = true := by
        by_contra hno
        simp [Call.effect, hno, Event.isGrant] at hgrant
      refine ⟨hrevocation, by simp [Spent, hclaim, hconsumption], ?_⟩
      simp [Spent, hconsumes]
  | applyResult params => cases hgrant
  | revoke env params => cases hgrant
  | revokeStandingEffect env params consumer effectRef => cases hgrant

theorem perform_revoked {host : Host} {record updated : ApprovalRequestRecord} {call : Call}
    (h : call.perform host record = .ok updated) (hrevoked : call.effect = .revoked) :
    updated.revocation.isSome := by
  cases call with
  | claim env params => cases hrevoked
  | consume env params =>
      simp only [Call.effect] at hrevoked
      split at hrevoked <;> cases hrevoked
  | applyResult params => cases hrevoked
  | revoke env params =>
      obtain ⟨-, -, rfl⟩ := revoke_ok h
      rfl
  | revokeStandingEffect env params consumer effectRef =>
      simp only [Call.perform, revokeStandingEffectApproval, Js.throwIf_eq_ok] at h
      obtain ⟨-, -, rfl⟩ := revoke_ok h.2
      rfl

theorem grants_append (history : List Event) (e : Event) :
    grants (history ++ [e]) = grants history + if e.isGrant then 1 else 0 := by
  simp only [grants, List.countP_append, List.countP_singleton]

/-- A further event keeps the use discipline unless it is a grant too many. -/
theorem UsedOnce.append {history : List Event} (h : UsedOnce history) {e : Event}
    (hgrant : e.isGrant = true → grants history = 0 ∧ Event.revoked ∉ history) :
    UsedOnce (history ++ [e]) := by
  refine ⟨?_, ?_⟩
  · rw [grants_append]
    split
    · have := (hgrant ‹_›).1
      omega
    · exact h.1
  · rw [List.pairwise_append]
    refine ⟨h.2, List.pairwise_singleton _ _, ?_⟩
    intro x hx y hy hrevoked
    obtain rfl := List.mem_singleton.mp hy
    by_contra hyes
    exact (hgrant (by simpa using hyes)).2 (hrevoked ▸ hx)

theorem useInv_refused {s : UseState} (h : UseInv s) :
    UseInv ⟨s.record, s.history ++ [.refused]⟩ where
  usedOnce := h.usedOnce.append (by simp [Event.isGrant])
  spent hone := h.spent (by simpa [grants_append, Event.isGrant] using hone)
  revoked hmem := h.revoked (by simpa using hmem)

theorem useInv_returned {host : Host} {s : UseState} {call : Call}
    {updated : ApprovalRequestRecord} (h : UseInv s) (hok : ClaimMeetsNoConsumption s call)
    (hperform : call.perform host s.record = .ok updated) :
    UseInv ⟨updated, s.history ++ [call.effect]⟩ := by
  have hkeeps := perform_keepsMarks hperform
  refine ⟨h.usedOnce.append ?_, ?_, ?_⟩
  · intro hgrant
    obtain ⟨hrevocation, hunspent, -⟩ := perform_grant hperform hgrant hok
    constructor
    · have hle := h.usedOnce.1
      have hne : grants s.history ≠ 1 := fun hone => hunspent (h.spent hone)
      omega
    · intro hmem
      simpa [hrevocation] using h.revoked hmem
  · intro hone
    rw [grants_append] at hone
    split at hone
    · rename_i hgrant
      exact (perform_grant hperform hgrant hok).2.2
    · exact hkeeps.spent (h.spent hone)
  · intro hmem
    rcases List.mem_append.mp hmem with hold | hnew
    · exact hkeeps.revoked (h.revoked hold)
    · exact perform_revoked hperform (List.mem_singleton.mp hnew).symm

theorem useInv_step {host : Host} {s t : UseState} {call : Call} (h : UseInv s)
    (hok : ClaimMeetsNoConsumption s call) (hstep : (useSystem host).step s call = some t) :
    UseInv t := by
  obtain rfl := Option.some.inj hstep
  cases hperform : call.perform host s.record with
  | error message => exact useInv_refused h
  | ok updated => exact useInv_returned h hok hperform

theorem useInv_init {host : Host} {s : UseState} (h : (useSystem host).init s) : UseInv s := by
  change s.history = [] at h
  constructor <;> simp [h, UsedOnce, grants]

/-- Claims that meet no consumption keep every run at one use, and none after revocation. -/
theorem approval_used_at_most_once (host : Host) (s : UseState)
    (hs : (useSystem host).Reach ClaimMeetsNoConsumption s) : UsedOnce s.history := by
  have hinv : UseInv s :=
    hs.invariant (fun _ h => useInv_init h) (fun _ _ _ h hok hstep => useInv_step h hok hstep)
  exact hinv.usedOnce

/-- A host whose texts stand for themselves. -/
def plainHost : Host where
  unicode := ⟨id, id⟩
  dateParse := fun _ => none
  isoString := fun _ => "2026-01-01T00:00:00.000Z"
  payloadHash := fun record => if record.consumption.isSome then "spent" else "fresh"

def approvedRecord : ApprovalRequestRecord where
  id := "req-1"
  kind := .channelApproval
  storageChannel := "ops"
  channel := "ops"
  requestedBy := some "agent:dot"
  decidedBy := some "user:mina"
  status := .approved

def consumeCall : Call :=
  .consume ⟨0, false⟩ { requestId := "req-1", consumer := "shortcut", consumedBy := "dot" }

def claimCall (hash : String) : Call :=
  .claim ⟨1, false⟩ { appliedBy := "dot", expectedRecordHash := hash, uuid := "claim-1" }

theorem freshRun_init : (useSystem plainHost).init ⟨approvedRecord, []⟩ := rfl

theorem approval_used_at_most_once_claim_only :
    UsedOnce (UseState.mk { approvedRecord with
      applyClaim := some ⟨"claim-1", "2026-01-01T00:00:00.000Z", "dot"⟩ } [.claimed]).history :=
  approval_used_at_most_once plainHost _
    (.next (.start freshRun_init) (a := claimCall "fresh") (fun _ _ _ => rfl) (by rfl))

/-- Consuming an approval first and claiming it afterwards grants it twice. -/
theorem approval_used_twice :
    ¬ ∀ s, (useSystem plainHost).Reachable s → UsedOnce s.history := by
  intro h
  have hrun : (useSystem plainHost).exec ⟨approvedRecord, []⟩ [consumeCall, claimCall "spent"] =
      some ⟨{ approvedRecord with
        consumption := some ⟨"shortcut", "dot", "2026-01-01T00:00:00.000Z", none⟩
        applyClaim := some ⟨"claim-1", "2026-01-01T00:00:00.000Z", "dot"⟩ },
        [.consumed, .claimed]⟩ := by
    rfl
  have hused := h _ (System.reachable_of_exec freshRun_init hrun)
  revert hused
  decide

end Kyberion.Approval
