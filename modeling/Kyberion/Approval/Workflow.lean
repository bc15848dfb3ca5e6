import Kyberion.Approval.Decide
import Kyberion.Transition
import Mathlib.Data.List.Forall2

/-!
Requests that several roles must approve. A decision sets the status of the
request to itself, whatever the other roles have said, and it is written on
every role approval of the decider's role, decided or not. So a run keeps the
status and the table in step exactly when each of its decisions does.
-/

namespace Kyberion.Approval

structure DecisionAction where
  env : DecideEnv
  params : DecideParams

/-- Decisions one after another on one request that several roles must approve. -/
def decisions (host : DecisionHost) : Transition.System DecisionRecord DecisionAction where
  init record := record.status = .pending ∧
    record.workflow.any (fun workflow => workflow.mode ≠ .anyOf) = true
  step record a := ((decideApprovalRequestUnlocked host a.env a.params).run (some record)).1

def roleApprovals (record : DecisionRecord) : List RoleApproval :=
  record.workflow.elim [] (·.approvals)

/-- An approved request has the approval of every role. -/
def Complete (record : DecisionRecord) : Prop :=
  record.status = .approved → ∀ approval ∈ roleApprovals record, approval.status = .approved

def StageStatus.decided : StageStatus → Bool
  | .approved | .rejected => true
  | .pending | .skipped => false

/-- What a role has decided stays decided the same way. -/
def KeepsDecisions (record next : DecisionRecord) : Prop :=
  List.Forall₂ (fun before after : RoleApproval =>
    before.status.decided = true → after.status = before.status)
    (roleApprovals record) (roleApprovals next)

/-- An approval is of the last roles to approve, and no role is asked to change its mind. -/
def settles (record : DecisionRecord) (params : DecideParams) : Bool :=
  (roleApprovals record).all fun approval =>
    (params.decision = .rejected || approval.status = .approved || decidesRole params approval) &&
      (!decidesRole params approval || !approval.status.decided ||
        approval.status = params.decision.stage)

section Decisions

variable {host : DecisionHost} {env : DecideEnv} {params : DecideParams}
  {record next : DecisionRecord} {proof : DeciderProof} {verified : Bool}
  {shortfall : Option ApprovalAssuranceShortfall} {decidedAt : String}

theorem roleApprovals_decidedRecord :
    roleApprovals (decidedRecord params proof verified shortfall decidedAt record) =
      (roleApprovals record).map (decidedRole params proof decidedAt) := by
  unfold roleApprovals decidedRecord
  cases record.workflow <;> rfl

theorem decidedRole_status (approval : RoleApproval) :
    (decidedRole params proof decidedAt approval).status =
      if decidesRole params approval then params.decision.stage else approval.status := by
  unfold decidedRole
  split <;> rfl

theorem KeepsDecisions.refl (record : DecisionRecord) : KeepsDecisions record record :=
  List.forall₂_same.mpr fun _ _ _ => rfl

/-- The decision keeps status and table in step exactly when it settles its roles. -/
theorem decided_iff :
    (Complete (decidedRecord params proof verified shortfall decidedAt record) ∧
      KeepsDecisions record (decidedRecord params proof verified shortfall decidedAt record)) ↔
      settles record params = true := by
  have hcomplete : Complete (decidedRecord params proof verified shortfall decidedAt record) ↔
      ∀ approval ∈ roleApprovals record, params.decision = .rejected ∨
        approval.status = .approved ∨ decidesRole params approval = true := by
    unfold Complete
    rw [roleApprovals_decidedRecord]
    simp only [List.forall_mem_map, decidedRole_status]
    show params.decision.status = .approved → _ ↔ _
    cases params.decision with
    | rejected => simp [ApprovalDecision.status]
    | approved =>
        simp only [ApprovalDecision.status, forall_const, reduceCtorEq, false_or]
        refine forall₂_congr fun approval _ => ?_
        by_cases hrole : decidesRole params approval = true
        · simp [hrole, ApprovalDecision.stage]
        · simp [hrole]
  have hkeeps : KeepsDecisions record
      (decidedRecord params proof verified shortfall decidedAt record) ↔
      ∀ approval ∈ roleApprovals record, decidesRole params approval = true →
        approval.status.decided = true → approval.status = params.decision.stage := by
    unfold KeepsDecisions
    rw [roleApprovals_decidedRecord, List.forall₂_map_right_iff, List.forall₂_same]
    refine forall₂_congr fun approval _ => ?_
    rw [decidedRole_status]
    by_cases hrole : decidesRole params approval = true
    · simp only [hrole, if_true, forall_const]
      exact ⟨fun h hdecided => (h hdecided).symm, fun h hdecided => (h hdecided).symm⟩
    · simp [hrole]
  rw [hcomplete, hkeeps, ← forall₂_and, settles, List.all_eq_true]
  refine forall₂_congr fun approval _ => ?_
  simp only [Bool.and_eq_true, Bool.or_eq_true, decide_eq_true_eq, Bool.not_eq_true', or_assoc]
  refine and_congr_right fun _ => ?_
  cases decidesRole params approval <;> cases approval.status.decided <;> simp

theorem step_complete {a : DecisionAction} (h : Complete record)
    (hok : settles record a.params = true)
    (hstep : (decisions host).step record a = some next) :
    Complete next ∧ KeepsDecisions record next := by
  rcases decide_cases hstep with rfl | rfl | ⟨proof, verified, shortfall, rfl⟩
  · exact ⟨h, .refl _⟩
  · exact ⟨nofun, .refl _⟩
  · exact decided_iff.mpr hok

end Decisions

section Runs

variable {host : DecisionHost}

/-- In a run whose decisions settle their roles, an approved request has every role's approval, and
no role's decision changes. -/
theorem workflow_complete {record : DecisionRecord}
    (hs : (decisions host).Reach (fun record a => settles record a.params = true) record) :
    Complete record ∧ ∀ a next, settles record a.params = true →
      (decisions host).step record a = some next → KeepsDecisions record next := by
  have hcomplete : Complete record := by
    refine hs.invariant (fun record hinit happroved => ?_)
      fun record a next h hok hstep => (step_complete h hok hstep).1
    rw [hinit.1] at happroved
    cases happroved
  exact ⟨hcomplete, fun a next hok hstep => (step_complete hcomplete hok hstep).2⟩

def plainDecisionHost : DecisionHost where
  unicode := ⟨id, id⟩
  dateParse := fun _ => none
  isoString := fun _ => ""
  payloadHash := fun _ => ""
  recordHash := fun _ => ""
  presentedDigest := fun _ => ""

/-- A request that waits for the owner and for security. -/
def twoRoles : DecisionRecord where
  id := "r"
  kind := .missionGate
  storageChannel := "c"
  channel := "c"
  status := .pending
  workflow := some ⟨.allRequired, ["owner", "security"],
    [{ role := "owner", status := .pending }, { role := "security", status := .pending }]⟩

def decideAs (role : Option String) (decision : ApprovalDecision) : DecisionAction where
  env := ⟨0, ⟨.warn, fun _ _ => none, false⟩, none, "", .ok ()⟩
  params :=
    { channel := "c", requestId := "r", decision := decision, decidedBy := "p"
      decidedByRole := role }

theorem workflow_complete_after_approval : ∃ record : DecisionRecord,
    record.status = .approved ∧ Complete record := by
  obtain ⟨record, hs, hstatus⟩ := Transition.System.exists_reach_of_execOk
    (S := decisions plainDecisionHost) (fun record a => settles record a.params)
    (s := twoRoles) [decideAs none .approved] (fun record => record.status = .approved)
    ⟨rfl, rfl⟩ (by decide +kernel)
  exact ⟨record, hstatus, (workflow_complete hs).1⟩

/-- The owner alone approves a request that security must approve too. -/
theorem approved_without_security :
    ¬ ∀ host record, (decisions host).Reachable record → Complete record := by
  intro h
  obtain ⟨record, hs, hstatus, hpending⟩ := Transition.System.exists_reachable_of_exec
    (S := decisions plainDecisionHost) (s := twoRoles) [decideAs (some "owner") .approved]
    (fun record => record.status = .approved ∧
      (roleApprovals record).any (fun approval => approval.status = .pending) = true)
    ⟨rfl, rfl⟩ (by decide +kernel)
  obtain ⟨approval, hmem, hstage⟩ := List.any_eq_true.mp hpending
  rw [h _ record hs hstatus approval hmem] at hstage
  cases hstage

end Runs

end Kyberion.Approval
