import Kyberion.Approval.Decide
import Kyberion.Transition
import Mathlib.Logic.Function.Basic

/-!
The challenge that a passkey signs to settle one decision. Its file lives beside
the request and moves with it: every transition looks for the request first, and
the migration of a legacy request copies the file before it removes the old one.
The steps here are single reads and writes, so a process may stop between any two.
-/

namespace Kyberion.Approval

open Js (throwIf)

structure PasskeyHost extends DecisionHost where
  /-- base64url(sha256(text)) -/
  challengeHash : String → String

/-- An instant stands for its text. -/
structure ApprovalPasskeyChallengeRecord where
  challengeId : String
  challenge : String
  nonce : String
  requestId : String
  storageChannel : String
  decision : ApprovalDecision
  presentedDigest : String
  memberId : String
  issuedAt : ℤ
  expiresAt : ℤ
  claimedAt : Option ℤ := none
  verifiedAt : Option ℤ := none
  credentialId : Option String := none
  consumedAt : Option ℤ := none
  deriving DecidableEq, Repr

def ApprovalDecision.text : ApprovalDecision → String
  | .approved => "approved"
  | .rejected => "rejected"

section Calls

variable (host : PasskeyHost)

def approvalPasskeyChallengeBinding (record : ApprovalPasskeyChallengeRecord) : String :=
  String.intercalate "\n" ["kyberion-approval-passkey-v1", record.requestId, record.decision.text,
    record.presentedDigest, host.isoString record.expiresAt, record.nonce]

def encodeApprovalPasskeyChallenge (record : ApprovalPasskeyChallengeRecord) : String :=
  host.challengeHash (approvalPasskeyChallengeBinding host record)

def passkeyRefusal (reason evidence : String) : String :=
  "[POLICY_VIOLATION] passkey approval refused — " ++ reason ++
    " | next: start the passkey approval again from the approval card | evidence: " ++ evidence

/-- The record in a file that was read. -/
def readChallenge (file : Option ApprovalPasskeyChallengeRecord) (challengeId : String) :
    Except String ApprovalPasskeyChallengeRecord :=
  match file with
  | none => .error (passkeyRefusal "unknown challenge" challengeId)
  | some record =>
      throwIf (record.challengeId ≠ host.unicode.toLowerCase challengeId)
        (passkeyRefusal "unknown challenge" challengeId) <|
      throwIf (record.challenge ≠ encodeApprovalPasskeyChallenge host record)
        (passkeyRefusal "challenge does not match its binding" challengeId) <|
      .ok record

structure ChallengeExpectation where
  challengeId : String
  requestId : String
  memberId : String
  decision : ApprovalDecision
  now : ℤ

def assertExpectation (record : ApprovalPasskeyChallengeRecord)
    (expected : ChallengeExpectation) : Except String Unit :=
  throwIf (record.requestId ≠ expected.requestId)
    (passkeyRefusal "challenge was issued for another request"
      (record.requestId ++ " ≠ " ++ expected.requestId)) <|
  throwIf (record.memberId ≠ expected.memberId)
    (passkeyRefusal "challenge was issued to another member"
      ("challenge " ++ record.challengeId)) <|
  throwIf (record.decision ≠ expected.decision)
    (passkeyRefusal "challenge was issued for the other decision"
      (record.decision.text ++ " ≠ " ++ expected.decision.text)) <|
  throwIf (record.expiresAt ≤ expected.now)
    (passkeyRefusal "challenge expired" ("expires_at " ++ host.isoString record.expiresAt)) <|
  .ok ()

def acceptsDecision (record : DecisionRecord) : Bool :=
  match record.status with
  | .pending => true
  | .approved | .rejected | .applied => awaitsOtherRoles record
  | _ => false

structure IssueParams where
  record : DecisionRecord
  storageChannel : String
  decision : ApprovalDecision
  memberId : String
  presentedDigest : Option String
  now : ℤ
  nonce : String

/-- The challenge that an issue writes. -/
def issueApprovalPasskeyChallenge (challengeId : String) (params : IssueParams) :
    Except String ApprovalPasskeyChallengeRecord :=
  let record := params.record
  throwIf (!acceptsDecision record)
    (passkeyRefusal "request no longer takes a decision"
      (record.id ++ " " ++ record.status.text)) <|
  throwIf (!params.presentedDigest.any (approvalPresentedDigestMatches host.toDecisionHost record))
    ("[POLICY_VIOLATION] passkey approval refused — request " ++ record.id ++
      " changed since it was shown to the decider | next: reload the request and decide on what " ++
      "it says now | evidence: current " ++ (host.presentedDigest record).take 16 ++ "…") <|
  let deadline := params.now + 120000
  let expiresAt := match record.expiresAt.filter (· ≠ "") with
    | none => some deadline
    | some expiresAt => (host.dateParse expiresAt).map (min deadline ·)
  match expiresAt.filter (params.now < ·) with
  | none => .error (passkeyRefusal "request has expired" record.id)
  | some expiresAt =>
      let challenge : ApprovalPasskeyChallengeRecord :=
        { challengeId
          challenge := ""
          nonce := params.nonce
          requestId := record.id
          storageChannel := host.unicode.toLowerCase (Js.trim params.storageChannel)
          decision := params.decision
          presentedDigest := host.presentedDigest record
          memberId := params.memberId
          issuedAt := params.now
          expiresAt }
      .ok { challenge with challenge := encodeApprovalPasskeyChallenge host challenge }

/-- The record after a claim at `claimedAt`. -/
def claimApprovalPasskeyChallenge (expected : ChallengeExpectation) (claimedAt : ℤ)
    (file : Option ApprovalPasskeyChallengeRecord) :
    Except String ApprovalPasskeyChallengeRecord := do
  let record ← readChallenge host file expected.challengeId
  match record.claimedAt with
  | some before =>
      .error (passkeyRefusal "challenge was already used"
        ("claimed_at " ++ host.isoString before))
  | none => do
      assertExpectation host record expected
      .ok { record with claimedAt := some claimedAt }

/-- The record once the assertion of the claimed challenge has verified. -/
def markApprovalPasskeyChallengeVerified (claimed : ApprovalPasskeyChallengeRecord)
    (credentialId : String) (now : ℤ) (file : Option ApprovalPasskeyChallengeRecord) :
    Except String ApprovalPasskeyChallengeRecord := do
  let record ← readChallenge host file claimed.challengeId
  throwIf (record.claimedAt = none ∨ record.claimedAt ≠ claimed.claimedAt ∨
      record.verifiedAt.isSome)
    (passkeyRefusal "challenge changed during verification" claimed.challengeId) <|
  .ok { record with verifiedAt := some now, credentialId := some credentialId }

structure ChallengeConsumption where
  challengeId : Option String
  requestId : String
  decidedBy : String
  decision : ApprovalDecision
  presentedDigest : Option String
  now : ℤ
  deriving DecidableEq, Repr

/-- `user:<member>` -/
def decidingMember (decidedBy : String) : Option String :=
  if "user:".toList.isPrefixOf decidedBy.toList then
    some (String.ofList (decidedBy.toList.drop 5))
  else none

/-- The record after a decision has consumed it at `consumedAt`. -/
def consumeApprovalPasskeyChallenge (params : ChallengeConsumption) (consumedAt : ℤ)
    (file : Option ApprovalPasskeyChallengeRecord) :
    Except String ApprovalPasskeyChallengeRecord :=
  match params.challengeId.filter (· ≠ ""), decidingMember params.decidedBy with
  | none, _ =>
      .error (passkeyRefusal "a passkey decision needs its verified challenge"
        ("request " ++ params.requestId))
  | some _, none =>
      .error (passkeyRefusal "a passkey decision must be recorded for a member" params.decidedBy)
  | some challengeId, some memberId => do
      let record ← readChallenge host file challengeId
      assertExpectation host record
        { challengeId, requestId := params.requestId, memberId, decision := params.decision
          now := params.now }
      match record.verifiedAt, record.consumedAt with
      | none, _ => .error (passkeyRefusal "challenge was not verified" challengeId)
      | some _, some before =>
          .error (passkeyRefusal "challenge was already used"
            ("consumed_at " ++ host.isoString before))
      | some _, none =>
          throwIf (some record.presentedDigest ≠ params.presentedDigest)
            (passkeyRefusal "decision does not carry the digest the passkey signed" challengeId) <|
          .ok { record with consumedAt := some consumedAt }

end Calls

section Locations

inductive ApprovalPartitionTier
  | personal | confidential
  deriving DecidableEq, Repr

inductive PrivateApprovalPartition
  | tenant (tier : ApprovalPartitionTier) (tenantSlug : String)
  | personal (ownerHash : String)
  deriving DecidableEq, Repr

inductive ApprovalPartition
  | system
  | private_ (partition : PrivateApprovalPartition)
  deriving DecidableEq, Repr

inductive ScopeTier
  | personal | confidential | public_
  deriving DecidableEq, Repr

/-- The scope of a request: its normalized tenant, if it names a valid one, and the hash of the
owner, if it names one. -/
structure ApprovalScope where
  tenant : Option String
  tier : ScopeTier
  ownerHash : Option String

def tenantApprovalPartitionTier : ScopeTier → ApprovalPartitionTier
  | .personal => .personal
  | .confidential | .public_ => .confidential

/-- `owner` is the personal owner for whom the creating process acts. -/
def approvalPartitionForScope (owner : Option String) (scope : ApprovalScope) :
    ApprovalPartition :=
  match scope.tenant with
  | some tenant => .private_ (.tenant (tenantApprovalPartitionTier scope.tier) tenant)
  | none =>
      if scope.tier = .personal then
        .private_ (.personal (scope.ownerHash.getD (owner.getD "unbound")))
      else .system

/-- What a process may bind: its active tenant, its personal owner, and the tenant partitions that
the index shows to a process without a tenant. -/
structure Viewer where
  tenant : Option String
  owner : Option String
  index : List (ApprovalPartitionTier × String)

def mayBindApprovalTenant (viewer : Viewer) (tenant : String) : Bool :=
  viewer.tenant.all (· = tenant)

/-- Where a process looks besides the system tree; a location that does not exist holds nothing. -/
def listApprovalPartitions (viewer : Viewer) : List PrivateApprovalPartition :=
  (viewer.owner.map PrivateApprovalPartition.personal).toList ++
    match viewer.tenant with
    | some tenant => [.tenant .personal tenant, .tenant .confidential tenant]
    | none => viewer.index.map fun (tier, tenant) => .tenant tier tenant

def systemRecordVisibleToThisProcess (viewer : Viewer) (scope : ApprovalScope) : Bool :=
  match scope.tenant with
  | some tenant => mayBindApprovalTenant viewer tenant
  | none =>
      if scope.tier = .personal then
        viewer.owner = some (scope.ownerHash.getD "unbound")
      else true

def describePartition : ApprovalPartition → String
  | .system => "system"
  | .private_ (.personal _) => "personal owner partition"
  | .private_ (.tenant .personal _) => "personal tenant partition"
  | .private_ (.tenant .confidential _) => "confidential tenant partition"

/-- The one location of those where the request was found. -/
def locateApprovalRequest (channel requestId : String) (found : List ApprovalPartition) :
    Except String (Option ApprovalPartition) :=
  match found with
  | [] => .ok none
  | [partition] => .ok (some partition)
  | found =>
      .error ("[APPROVAL_LOCATION_AMBIGUOUS] approval request " ++ channel ++ "/" ++ requestId ++
        " exists in " ++ toString found.length ++ " locations (" ++
        String.intercalate ", " (found.map describePartition) ++ ") | next: keep one copy (the " ++
        "approval store hygiene tenant-partition migration reports both) and remove the other | " ++
        "evidence: " ++ requestId)

end Locations

/-- A process, and where it finds a request other than the one that the challenge is for. -/
structure Caller extends Viewer where
  elsewhere : ApprovalPartition

inductive ChallengeCall
  | claim (caller : Caller) (expected : ChallengeExpectation) (claimedAt : ℤ)
  | verify (caller : Caller) (claimed : ApprovalPasskeyChallengeRecord) (credentialId : String)
      (now : ℤ)
  | consume (caller : Caller) (params : ChallengeConsumption) (consumedAt : ℤ)

def ChallengeCall.caller : ChallengeCall → Caller
  | .claim caller .. | .verify caller .. | .consume caller .. => caller

def ChallengeCall.requestId : ChallengeCall → String
  | .claim _ expected _ => expected.requestId
  | .verify _ claimed .. => claimed.requestId
  | .consume _ params _ => params.requestId

/-- What the call writes back for the file that it has read. -/
def ChallengeCall.update (host : PasskeyHost) :
    ChallengeCall → Option ApprovalPasskeyChallengeRecord →
      Except String ApprovalPasskeyChallengeRecord
  | .claim _ expected claimedAt => claimApprovalPasskeyChallenge host expected claimedAt
  | .verify _ claimed credentialId now =>
      markApprovalPasskeyChallengeVerified host claimed credentialId now
  | .consume _ params consumedAt => consumeApprovalPasskeyChallenge host params consumedAt

/-- How far an issue has come: it has looked for the request, and then it writes. -/
inductive IssuePhase
  | unissued
  | sawSystem (viewer : Viewer) (record : ApprovalPasskeyChallengeRecord) (found : Bool)
  | located (location : ApprovalPartition) (record : ApprovalPasskeyChallengeRecord)
  | issued (record : ApprovalPasskeyChallengeRecord)

/-- The moving of the challenge, under its lock. -/
inductive MovePhase
  | read
  | copy (record : ApprovalPasskeyChallengeRecord)
  | drop

/-- Who holds the lock of the challenge, and how far it has come. -/
inductive Holder
  | entered (call : ChallengeCall)
  | sawSystem (call : ChallengeCall) (found : Bool)
  | located (call : ChallengeCall) (location : ApprovalPartition)
  | writing (call : ChallengeCall) (location : ApprovalPartition)
      (record : ApprovalPasskeyChallengeRecord)
  | moving (phase : MovePhase)

/-- How far the migration has come, under the lock of the request's record. -/
inductive MigrationPhase
  | copyRequest (content : ℕ)
  | probe | lock | move | removeRequest
  deriving DecidableEq

/-- The copies of one request and of one challenge for it; a copy of the request is told by what
it says. The last three fields tell what was written so far. -/
structure PasskeyState where
  requests : ApprovalPartition → Option ℕ
  challenges : ApprovalPartition → Option ApprovalPasskeyChallengeRecord
  issue : IssuePhase
  holder : Option Holder
  migration : Option MigrationPhase
  claims : List ApprovalPasskeyChallengeRecord
  verifies : List ApprovalPasskeyChallengeRecord
  consumes : List ChallengeConsumption

inductive PasskeyAction
  | issue (viewer : Viewer) (params : IssueParams)
  | issueStep
  | enter (call : ChallengeCall)
  | callStep
  | crash
  | migrate (viewer : Viewer)
  | migrationStep
  | stopMigration
  | rewriteRequest (location : ApprovalPartition) (content : ℕ)

/-- The request and its challenge as their ids name them; `owner` is who created the request. -/
structure PasskeyNames where
  storageChannel : String
  requestId : String
  challengeId : String
  scope : ApprovalScope
  owner : Option String

section Steps

variable (host : PasskeyHost) (names : PasskeyNames)

/-- The location that the scope of the request maps to. -/
def PasskeyNames.target : ApprovalPartition :=
  approvalPartitionForScope names.owner names.scope

def PasskeyState.systemFound (s : PasskeyState) (viewer : Viewer) : Bool :=
  (s.requests .system).isSome && systemRecordVisibleToThisProcess viewer names.scope

/-- The locations where the request was found, the system tree having been looked at before. -/
def PasskeyState.locate (s : PasskeyState) (viewer : Viewer) (found : Bool) :
    Except String (Option ApprovalPartition) :=
  locateApprovalRequest names.storageChannel names.requestId <|
    (if found then [.system] else []) ++
      ((listApprovalPartitions viewer).map .private_).filter fun q => (s.requests q).isSome

def PasskeyState.writeChallenge (s : PasskeyState) (location : ApprovalPartition)
    (record : ApprovalPasskeyChallengeRecord) : PasskeyState :=
  { s with challenges := Function.update s.challenges location (some record) }

/-- The challenge is written; who did it, and for what, is noted. -/
def PasskeyState.written (s : PasskeyState) (call : ChallengeCall) (location : ApprovalPartition)
    (record : ApprovalPasskeyChallengeRecord) : PasskeyState :=
  let s := { s.writeChallenge location record with holder := none }
  match call with
  | .claim .. => { s with claims := record :: s.claims }
  | .verify .. => { s with verifies := record :: s.verifies }
  | .consume _ params _ => { s with consumes := params :: s.consumes }

/-- How far the next read brings the call; a call that throws gives the lock back. -/
def nextHolder (s : PasskeyState) : Holder → Option Holder
  | .entered call =>
      if call.requestId = names.requestId then
        some (.sawSystem call (s.systemFound names call.caller.toViewer))
      else some (.located call call.caller.elsewhere)
  | .sawSystem call found =>
      match s.locate names call.caller.toViewer found with
      | .error _ => none
      | .ok location => some (.located call (location.getD .system))
  | .located call location =>
      match call.update host (s.challenges location) with
      | .error _ => none
      | .ok record => some (.writing call location record)
  | .writing .. | .moving _ => none

/-- One step of the call that holds the lock. -/
def callStep (s : PasskeyState) (holder : Holder) : Option PasskeyState :=
  match holder with
  | .writing call location record => some (s.written call location record)
  | .moving _ => none
  | _ => some { s with holder := nextHolder host names s holder }

/-- How far the next step brings an issue; a request that is not found refuses it. -/
def nextIssue (s : PasskeyState) : IssuePhase → IssuePhase
  | .sawSystem viewer record found =>
      match s.locate names viewer found with
      | .ok (some location) => .located location record
      | _ => .unissued
  | phase => phase

def issueStep (s : PasskeyState) : PasskeyState :=
  match s.issue with
  | .located location record =>
      { s.writeChallenge location record with issue := .issued record }
  | _ => { s with issue := nextIssue names s s.issue }

/-- One step of the migration. A copy that differs from the one in place stops it. -/
def migrationStep (s : PasskeyState) : MigrationPhase → Option PasskeyState
  | .copyRequest content =>
      some { s with
        requests := Function.update s.requests names.target (some content)
        migration := some .probe }
  | .probe =>
      let next := if (s.challenges .system).isSome then .lock else .removeRequest
      some { s with migration := some next }
  | .lock =>
      if s.holder.isNone then
        some { s with holder := some (.moving .read), migration := some .move }
      else none
  | .move =>
      match s.holder with
      | some (.moving .read) =>
          match s.challenges .system, s.challenges names.target with
          | none, _ => some { s with holder := none, migration := some .removeRequest }
          | some record, none => some { s with holder := some (.moving (.copy record)) }
          | some record, some existing =>
              if existing = record then some { s with holder := some (.moving .drop) }
              else some { s with holder := none, migration := none }
      | some (.moving (.copy record)) =>
          some { s.writeChallenge names.target record with holder := some (.moving .drop) }
      | some (.moving .drop) =>
          some { s with
            challenges := Function.update s.challenges .system none
            holder := none
            migration := some .removeRequest }
      | _ => none
  | .removeRequest =>
      some { s with requests := Function.update s.requests .system none, migration := none }

def Holder.isMoving : Holder → Bool
  | .moving _ => true
  | _ => false

/-- Calls of any processes on one challenge, and the migration of its request. -/
def passkey : Transition.System PasskeyState PasskeyAction where
  init s := (∃ location content,
      (location = .system ∨ location = names.target) ∧
        s.requests = Function.update (fun _ => none) location (some content)) ∧
    s.challenges = (fun _ => none) ∧ s.issue = .unissued ∧ s.holder = none ∧
    s.migration = none ∧ s.claims = [] ∧ s.verifies = [] ∧ s.consumes = []
  step s
    | .issue viewer params =>
        match s.issue, issueApprovalPasskeyChallenge host names.challengeId params with
        | .unissued, .ok record =>
            if params.record.id = names.requestId then
              some { s with issue := .sawSystem viewer record (s.systemFound names viewer) }
            else none
        | _, _ => none
    | .issueStep => some (issueStep names s)
    | .enter call =>
        match s.holder, call with
        | none, .verify _ claimed .. =>
            if claimed ∈ s.claims then some { s with holder := some (.entered call) } else none
        | none, _ => some { s with holder := some (.entered call) }
        | some _, _ => none
    | .callStep => s.holder.bind (callStep host names s)
    | .crash => if s.holder.any (!·.isMoving) then some { s with holder := none } else none
    | .migrate viewer =>
        match s.migration, names.scope.tenant with
        | none, some tenant =>
            if mayBindApprovalTenant viewer tenant then
              match s.requests .system, s.requests names.target with
              | none, _ => some s
              | some content, none => some { s with migration := some (.copyRequest content) }
              | some content, some existing =>
                  if existing = content then some { s with migration := some .probe } else some s
            else none
        | _, _ => none
    | .migrationStep => s.migration.bind (migrationStep names s)
    | .stopMigration =>
        some { s with
          migration := none
          holder := s.holder.filter (!·.isMoving) }
    | .rewriteRequest location content =>
        if s.migration = none ∧ (s.requests location).isSome then
          some { s with requests := Function.update s.requests location (some content) }
        else none

end Steps

end Kyberion.Approval
