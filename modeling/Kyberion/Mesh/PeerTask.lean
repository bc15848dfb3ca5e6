import Kyberion.Js.Text
import Kyberion.Js.Throw
import Kyberion.Latest
import Kyberion.Transition
import Mathlib.Logic.Function.Basic

/-!
Peer tasks over one ledger. Every transition appends a whole record copied from
one that was read earlier; some wait for the network in between. Only a decision
and a resumption hold the lock of the task.
-/

namespace Kyberion.Mesh.PeerTask

open Js Transition

inductive PeerTaskDirection
  | inbound | outbound
  deriving DecidableEq

inductive PeerTaskState
  | pending | accepted | running | completed | failed | rejected | expired
  deriving DecidableEq

inductive PeerTaskResultStatus
  | completed | failed | rejected
  deriving DecidableEq

structure PeerTaskArtifactRef where
  ref : String
  sha256 : String
  bytes : ℕ
  mediaType : String
  deriving DecidableEq

/-- Instants are milliseconds; `exitCode` is null or a number when it is there. -/
structure PeerTaskResult where
  taskId : String
  taskType : String
  status : PeerTaskResultStatus
  summary : String
  workItemId : Option String := none
  exitCode : Option (Option ℤ) := none
  artifacts : List PeerTaskArtifactRef := []
  finishedAt : ℤ
  deriving DecidableEq

inductive DecisionKind
  | accepted | rejected
  deriving DecidableEq

structure Decision where
  decision : DecisionKind
  actorId : String
  reason : String
  decidedAt : ℤ
  deriving DecidableEq

structure Execution where
  host : String
  pid : ℕ
  startedAt : ℤ
  deadlineAt : ℤ
  deriving DecidableEq

/-- `{ status, at, error }` of a delivery; `error` is there when it failed. -/
structure DeliveryReport where
  sent : Bool
  at_ : ℤ
  error : Option String := none
  deriving DecidableEq

structure PeerTaskRecord where
  taskId : String
  direction : PeerTaskDirection
  tenantId : String
  localPeerId : String
  remotePeerId : String
  taskType : String
  summary : String
  sessionId : String
  requestMessageId : String
  requestedAt : ℤ
  expiresAt : ℤ
  state : PeerTaskState
  decision : Option Decision := none
  workItemId : Option String := none
  execution : Option Execution := none
  proposalDelivery : Option DeliveryReport := none
  result : Option PeerTaskResult := none
  resultMessageId : Option String := none
  resultDelivery : Option DeliveryReport := none
  updatedAt : ℤ
  deriving DecidableEq

structure PeerTaskRequest where
  taskId : String
  taskType : String
  summary : String
  tenantId : String
  senderPeerId : String
  recipientPeerId : String
  requestedAt : ℤ
  expiresAt : ℤ

structure PeerTaskCatalogEntry where
  taskType : String
  allowedFromPeers : List String
  timeoutMs : ℤ

def DEFAULT_TTL_MS : ℤ := 24 * 60 * 60 * 1000
def MAX_TTL_MS : ℤ := 7 * 24 * 60 * 60 * 1000
def CLOCK_SKEW_MS : ℤ := 5 * 60 * 1000
def MAX_PENDING_PER_PEER : ℕ := 20
def EXECUTION_GRACE_MS : ℤ := 60 * 1000

def PeerTaskResultStatus.state : PeerTaskResultStatus → PeerTaskState
  | .completed => .completed
  | .failed => .failed
  | .rejected => .rejected

/-- `recordKey`, which is also the key that compaction folds on. -/
def recordKey (record : PeerTaskRecord) : Option (PeerTaskDirection × String) :=
  some (record.direction, record.taskId)

/-- What the ledger keeps of a task. -/
def current (ledger : List PeerTaskRecord) (key : PeerTaskDirection × String) :
    Option PeerTaskRecord :=
  lastFor recordKey key ledger

def isExpired (record : PeerTaskRecord) (now : ℤ) : Bool :=
  record.expiresAt ≤ now

/-- A proposal that nobody has answered in time reads as expired. -/
def shown (now : ℤ) (record : PeerTaskRecord) : PeerTaskRecord :=
  if record.direction = .outbound ∧ record.state = .pending ∧ isExpired record now then
    { record with state := .expired }
  else record

def getPeerTask (ledger : List PeerTaskRecord) (now : ℤ) (direction : PeerTaskDirection)
    (taskId : String) : Option PeerTaskRecord :=
  (current ledger (direction, taskId)).map (shown now)

/-- The inbound tasks of a peer that wait and are not over. -/
def pendingFrom (ledger : List PeerTaskRecord) (now : ℤ) (remotePeerId : String) :
    List PeerTaskRecord :=
  (latestById recordKey ledger).filter fun record =>
    record.direction = .inbound && record.state = .pending && record.remotePeerId = remotePeerId &&
      !isExpired record now

def catalogEntryFor (catalog : List PeerTaskCatalogEntry) (taskType remotePeerId : String) :
    Except String PeerTaskCatalogEntry :=
  match catalog.find? fun candidate => candidate.taskType = taskType with
  | none => .error "task_type_not_offered"
  | some entry =>
      throwIf (remotePeerId ∉ entry.allowedFromPeers) "peer_not_allowed" (.ok entry)

/-- Why a proposal is refused on receipt. -/
def receiptRejection (ledger : List PeerTaskRecord) (now : ℤ)
    (catalog : List PeerTaskCatalogEntry) (request : PeerTaskRequest) (remotePeerId : String) :
    Option String :=
  if now + CLOCK_SKEW_MS < request.requestedAt then some "requested_in_future"
  else if request.expiresAt ≤ now then some "expired"
  else if MAX_TTL_MS < request.expiresAt - request.requestedAt ∨
      now + MAX_TTL_MS + CLOCK_SKEW_MS < request.expiresAt then some "ttl_too_long"
  else
    match catalogEntryFor catalog request.taskType remotePeerId with
    | .error rejected => some rejected
    | .ok _ =>
        if MAX_PENDING_PER_PEER ≤ (pendingFrom ledger now remotePeerId).length then
          some "too_many_pending"
        else none

/-- The process that decides or resumes a task. -/
structure Host where
  hostname : String
  pid : ℕ
  isPidAlive : ℕ → Bool
  now : ℤ

def executionOwner (host : Host) (entry : PeerTaskCatalogEntry) : Execution where
  host := host.hostname
  pid := host.pid
  startedAt := host.now
  deadlineAt := host.now + entry.timeoutMs + EXECUTION_GRACE_MS

def executionMayBeLive (host : Host) (record : PeerTaskRecord) : Bool :=
  record.execution.any fun execution =>
    execution.host = host.hostname && host.isPidAlive execution.pid ||
      decide (host.now < execution.deadlineAt)

def forceTakeoverAllowed (host : Host) (record : PeerTaskRecord) : Bool :=
  record.execution.all fun execution =>
    decide (execution.deadlineAt ≤ host.now) ||
      execution.host = host.hostname && !host.isPidAlive execution.pid

section Transitions

variable (fitsResult : PeerTaskResult → Bool)

def buildResult (record : PeerTaskRecord) (status : PeerTaskResultStatus) (summary : String)
    (artifacts : List PeerTaskArtifactRef) (exitCode : Option (Option ℤ)) (finishedAt : ℤ) :
    Except String PeerTaskResult :=
  let result : PeerTaskResult := {
    taskId := record.taskId
    taskType := record.taskType
    status
    summary
    workItemId := record.workItemId
    exitCode
    artifacts
    finishedAt }
  throwIf (fitsResult result = false) "invalid_peer_task_result" (.ok result)

structure DecideInput where
  taskId : String
  decision : DecisionKind
  actorId : String
  reason : String
  deliver : Bool := true

/-- The record that a decision appends, and whether the task runs then. -/
def decideRow (host : Host) (catalog : List PeerTaskCatalogEntry) (input : DecideInput)
    (record : PeerTaskRecord) : Except String (PeerTaskRecord × Bool) :=
  throwIf (record.state ≠ .pending) ("peer_task_already_decided:" ++ record.taskId) <|
  if input.decision = .rejected ∨ isExpired record host.now then do
    let expired := input.decision = .accepted
    let why := if expired then "expired before acceptance" else trim input.reason
    let result ← buildResult fitsResult record .rejected
      ("Rejected by " ++ record.localPeerId ++ ": " ++ why) [] none host.now
    return ({ record with
      state := if expired then .expired else .rejected
      decision := some ⟨.rejected, trim input.actorId, why, host.now⟩
      result := some result }, false)
  else do
    let entry ← catalogEntryFor catalog record.taskType record.remotePeerId
    return ({ record with
      state := .running
      decision := some ⟨.accepted, trim input.actorId, trim input.reason, host.now⟩
      execution := some (executionOwner host entry) }, true)

/-- The record that a resumption appends. -/
def resumeRow (host : Host) (catalog : List PeerTaskCatalogEntry) (force : Bool)
    (record : PeerTaskRecord) : Except String PeerTaskRecord :=
  throwIf (record.state ≠ .running ∨ (record.decision.all fun d => d.decision ≠ .accepted) ∨
    record.result ≠ none) ("peer_task_not_resumable:" ++ record.taskId) <|
  throwIf (executionMayBeLive host record ∧ ¬ (force ∧ forceTakeoverAllowed host record))
    ("peer_task_still_running:" ++ record.taskId) <| do
    let entry ← catalogEntryFor catalog record.taskType record.remotePeerId
    return { record with execution := some (executionOwner host entry) }

/-- What an executor run leaves: the summary and the artifacts are those that it stored. -/
structure RunReport where
  exitCode : Option ℤ
  summary : String
  artifacts : List PeerTaskArtifactRef

/-- The last record of an execution. -/
def finishRow (report : RunReport) (now : ℤ) (record : PeerTaskRecord) :
    Except String PeerTaskRecord := do
  let status := if report.exitCode = some 0 then PeerTaskResultStatus.completed else .failed
  let result ← buildResult fitsResult record status report.summary report.artifacts
    (some report.exitCode) now
  return { record with
    state := status.state
    result := some result }

/-- How a delivery ends; the recipient may have refused a proposal on receipt. -/
inductive SendOutcome
  | failed (error : String)
  | sent (rejected : Bool)

def SendOutcome.report (now : ℤ) : SendOutcome → DeliveryReport
  | .failed error => ⟨false, now, some (String.ofList (sliceHead 500 error.toList))⟩
  | .sent _ => ⟨true, now, none⟩

/-- The record that a proposal appends after its delivery. -/
def proposalRow (outcome : SendOutcome) (now : ℤ) (outbound : PeerTaskRecord) : PeerTaskRecord :=
  { outbound with
    state := match outcome with
      | .sent true => .rejected
      | _ => outbound.state
    proposalDelivery := some (outcome.report now) }

/-- The record of a result that has come in. -/
def resultRow (result : PeerTaskResult) (outbound : PeerTaskRecord) : PeerTaskRecord :=
  { outbound with
    state := result.status.state
    result := some result
    workItemId := result.workItemId.or outbound.workItemId }

/-- The record that a delivery of the result appends. -/
def deliveredRow (messageId : String) (outcome : SendOutcome) (now : ℤ)
    (record : PeerTaskRecord) : PeerTaskRecord :=
  { record with
    resultMessageId := some messageId
    resultDelivery := some (outcome.report now) }

end Transitions

/-- What a peer fixes: its tenant and id, the schemas and the digest of the ids it derives. -/
structure Peer where
  tenantId : String
  localPeerId : String
  fitsRequest : PeerTaskRequest → Bool
  fitsResult : PeerTaskResult → Bool
  sha256 : String → String

variable (peer : Peer)

def Peer.stableId (namePrefix taskId : String) : String :=
  namePrefix ++ "-" ++ String.ofList ((peer.sha256 taskId).toList.take 24)

structure ProposeInput where
  recipientPeerId : String
  taskType : String
  summary : String
  ttlMs : ℤ := DEFAULT_TTL_MS

/-- The first record of a proposal. -/
def proposeRow (input : ProposeInput) (taskId sessionId : String) (now : ℤ) :
    Except String PeerTaskRecord :=
  let request : PeerTaskRequest := {
    taskId
    taskType := input.taskType
    summary := input.summary
    tenantId := peer.tenantId
    senderPeerId := peer.localPeerId
    recipientPeerId := input.recipientPeerId
    requestedAt := now
    expiresAt := now + input.ttlMs }
  throwIf (input.ttlMs < 1 ∨ MAX_TTL_MS < input.ttlMs) "invalid_peer_task_ttl" <|
  throwIf (peer.fitsRequest request = false) "invalid_peer_task_request" <|
  .ok {
    taskId
    direction := .outbound
    tenantId := peer.tenantId
    localPeerId := peer.localPeerId
    remotePeerId := input.recipientPeerId
    taskType := input.taskType
    summary := trim input.summary
    sessionId
    requestMessageId := peer.stableId "PCM-PTQ" taskId
    requestedAt := now
    expiresAt := now + input.ttlMs
    state := .pending
    updatedAt := now }

/-- An inbound message: who sent it, for which tenant, under which ids. -/
structure Envelope where
  senderPeerId : String
  tenantId : String
  messageId : String
  sessionId : String

/-- The first record of an inbound request, if it gets one. -/
def requestRow (ledger : List PeerTaskRecord) (catalog : List PeerTaskCatalogEntry)
    (envelope : Envelope) (request : PeerTaskRequest) (now : ℤ) :
    Except String (Option PeerTaskRecord) :=
  throwIf (peer.fitsRequest request = false) "invalid_peer_task_request" <|
  throwIf (request.senderPeerId ≠ envelope.senderPeerId ∨
    request.recipientPeerId ≠ peer.localPeerId) ("peer_task_identity_mismatch:" ++ request.taskId) <|
  throwIf (request.tenantId ≠ peer.tenantId ∨ envelope.tenantId ≠ peer.tenantId)
    ("peer_task_tenant_mismatch:" ++ request.taskId) <|
  if (getPeerTask ledger now .inbound request.taskId).isSome ∨
      (receiptRejection ledger now catalog request envelope.senderPeerId).isSome then .ok none
  else .ok (some {
    taskId := request.taskId
    direction := .inbound
    tenantId := peer.tenantId
    localPeerId := peer.localPeerId
    remotePeerId := envelope.senderPeerId
    taskType := request.taskType
    summary := trim request.summary
    sessionId := envelope.sessionId
    requestMessageId := envelope.messageId
    requestedAt := request.requestedAt
    expiresAt := request.expiresAt
    state := .pending
    updatedAt := request.requestedAt })

/-- The outbound record that an inbound result belongs to. -/
def resultTarget (ledger : List PeerTaskRecord) (senderPeerId : String) (result : PeerTaskResult)
    (now : ℤ) : Except String PeerTaskRecord :=
  throwIf (peer.fitsResult result = false) "invalid_peer_task_result" <|
  match getPeerTask ledger now .outbound result.taskId with
  | none => .error ("peer_task_unknown:" ++ result.taskId)
  | some outbound =>
      throwIf (outbound.remotePeerId ≠ senderPeerId ∨ outbound.taskType ≠ result.taskType)
        ("peer_task_unknown:" ++ result.taskId) (.ok outbound)

/-- Where a call stands: it holds the record that it copies into its next one. -/
inductive Phase
  | idle
  | sending (outbound : PeerTaskRecord)
  | recording (outbound : PeerTaskRecord) (result : PeerTaskResult)
  | registering (base : PeerTaskRecord)
  | deciding (record row : PeerTaskRecord) (runs deliver : Bool)
  | executing (record : PeerTaskRecord) (deliver : Bool)
  | running (record : PeerTaskRecord) (deliver : Bool)
  | delivering (record : PeerTaskRecord)

structure World where
  ledger : List PeerTaskRecord := []
  calls : ℕ → Phase := fun _ => .idle
  /-- The locks of the tasks. -/
  locks : String → Option ℕ := fun _ => none

namespace World

variable (w : World)

def put (c : ℕ) (phase : Phase) : World :=
  { w with calls := Function.update w.calls c phase }

/-- `appendRecord` -/
def append (row : PeerTaskRecord) : World :=
  { w with ledger := w.ledger ++ [row] }

def lock (taskId : String) (holder : Option ℕ) : World :=
  { w with locks := Function.update w.locks taskId holder }

end World

def PeerTaskRecord.stamp (row : PeerTaskRecord) (now : ℤ) : PeerTaskRecord :=
  { row with updatedAt := now }

/-- After the result is in: deliver it, or return. -/
def afterResult (row : PeerTaskRecord) (deliver : Bool) : Phase :=
  if deliver then .delivering row else .idle

inductive PeerTaskAction
  | propose (c : ℕ) (input : ProposeInput) (taskId sessionId : String) (now : ℤ)
  | resend (c : ℕ) (taskId : String) (now : ℤ)
  | sent (c : ℕ) (outcome : SendOutcome) (now : ℤ)
  | receiveResult (c : ℕ) (senderPeerId : String) (result : PeerTaskResult) (now : ℤ)
  | record (c : ℕ) (now : ℤ)
  | receiveRequest (c : ℕ) (catalog : List PeerTaskCatalogEntry) (envelope : Envelope)
      (request : PeerTaskRequest) (now : ℤ)
  | register (c : ℕ) (now : ℤ)
  | decide (c : ℕ) (host : Host) (catalog : List PeerTaskCatalogEntry) (input : DecideInput)
  | resume (c : ℕ) (host : Host) (catalog : List PeerTaskCatalogEntry) (taskId : String)
      (force deliver : Bool)
  | claim (c : ℕ) (now : ℤ)
  | startWork (c : ℕ) (now : ℤ)
  | finishWork (c : ℕ) (report : RunReport) (now : ℤ)
  | deliver (c : ℕ) (taskId : String) (now : ℤ)
  | delivered (c : ℕ) (outcome : SendOutcome) (now : ℤ)
  | drop (c : ℕ)
  | compact

/-- A call that throws leaves the ledger as it is; the id of a proposal is new. -/
def peerTasks : System World PeerTaskAction where
  init w := w = {}
  step w
    | .propose c input taskId sessionId now =>
        match w.calls c with
        | .idle =>
            if (current w.ledger (.outbound, taskId)).isNone then
              match proposeRow peer input taskId sessionId now with
              | .ok row => some ((w.append row).put c (.sending row))
              | .error _ => some w
            else none
        | _ => none
    | .resend c taskId now =>
        match w.calls c with
        | .idle =>
            match getPeerTask w.ledger now .outbound taskId with
            | some record =>
                some (if record.state = .pending then w.put c (.sending record) else w)
            | none => some w
        | _ => none
    | .sent c outcome now =>
        match w.calls c with
        | .sending outbound =>
            some ((w.append ((proposalRow outcome now outbound).stamp now)).put c .idle)
        | _ => none
    | .receiveResult c senderPeerId result now =>
        match w.calls c with
        | .idle =>
            match resultTarget peer w.ledger senderPeerId result now with
            | .ok outbound =>
                some (if outbound.result.isNone then w.put c (.recording outbound result) else w)
            | .error _ => some w
        | _ => none
    | .record c now =>
        match w.calls c with
        | .recording outbound result =>
            some ((w.append ((resultRow result outbound).stamp now)).put c .idle)
        | _ => none
    | .receiveRequest c catalog envelope request now =>
        match w.calls c with
        | .idle =>
            match requestRow peer w.ledger catalog envelope request now with
            | .ok (some base) => some (w.put c (.registering base))
            | _ => some w
        | _ => none
    | .register c now =>
        match w.calls c with
        | .registering base => some ((w.append (base.stamp now)).put c .idle)
        | _ => none
    | .decide c host catalog input =>
        match w.calls c with
        | .idle =>
            if w.locks input.taskId = none ∧ trim input.actorId ≠ "" ∧ trim input.reason ≠ "" then
              match getPeerTask w.ledger host.now .inbound input.taskId with
              | some record =>
                  match decideRow peer.fitsResult host catalog input record with
                  | .ok (row, runs) => some ((w.put c (.deciding record row runs input.deliver)).lock
                      input.taskId (some c))
                  | .error _ => some w
              | none => some w
            else none
        | _ => none
    | .resume c host catalog taskId force deliver =>
        match w.calls c with
        | .idle =>
            if w.locks taskId = none then
              match getPeerTask w.ledger host.now .inbound taskId with
              | some record =>
                  match resumeRow host catalog force record with
                  | .ok row => some ((w.put c (.deciding record row true deliver)).lock taskId (some c))
                  | .error _ => some w
              | none => some w
            else none
        | _ => none
    | .claim c now =>
        match w.calls c with
        | .deciding record row runs deliver =>
            let row := row.stamp now
            let next := if runs then .executing row deliver else afterResult row deliver
            some (((w.append row).put c next).lock record.taskId none)
        | _ => none
    | .startWork c now =>
        match w.calls c with
        | .executing record deliver =>
            let row : PeerTaskRecord := { record with
              state := .running
              workItemId := some (peer.stableId "WI-PEER-TASK" record.taskId)
              updatedAt := now }
            some ((w.append row).put c (.running row deliver))
        | _ => none
    | .finishWork c report now =>
        match w.calls c with
        | .running record deliver =>
            match finishRow peer.fitsResult report now record with
            | .ok row => some ((w.append (row.stamp now)).put c (afterResult (row.stamp now) deliver))
            | .error _ => some (w.put c .idle)
        | _ => none
    | .deliver c taskId now =>
        match w.calls c with
        | .idle =>
            match getPeerTask w.ledger now .inbound taskId with
            | some record =>
                some (if record.result.isSome then w.put c (.delivering record) else w)
            | none => some w
        | _ => none
    | .delivered c outcome now =>
        match w.calls c with
        | .delivering record =>
            let messageId := peer.stableId "PCM-PTR" record.taskId
            some ((w.append ((deliveredRow messageId outcome now record).stamp now)).put c .idle)
        | _ => none
    | .drop c =>
        match w.calls c with
        | .idle => none
        | .deciding record _ _ _ => some ((w.put c .idle).lock record.taskId none)
        | _ => some (w.put c .idle)
    | .compact => some { w with ledger := compactByKey recordKey w.ledger }

end Kyberion.Mesh.PeerTask
