import Kyberion.Mission.EventScope
import Kyberion.Transition
import Mathlib.Algebra.Order.Floor.Ring
import Mathlib.Data.Finset.Basic
import Mathlib.Data.Rat.Floor
import Mathlib.Logic.Function.Basic

/-!
The server of one peer. A call of `processEnvelope` is suspended after it has
asked for admission, while it waits in the queue and while its responder runs.
What was handled is kept in memory and read back from the event log after a
restart.
-/

namespace Kyberion.Mesh.PeerServer

open Js Mission Transition

inductive PeerMessageType
  | request | reply | notification | handoff | capabilityQuery | capabilityResponse
  deriving DecidableEq

/-- The payload is given as its text. -/
structure PeerMessageEnvelope where
  version : String := "1"
  tenantId : String
  messageId : String
  conversationId : String
  type : PeerMessageType
  senderPeerId : String
  recipientPeerId : String
  subject : String
  payload : String
  createdAt : String
  replyToMessageId : Option String := none
  correlationId : Option String := none
  ttlMs : Option ℤ := none
  expiresAt : Option String := none
  signature : Option String := none
  scope : EventScopeInput
  /-- The id of an `nhi` principal. -/
  principal : Option String := none
  approvalRef : Option String := none
  deriving DecidableEq

/-- `verifyPeerMessage` under the shared secret and `Date.parse` are given. -/
structure PeerMessagingServerOptions where
  peerId : String
  tenantId : String
  responder : Bool
  maxInflight : Option ℚ := none
  maxQueued : Option ℚ := none
  verifyPeerMessage : PeerMessageEnvelope → Bool
  isTimestamp : String → Bool

/-- `PEER_ID_PATTERN` -/
def isPeerId (s : String) : Bool :=
  isSlug s.toList && 2 ≤ s.toList.length && s.toList.length ≤ 64

/-- `/^[a-f0-9]{64}$/iu` -/
def isSignature (s : String) : Bool :=
  s.toList.length = 64 && s.toList.all fun c =>
    isDigit c || ('a' ≤ c && c ≤ 'f') || ('A' ≤ c && c ≤ 'F')

def isNonEmptyString (s : String) : Bool :=
  !isBlank s

/-- The first field that `parsePeerMessageEnvelope` refuses. -/
def parsePeerMessageEnvelope (isTimestamp : String → Bool) (value : PeerMessageEnvelope) :
    Except String Unit :=
  throwIf (value.version ≠ "1") "invalid_peer_envelope_version" <|
  throwIf (isNonEmptyString value.tenantId = false) "invalid_peer_envelope_tenant_id" <|
  throwIf (isValidTenantSlug (trim value.tenantId) = false)
    ("invalid_peer_network_tenant_id:" ++ trim value.tenantId) <|
  throwIf (isNonEmptyString value.messageId = false) "invalid_peer_envelope_message_id" <|
  throwIf (isNonEmptyString value.conversationId = false)
    "invalid_peer_envelope_conversation_id" <|
  throwIf (isNonEmptyString value.senderPeerId = false) "invalid_peer_envelope_sender_peer_id" <|
  throwIf (isNonEmptyString value.recipientPeerId = false)
    "invalid_peer_envelope_recipient_peer_id" <|
  throwIf (isNonEmptyString value.subject = false) "invalid_peer_envelope_subject" <|
  throwIf (isNonEmptyString value.createdAt = false) "invalid_peer_envelope_created_at" <|
  throwIf (isPeerId (trim value.senderPeerId) = false)
    ("invalid_peer_network_peer_id:" ++ trim value.senderPeerId) <|
  throwIf (isPeerId (trim value.recipientPeerId) = false)
    ("invalid_peer_network_peer_id:" ++ trim value.recipientPeerId) <|
  throwIf (isTimestamp value.createdAt = false) "invalid_peer_envelope_created_at" <|
  match normalizeEventScope value.scope with
  | .error _ => .error "invalid_peer_envelope_scope"
  | .ok scope =>
      throwIf (scope.tenantSlug ≠ some value.tenantId) "peer_message_scope_tenant_mismatch" <|
      throwIf (value.replyToMessageId.any isBlank) "invalid_peer_envelope_reply_to_message_id" <|
      throwIf (value.correlationId.any isBlank) "invalid_peer_envelope_correlation_id" <|
      throwIf (value.approvalRef.any isBlank) "invalid_peer_envelope_approval_ref" <|
      throwIf (value.ttlMs.any fun ttl => ttl < 0 || 2 ^ 53 - 1 < ttl)
        "invalid_peer_envelope_ttl_ms" <|
      throwIf (value.expiresAt.any fun at_ => !isTimestamp at_)
        "invalid_peer_envelope_expires_at" <|
      throwIf (value.signature.any fun signature => !isSignature signature)
        "invalid_peer_envelope_signature" <|
      throwIf (value.principal.any isBlank) "invalid_peer_envelope_principal" <|
      .ok ()

/-- A refusal: its status, its text and whether the log keeps it. -/
structure Refusal where
  status : ℕ
  error : String
  recorded : Bool := false

/-- The checks of `processEnvelope` before the delivery. -/
def checkEnvelope (options : PeerMessagingServerOptions) (envelope : PeerMessageEnvelope) :
    Except Refusal Unit :=
  throwIf ((parsePeerMessageEnvelope options.isTimestamp envelope).toOption = none)
    ⟨400, "invalid_envelope", false⟩ <|
  throwIf (isValidTenantSlug envelope.tenantId = false) ⟨400, "invalid_tenant_id", false⟩ <|
  throwIf (isPeerId envelope.senderPeerId = false) ⟨400, "invalid_sender_peer_id", false⟩ <|
  throwIf (isPeerId envelope.recipientPeerId = false) ⟨400, "invalid_recipient_peer_id", false⟩ <|
  match normalizeEventScope envelope.scope with
  | .error _ => .error ⟨400, "invalid_scope", false⟩
  | .ok scope =>
      throwIf (scope.tenantSlug ≠ some envelope.tenantId)
        ⟨403, "scope_tenant_mismatch", false⟩ <|
      throwIf (envelope.tenantId ≠ options.tenantId) ⟨403, "tenant_mismatch", true⟩ <|
      throwIf (envelope.recipientPeerId ≠ options.peerId) ⟨400, "recipient_mismatch", true⟩ <|
      throwIf (options.verifyPeerMessage envelope = false) ⟨401, "invalid_signature", true⟩ <|
      .ok ()

inductive PeerEventType
  | messageRejected | messageReceived | messageError | messageHandled
  deriving DecidableEq

/-- A line of `events.jsonl`. -/
structure PeerEvent where
  ts : ℤ
  peerId : String
  type : PeerEventType
  messageId : String
  senderPeerId : Option String := none
  reason : Option String := none
  processedAt : Option ℤ := none

/-- The lines that `parsePeerEventRecord` accepts. -/
def listPeerEvents (options : PeerMessagingServerOptions) (events : List PeerEvent) :
    List PeerEvent :=
  events.filter fun event => event.peerId = trim options.peerId

def PeerMessageEnvelope.deliveryKey (envelope : PeerMessageEnvelope) : String :=
  envelope.senderPeerId ++ ":" ++ envelope.messageId

/-- The entry of the handled map that an event gives. -/
def PeerEvent.handled (event : PeerEvent) : Option (String × ℤ) :=
  match event.type, event.senderPeerId, event.processedAt with
  | .messageHandled, some sender, some at_ => some (sender ++ ":" ++ event.messageId, at_)
  | _, _, _ => none

/-- `new Map(entries)` -/
def mapOf (entries : List (String × ℤ)) : String → Option ℤ :=
  entries.foldl (fun map entry => Function.update map entry.1 (some entry.2)) fun _ => none

/-- What one instance of the server keeps in memory. -/
structure ServerState where
  activeDeliveries : ℤ := 0
  queuedDeliveries : ℤ := 0
  activeMessageIds : Finset String := ∅
  handledMessageIds : Option (String → Option ℤ) := none
  admissionWaiters : List ℕ := []

structure Reply where
  status : ℕ
  error : Option String := none
  duplicate : Bool := false
  processedAt : Option ℤ := none
  deriving DecidableEq

/-- Where a call is suspended: it holds a slot, has been refused one, waits for one, or awaits its
responder. -/
inductive Phase
  | admitted (envelope : PeerMessageEnvelope)
  | refused (envelope : PeerMessageEnvelope)
  | waiting (envelope : PeerMessageEnvelope)
  | responding (envelope : PeerMessageEnvelope)
  | done (reply : Reply)
  deriving DecidableEq

structure World where
  events : List PeerEvent := []
  server : ServerState := {}
  calls : List Phase := []
  /-- The sender and the id of the messages whose responder has returned. -/
  returned : List (String × String) := []

section Operations

variable (options : PeerMessagingServerOptions)

def getHandledMessageIds (events : List PeerEvent) (server : ServerState) : String → Option ℤ :=
  server.handledMessageIds.getD
    (mapOf ((listPeerEvents options events).filterMap PeerEvent.handled))

def maxInflight : ℤ :=
  max 1 ⌊options.maxInflight.getD 8⌋

def maxQueued : ℤ :=
  max 0 ⌊options.maxQueued.getD 64⌋

namespace World

variable (w : World)

/-- `recordPeerEvent`; every event of the server carries its peer id. -/
def recordPeerEvent (event : PeerEvent) : World :=
  { w with events := w.events ++ [event] }

/-- A new call. -/
def begin_ (phase : Phase) : World :=
  { w with calls := w.calls ++ [phase] }

def put (c : ℕ) (phase : Phase) : World :=
  { w with calls := w.calls.set c phase }

/-- Resolves the promise of a call that waits. -/
def wake (c : ℕ) : World :=
  match w.calls[c]? with
  | some (.waiting envelope) => w.put c (.admitted envelope)
  | _ => w

/-- `acquireAdmission` of a call that is new. -/
def acquireAdmission (envelope : PeerMessageEnvelope) : World :=
  if w.server.activeDeliveries < maxInflight options then
    { w.begin_ (.admitted envelope) with server := { w.server with
        activeDeliveries := w.server.activeDeliveries + 1 } }
  else if maxQueued options ≤ w.server.queuedDeliveries then w.begin_ (.refused envelope)
  else
    { w.begin_ (.waiting envelope) with server := { w.server with
        queuedDeliveries := w.server.queuedDeliveries + 1
        admissionWaiters := w.server.admissionWaiters ++ [w.calls.length] } }

def releaseAdmission : World :=
  match w.server.admissionWaiters with
  | next :: rest =>
      { w with server := { w.server with
          admissionWaiters := rest
          queuedDeliveries := w.server.queuedDeliveries - 1 } }.wake next
  | [] =>
      { w with server := { w.server with
          activeDeliveries := max 0 (w.server.activeDeliveries - 1) } }

def forget (key : String) : World :=
  { w with server := { w.server with
      activeMessageIds := w.server.activeMessageIds.erase key } }

/-- The `finally` block of a delivery. -/
def leave (c : ℕ) (envelope : PeerMessageEnvelope) (reply : Reply) : World :=
  ((w.put c (.done reply)).forget envelope.deliveryKey).releaseAdmission

/-- Records that a message has been handled, on file and in memory. -/
def markHandled (envelope : PeerMessageEnvelope) (now : ℤ) : World :=
  let recorded := w.recordPeerEvent {
    ts := now
    peerId := options.peerId
    type := .messageHandled
    messageId := envelope.messageId
    senderPeerId := some envelope.senderPeerId
    processedAt := some now }
  let handled := getHandledMessageIds options recorded.events w.server
  { recorded with server := { w.server with
      handledMessageIds := some (Function.update handled envelope.deliveryKey (some now)) } }

end World

/-- How the responder of a message ends: with a value, or with an error of this code and text. -/
inductive ResponderOutcome
  | returned
  | failed (code message : String)

inductive ServerAction
  | receive (envelope : PeerMessageEnvelope) (now : ℤ)
  | resume (c : ℕ) (now : ℤ)
  | respond (c : ℕ) (outcome : ResponderOutcome) (now : ℤ)
  | restart

/-- `processEnvelope` up to its first await. -/
def receive (w : World) (envelope : PeerMessageEnvelope) (now : ℤ) : World :=
  match checkEnvelope options envelope with
  | .error refusal =>
      let w := if refusal.recorded then w.recordPeerEvent {
          ts := now
          peerId := options.peerId
          type := .messageRejected
          messageId := envelope.messageId
          senderPeerId := some envelope.senderPeerId
          reason := some refusal.error } else w
      w.begin_ (.done { status := refusal.status, error := some refusal.error })
  | .ok () =>
      let handled := getHandledMessageIds options w.events w.server
      let w := { w with server := { w.server with handledMessageIds := some handled } }
      match handled envelope.deliveryKey with
      | some at_ => w.begin_ (.done { status := 200, duplicate := true, processedAt := some at_ })
      | none =>
          if envelope.deliveryKey ∈ w.server.activeMessageIds then
            w.begin_ (.done { status := 425, error := some "message_processing" })
          else
            World.acquireAdmission options { w with server := { w.server with
              activeMessageIds := insert envelope.deliveryKey w.server.activeMessageIds } } envelope

/-- A call goes on after `acquireAdmission`. -/
def resume (w : World) (c : ℕ) (now : ℤ) : Option World :=
  match w.calls[c]? with
  | some (.refused envelope) =>
      some (((w.forget envelope.deliveryKey).recordPeerEvent {
        ts := now
        peerId := options.peerId
        type := .messageRejected
        messageId := envelope.messageId
        reason := some "receiver_overloaded" }).put c
          (.done { status := 503, error := some "receiver_overloaded" }))
  | some (.admitted envelope) =>
      let w := w.recordPeerEvent {
        ts := now
        peerId := options.peerId
        type := .messageReceived
        messageId := envelope.messageId
        senderPeerId := some envelope.senderPeerId }
      if options.responder then some (w.put c (.responding envelope))
      else some ((w.markHandled options envelope now).leave c envelope
        { status := 200, processedAt := some now })
  | _ => none

/-- A call goes on after its responder. -/
def respond (w : World) (c : ℕ) (outcome : ResponderOutcome) (now : ℤ) : Option World :=
  match w.calls[c]?, outcome with
  | some (.responding envelope), .returned =>
      let w := w.markHandled options envelope now
      some ({ w with returned := w.returned ++ [(envelope.senderPeerId, envelope.messageId)] }.leave
        c envelope { status := 200, processedAt := some now })
  | some (.responding envelope), .failed code message =>
      some ((w.recordPeerEvent {
        ts := now
        peerId := options.peerId
        type := .messageError
        messageId := envelope.messageId
        reason := some code }).leave c envelope { status := 500, error := some message })
  | _, _ => none

/-- A new instance of the server starts when no call is under way. -/
def peerServer : System World ServerAction where
  init w := w = {}
  step w
    | .receive envelope now => some (receive options w envelope now)
    | .resume c now => resume options w c now
    | .respond c outcome now => respond options w c outcome now
    | .restart =>
        if w.calls.all (fun phase => match phase with
          | .done _ => true
          | _ => false) then some { w with server := {} } else none

end Operations

end Kyberion.Mesh.PeerServer
