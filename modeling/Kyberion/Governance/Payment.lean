import Kyberion.Governance.Ledger
import Kyberion.Js.Throw
import Kyberion.Transition
import Mathlib.Logic.Function.Basic

/-!
The settlement of one payment identity. Calls claim it, ask the charter gate, submit it to the
provider and settle on the receipt, each step under the decision lock or outside it as in the
source; the calls interleave, and any of them may end between two steps.
-/

namespace Kyberion.Governance

open Js Transition

section Data

structure CharterPaymentExecution where
  paymentId : String
  recipient : String
  description : String
  idempotencyKey : String
  amount : ℚ
  currency : String
  deriving DecidableEq

inductive CharterPaymentResolution
  | succeeded | notExecuted | compensated | partially | unknown
  deriving DecidableEq

inductive CharterPaymentStatus
  | authorizing | executing | blocked
  | resolved (resolution : CharterPaymentResolution)
  deriving DecidableEq

/-- A receipt as the provider returns it; a resolution out of the list is `none`. -/
structure CharterPaymentReceipt where
  resolution : Option CharterPaymentResolution
  idempotencyKey : String
  recipient : String
  amount : ℚ
  currency : String
  evidenceRef : Option String
  executionClosed : Bool
  deriving DecidableEq

structure CharterPaymentState where
  payment : CharterPaymentExecution
  adapterId : String
  charterId : String
  intentHash : String
  status : CharterPaymentStatus
  evidenceRef : Option String := none
  reason : Option String := none
  deriving DecidableEq

/-- What `executeCharterPayment` is called with; `intentHash` is the digest of payment, action and
adapter. -/
structure ExecuteCharterPaymentInput where
  recipient : String
  description : String
  actionClass : String
  amount : Option ℚ
  currency : Option String
  adapterId : String
  intentHash : String
  deriving DecidableEq

/-- The identity that is settled: its id and the key of its scope. -/
structure PaymentIdentity where
  paymentId : String
  paymentKey : String

def PaymentIdentity.idempotencyKey (identity : PaymentIdentity) : String :=
  "charter-payment:" ++ identity.paymentKey

end Data

section Read

/-- The reservation of a payment in this status is released. -/
def CharterPaymentStatus.releases : CharterPaymentStatus → Option ReservationResolution
  | .resolved .notExecuted => some .notExecuted
  | .resolved .compensated => some .compensated
  | _ => none

def CharterPaymentStatus.isUnattempted (status : CharterPaymentStatus) : Bool :=
  status = .authorizing || status = .blocked

def isBlank (text : String) : Bool :=
  trim text = ""

/-- `/^[a-f0-9]{64}$/` -/
def isDigest (text : String) : Bool :=
  text.length = 64 && text.toList.all fun c => c.isDigit || ('a' ≤ c && c ≤ 'f')

def CharterPaymentState.wellFormed (identity : PaymentIdentity) (entry : CharterPaymentState) :
    Bool :=
  entry.payment.paymentId = identity.paymentId &&
    entry.payment.idempotencyKey = identity.idempotencyKey && 0 < entry.payment.amount &&
    !isBlank entry.payment.currency && !isBlank entry.payment.recipient &&
    !isBlank entry.payment.description && !isBlank entry.adapterId && !isBlank entry.charterId &&
    isDigest entry.intentHash &&
    (entry.status.releases.isNone || entry.evidenceRef.any fun ref => !isBlank ref)

/-- An entry goes on from those before it; the charter changes only where a payment that was never
attempted is authorized anew. -/
def CharterPaymentState.continues (before : List CharterPaymentState)
    (entry : CharterPaymentState) : Bool :=
  match before.head?, before.getLast? with
  | some first, some previous =>
      entry.intentHash = first.intentHash && entry.adapterId = first.adapterId &&
        (entry.charterId = previous.charterId ||
          previous.status = .blocked && entry.status = .authorizing &&
            before.all (·.status.isUnattempted)) &&
        entry.payment = first.payment
  | _, _ => true

def intactFrom (identity : PaymentIdentity) (before : List CharterPaymentState) :
    List CharterPaymentState → Bool
  | [] => true
  | entry :: rest =>
      entry.wellFormed identity && entry.continues before &&
        intactFrom identity (before ++ [entry]) rest

/-- `readCharterPayment`, none when it throws. -/
def readCharterPayment (identity : PaymentIdentity) (entries : List CharterPaymentState) :
    Option (Option CharterPaymentState) :=
  if intactFrom identity [] entries then some entries.getLast? else none

end Read

section Receipts

/-- The checks in front of the claim. -/
def ExecuteCharterPaymentInput.accepted (input : ExecuteCharterPaymentInput) : Bool :=
  !isBlank input.adapterId && input.actionClass = "payment" && input.amount.any (0 < ·) &&
    input.currency.any (!isBlank ·) && !isBlank input.recipient && !isBlank input.description

def ExecuteCharterPaymentInput.payment (identity : PaymentIdentity)
    (input : ExecuteCharterPaymentInput) : CharterPaymentExecution :=
  ⟨identity.paymentId, input.recipient, input.description, identity.idempotencyKey,
    input.amount.getD 0, input.currency.getD ""⟩

/-- The resolution of a receipt that is bound to the payment, with its evidence. -/
def CharterPaymentReceipt.bound (p : CharterPaymentExecution) (receipt : CharterPaymentReceipt) :
    Option (CharterPaymentResolution × String) :=
  match receipt.resolution, receipt.evidenceRef with
  | some resolution, some evidence =>
      if receipt.idempotencyKey ≠ p.idempotencyKey ∨ receipt.recipient ≠ p.recipient ∨
          receipt.amount ≠ p.amount ∨ receipt.currency ≠ p.currency ∨ isBlank evidence then none
      else if (CharterPaymentStatus.resolved resolution).releases.isSome ∧
          receipt.executionClosed ≠ true then none
      else some (resolution, evidence)
  | _, _ => none

/-- Late queries never reverse a known charge or release partial spend. -/
def keepsStatus (status : CharterPaymentStatus) (resolution : CharterPaymentResolution) : Bool :=
  match status with
  | .resolved .notExecuted | .resolved .compensated | .blocked => true
  | .resolved .succeeded => resolution ≠ .compensated
  | .resolved .partially => resolution ∉ [.succeeded, .compensated, .partially]
  | _ => false

end Receipts

section Calls

inductive GateOutcome
  | allow | requireApproval (reason : String) | stop | none
  deriving DecidableEq

def GateOutcome.reason : GateOutcome → String
  | .requireApproval reason => reason
  | .allow => "allow"
  | .stop => "stop"
  | .none => "none"

/-- Where a call stands. `executing` tells that a throw ends in the catch of
`executeCharterPayment`. -/
inductive PaymentCall
  | claiming (input : ExecuteCharterPaymentInput)
  /-- owns the claim and runs the charter gate -/
  | gating (state : CharterPaymentState)
  | deciding (state : CharterPaymentState) (outcome : GateOutcome)
  /-- about to call `adapter.execute` -/
  | submitting (state : CharterPaymentState)
  /-- a call of the provider is under way -/
  | awaiting (state : CharterPaymentState) (executing : Bool)
  | settling (state : CharterPaymentState) (resolution : CharterPaymentResolution)
      (evidence : String) (executing : Bool)
  | releasing (state : CharterPaymentState) (executing : Bool)
  | failing
  | querying (adapterId : String)

/-- What is durable of the payment and of the ledgers of the scope's charters, the calls, and how
often `adapter.execute` was invoked. -/
structure PaymentStore where
  log : List CharterPaymentState := []
  ledger : String → List LedgerEntry := fun _ => []
  calls : ℕ → Option PaymentCall := fun _ => none
  executed : ℕ := 0

inductive PaymentStep
  | execute (call : ℕ) (input : ExecuteCharterPaymentInput)
  | reconcile (call : ℕ) (adapterId : String)
  /-- the claim; `active` is the charter in force, none where `findActiveCharter` throws or finds
  none -/
  | claim (call : ℕ) (active : Option String)
  /-- the outcome of the gate; one that allows records the reservation -/
  | gate (call : ℕ) (outcome : GateOutcome) (reservation : Consumption)
  | decide (call : ℕ)
  | submit (call : ℕ)
  | receipt (call : ℕ) (receipt : CharterPaymentReceipt)
  | settle (call : ℕ)
  /-- the release; `charterFound` tells that the charter of the reservation is read -/
  | release (call : ℕ) (charterFound : Bool) (now : ℤ)
  /-- the call throws -/
  | throws (call : ℕ)
  | recover (call : ℕ)
  | query (call : ℕ)
  | crash (call : ℕ)
  /-- anything else that is recorded under a charter of the scope -/
  | record (charterId : String) (entry : LedgerEntry)

namespace PaymentStore

def goTo (s : PaymentStore) (call : ℕ) (phase : Option PaymentCall) : PaymentStore :=
  { s with calls := Function.update s.calls call phase }

def append (s : PaymentStore) (state : CharterPaymentState) : PaymentStore :=
  { s with log := s.log ++ [state] }

/-- A throw inside the `try` of `executeCharterPayment` goes to its catch; any other ends the
call. -/
def fail (s : PaymentStore) (call : ℕ) (executing : Bool) : PaymentStore :=
  s.goTo call (if executing then some .failing else none)

variable (identity : PaymentIdentity)

def claim (s : PaymentStore) (call : ℕ) (input : ExecuteCharterPaymentInput)
    (active : Option String) : PaymentStore :=
  match readCharterPayment identity s.log with
  | none => s.goTo call none
  | some (some existing) =>
      if existing.intentHash ≠ input.intentHash then s.goTo call none
      else
        match if existing.status = .blocked then active.filter (· ≠ existing.charterId)
          else none with
        | some amended =>
            let reauthorized : CharterPaymentState :=
              { existing with charterId := amended, status := .authorizing, reason := none }
            (s.append reauthorized).goTo call (some (.gating reauthorized))
        | none => s.goTo call (some (.releasing existing false))
  | some none =>
      match active with
      | none => s.goTo call none
      | some active =>
          let state : CharterPaymentState :=
            { payment := input.payment identity, adapterId := input.adapterId, charterId := active
              intentHash := input.intentHash, status := .authorizing }
          (s.append state).goTo call (some (.gating state))

def gate (s : PaymentStore) (call : ℕ) (state : CharterPaymentState) (outcome : GateOutcome)
    (reservation : Consumption) : PaymentStore :=
  let entries := s.ledger state.charterId
  let entries :=
    if outcome = .allow then
      recordCharterConsumption entries { reservation with
        actionClass := "payment", correlationId := some identity.idempotencyKey }
    else entries
  { s with ledger := Function.update s.ledger state.charterId entries }.goTo call
    (some (.deciding state outcome))

def decide (s : PaymentStore) (call : ℕ) (state : CharterPaymentState) (outcome : GateOutcome) :
    PaymentStore :=
  match readCharterPayment identity s.log with
  | some (some current) =>
      -- never overwrite what another process reconciled, or submit afterwards
      if current.status ≠ .authorizing then
        s.goTo call (some (if current.status = .executing then .submitting current
          else .releasing current true))
      else
        let next : CharterPaymentState :=
          { state with
            status := if outcome = .allow then .executing else .blocked
            reason := some outcome.reason }
        (s.append next).goTo call (some (if next.status = .executing then .submitting next
          else .releasing next true))
  | _ => s.fail call true

def settle (s : PaymentStore) (call : ℕ) (resolution : CharterPaymentResolution)
    (evidence : String) (executing : Bool) : PaymentStore :=
  match readCharterPayment identity s.log with
  | some (some current) =>
      if keepsStatus current.status resolution then
        s.goTo call (some (.releasing current executing))
      else
        let state : CharterPaymentState :=
          { current with status := .resolved resolution, evidenceRef := some evidence }
        (s.append state).goTo call (some (.releasing state executing))
  | _ => s.fail call executing

def release (s : PaymentStore) (call : ℕ) (state : CharterPaymentState) (executing charterFound :
    Bool) (now : ℤ) : PaymentStore :=
  match state.status.releases with
  | none => s.goTo call none
  | some resolution =>
      if !charterFound || isBlank (state.evidenceRef.getD "") then s.fail call executing
      else
        let entries := releaseCharterPaymentReservation (s.ledger state.charterId)
          state.payment.idempotencyKey resolution (state.evidenceRef.getD "") now
        { s with ledger := Function.update s.ledger state.charterId entries }.goTo call none

def recover (s : PaymentStore) (call : ℕ) : PaymentStore :=
  match readCharterPayment identity s.log with
  | some (some current) =>
      if current.status = .authorizing ∨ current.status = .executing then
        (s.append { current with
          status := .resolved .unknown
          reason := some "authorization/execution outcome requires authoritative reconciliation"
        }).goTo call none
      else s.goTo call none
  | _ => s.goTo call none

def query (s : PaymentStore) (call : ℕ) (adapterId : String) : PaymentStore :=
  match readCharterPayment identity s.log with
  | some (some state) =>
      if state.adapterId ≠ adapterId then s.goTo call none
      else if state.status.releases.isSome ∨ state.status = .blocked then
        s.goTo call (some (.releasing state false))
      else s.goTo call (some (.awaiting state false))
  | _ => s.goTo call none

def next (s : PaymentStore) : PaymentStep → Option PaymentStore
  | .execute call input =>
      if (s.calls call).isNone && input.accepted then
        some (s.goTo call (some (.claiming input))) else none
  | .reconcile call adapterId =>
      if (s.calls call).isNone && !isBlank adapterId then
        some (s.goTo call (some (.querying adapterId))) else none
  | .claim call active =>
      match s.calls call with
      | some (.claiming input) => some (s.claim identity call input active)
      | _ => none
  | .gate call outcome reservation =>
      match s.calls call with
      | some (.gating state) => some (s.gate identity call state outcome reservation)
      | _ => none
  | .decide call =>
      match s.calls call with
      | some (.deciding state outcome) => some (s.decide identity call state outcome)
      | _ => none
  | .submit call =>
      match s.calls call with
      | some (.submitting state) =>
          some ({ s with executed := s.executed + 1 }.goTo call (some (.awaiting state true)))
      | _ => none
  | .receipt call receipt =>
      match s.calls call with
      | some (.awaiting state executing) =>
          match receipt.bound state.payment with
          | none => some (s.fail call executing)
          | some (resolution, evidence) =>
              some (s.goTo call (some (.settling state resolution evidence executing)))
      | _ => none
  | .settle call =>
      match s.calls call with
      | some (.settling _ resolution evidence executing) =>
          some (s.settle identity call resolution evidence executing)
      | _ => none
  | .release call charterFound now =>
      match s.calls call with
      | some (.releasing state executing) => some (s.release call state executing charterFound now)
      | _ => none
  | .throws call =>
      match s.calls call with
      | some (.gating _) | some (.deciding _ _) | some (.submitting _) => some (s.fail call true)
      | some (.awaiting _ executing) | some (.settling _ _ _ executing)
      | some (.releasing _ executing) => some (s.fail call executing)
      | some _ => some (s.goTo call none)
      | none => none
  | .recover call =>
      match s.calls call with
      | some .failing => some (s.recover identity call)
      | _ => none
  | .query call =>
      match s.calls call with
      | some (.querying adapterId) => some (s.query identity call adapterId)
      | _ => none
  | .crash call => some (s.goTo call none)
  | .record charterId entry =>
      if entry.isReleaseOf identity.idempotencyKey then none
      else some { s with
        ledger := Function.update s.ledger charterId (s.ledger charterId ++ [entry]) }

end PaymentStore

end Calls

def paymentSystem (identity : PaymentIdentity) : System PaymentStore PaymentStep where
  init s := s = {}
  step := PaymentStore.next identity

end Kyberion.Governance
