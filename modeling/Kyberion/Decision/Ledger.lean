import Kyberion.Call
import Kyberion.Decision.Record
import Kyberion.Js.Number
import Kyberion.Js.Throw
import Kyberion.Transition

/-!
The decision ledger: `appendDecisions` and `applyPromotions` as calls on the file, each under the
lock of the ledger, and the runs of such calls from the empty ledger.
-/

namespace Kyberion.Decision

open Kyberion.Js Kyberion.Transition

/-- The records that the lines of `decisions.jsonl` are read as. -/
abbrev Ledger :=
  List DecisionRecord

/-- Why a call throws. -/
inductive Failure
  | dangerousKey (label : String)
  | invalidCatalog (id : String)
  | ledgerError (code : String) (details : List (ℕ × List String))
  | actorAccountability (operation : String) (actor : ActorRef)
  | typeError
  deriving DecidableEq

/-- The text of the error, without what the schema library and the engine say. -/
def Failure.message : Failure → String
  | .dangerousKey label => label ++ " contains a dangerous JSON key"
  | .invalidCatalog id => "Invalid catalog " ++ id
  | .ledgerError code details =>
      let parts := details.map fun (index, errors) =>
        "#" ++ toString index ++ ": " ++ ", ".intercalate errors
      "[DECISION_LEDGER_" ++ code.toUpper ++ "] " ++ "; ".intercalate parts
  | .actorAccountability operation actor =>
      "[actor] '" ++ operation ++ "' requires a human actor (kind='human'); got kind='" ++
        actor.kind.text ++ "' id='" ++ actor.id ++ "'"
  | .typeError => "TypeError"

section Append

/-- The name of the ledger that a caller gives: its tenant and case, or its directory. -/
inductive DecisionLedgerLocation
  | tenant (caseId : String)
  | dir
  deriving DecidableEq

def validate (r : DecisionRecord) : Except Failure DecisionRecord :=
  if r.fitsSchema then .ok r else .error (.invalidCatalog "decision-record")

def readLine (line : DecisionRecord × ℕ) : Except Failure DecisionRecord :=
  throwIf (¬ line.1.isSafe) (.dangerousKey ("decision record line " ++ toString (line.2 + 1)))
    (validate line.1)

def readLedger (file : Ledger) : Except Failure (List DecisionRecord) :=
  file.zipIdx.mapM readLine

/-- The number of an id as the reduction over the records reads it. -/
def idNumber (id : String) : Option ℕ :=
  (idDigits id).map digitsValue

/-- One round of the reduction to the largest number. -/
def largerNumber (acc : Option ℕ) (item : DecisionRecord) : Option ℕ :=
  match idNumber item.id with
  | some n => maxDouble acc (toDouble n)
  | none => acc

def nextDecisionId (existing : List DecisionRecord) : String :=
  let max := existing.foldl largerNumber (some 0)
  "D-" ++ padStart 4 (numberText (addOne max))

def live (existing : List DecisionRecord) (incoming : DecisionAppendInput) : List DecisionRecord :=
  existing.filter fun item => item.active && item.item = incoming.item && item.key = incoming.key

/-- The text is there and not empty. -/
def truthy (s : Option String) : Bool :=
  s.any (· ≠ "")

def validateAppend (existing : List DecisionRecord) (incoming : DecisionAppendInput) :
    List String :=
  let live := live existing incoming
  let decided := incoming.state = .decided
  [(incoming.item = "" || incoming.key = "", "item_and_key_required"),
    (!isDecisionLevel incoming.level, "level_invalid"),
    (!isDecisionState incoming.state, "state_invalid"),
    (decided && incoming.basis.all List.isEmpty, "basis_required"),
    (decided && !incoming.decided_by.any (·.kind == .human), "decided_by_human_required"),
    (truthy incoming.id && !incoming.id.any isDecisionId, "id_invalid"),
    (truthy incoming.id && existing.any fun item => some item.id = incoming.id, "id_exists"),
    (!live.isEmpty && !truthy incoming.supersedes, "supersedes_required"),
    (truthy incoming.supersedes && !live.any fun item => some item.id = incoming.supersedes,
      "supersedes_not_active")].filterMap fun (refused, code) => if refused then some code else none

/-- The working copy of a batch, and what the batch has done so far. -/
structure Working where
  working : List DecisionRecord
  appended : List DecisionRecord := []
  superseded : List String := []
  problems : List (ℕ × List String) := []

/-- The active record that `by_` names is superseded. -/
def supersede (by_ item : DecisionRecord) : DecisionRecord :=
  if truthy by_.supersedes ∧ by_.supersedes = some item.id ∧ item.active then
    { item with status := .superseded }
  else item

/-- The record that an input becomes. -/
def fullRecord (caseId : String) (working : List DecisionRecord) (record : DecisionAppendInput) :
    DecisionRecord :=
  { record with
    id := record.id.getD (nextDecisionId working)
    case_id := record.case_id.getD caseId
    status := .active }

/-- One round of `records.forEach`. -/
def appendRecord (caseId : String) (w : Working) (round : DecisionAppendInput × ℕ) :
    Except Failure Working :=
  let errors := validateAppend w.working round.1
  if errors ≠ [] then .ok { w with problems := w.problems ++ [(round.2, errors)] }
  else do
    let validated ← validate (fullRecord caseId w.working round.1)
    return { w with
      working := w.working.map (supersede validated) ++ [validated]
      appended := w.appended ++ [validated]
      superseded := w.superseded ++ (w.working.filter fun item =>
        truthy validated.supersedes && validated.supersedes = some item.id && item.active).map
          (·.id) }

structure DecisionAppendOptions where
  dryRun : Bool := false
  caseId : Option String := none

structure DecisionAppendResult where
  appended : List DecisionRecord
  superseded : List String
  dryRun : Bool

def defaultCaseId (location : DecisionLedgerLocation) (existing : List DecisionRecord) : String :=
  match location with
  | .tenant caseId => caseId
  | .dir => (existing.head?.map (·.case_id)).getD "case"

def appendDecisions (location : DecisionLedgerLocation) (records : List DecisionAppendInput)
    (options : DecisionAppendOptions) : Call Ledger Failure DecisionAppendResult := do
  let file ← Call.read
  let existing ← Call.lift (readLedger file)
  let caseId := options.caseId.getD (defaultCaseId location existing)
  let w ← Call.lift (records.zipIdx.foldlM (appendRecord caseId) { working := existing })
  Call.refuse (w.problems ≠ []) (.ledgerError "append_rejected" w.problems)
  if options.dryRun then pure ()
  else Call.write fun _ => w.working.map DecisionRecord.printed
  pure { appended := w.appended, superseded := w.superseded, dryRun := options.dryRun }

end Append

section Promotion

inductive DecisionPromotionRefusal
  | actor_not_human
  | role_cannot_decide
  | level_undecided
  | axis_without_options
  | customer_actor_required
  | customer_actor_unknown
  | customer_actor_not_entitled
  | customer_approval_required
  | basis_required
  deriving DecidableEq

def DecisionPromotionRefusal.text : DecisionPromotionRefusal → String
  | .actor_not_human => "actor_not_human"
  | .role_cannot_decide => "role_cannot_decide"
  | .level_undecided => "level_undecided"
  | .axis_without_options => "axis_without_options"
  | .customer_actor_required => "customer_actor_required"
  | .customer_actor_unknown => "customer_actor_unknown"
  | .customer_actor_not_entitled => "customer_actor_not_entitled"
  | .customer_approval_required => "customer_approval_required"
  | .basis_required => "basis_required"

structure DecisionCustomerActor where
  id : String
  decides : List DecisionLevel
  confirm_target : Option String := none

structure DecisionLevelPolicy where
  deciding_roles : List DecidingRole
  requires_options : Bool := false
  customer_actor_required : Bool := false
  customer_evidence_required : Bool := false

structure DecisionAuthorityPolicy where
  basis_required_for_decided : Bool
  levels : DecisionLevel → Option DecisionLevelPolicy

def DEFAULT_DECISION_AUTHORITY_POLICY : DecisionAuthorityPolicy where
  basis_required_for_decided := true
  levels
    | .productFixed => some { deciding_roles := [.owner, .approver] }
    | .productAxis => some { deciding_roles := [.owner, .approver], requires_options := true }
    | .customerValue => some
        { deciding_roles := [], customer_actor_required := true, customer_evidence_required := true }
    | .undecided => some { deciding_roles := [] }
    | .other _ => none

inductive DecisionPromotionResult
  | decided (decision : DecisionRecord)
  | proposed (decision : DecisionRecord) (reason : DecisionPromotionRefusal) (ask : Option String)

def DecisionPromotionResult.decision : DecisionPromotionResult → DecisionRecord
  | .decided decision => decision
  | .proposed decision _ _ => decision

/-- `none` where the actor may decide, else the refusal and whom to ask. -/
def canActorDecideLevel (level : DecisionLevel) (decidedBy : DecisionDecidedBy)
    (customerActors : List DecisionCustomerActor) (policy : DecisionAuthorityPolicy) :
    Except Failure (Option (DecisionPromotionRefusal × Option String)) :=
  if decidedBy.kind ≠ .human then .ok (some (.actor_not_human, none))
  else if level = .undecided then .ok (some (.level_undecided, none))
  else
    match policy.levels level with
    | none => .error .typeError
    | some rule =>
        if ¬ rule.customer_actor_required then
          if decidedBy.role.any fun role => rule.deciding_roles.contains role then .ok none
          else .ok (some (.role_cannot_decide, none))
        else
          match decidedBy.on_behalf_of.filter (·.actor_id ≠ "") with
          | none => .ok (some (.customer_actor_required, none))
          | some behalf =>
              if ¬ isCustomerActorId behalf.actor_id then .ok (some (.customer_actor_unknown, none))
              else
                match customerActors.find? (·.id = behalf.actor_id) with
                | none => .ok (some (.customer_actor_unknown, none))
                | some actor =>
                    if level ∉ actor.decides then .ok (some (.customer_actor_not_entitled, none))
                    else if rule.customer_evidence_required ∧
                        ¬ behalf.evidence.any fun evidence => trim evidence ≠ "" then
                      .ok (some (.customer_approval_required,
                        some (orElse behalf.confirm_target (orElse actor.confirm_target actor.id))))
                    else .ok none

def assertHumanActor (actor : ActorRef) (operation : String) : Except Failure Unit :=
  if actor.kind ≠ .human then .error (.actorAccountability operation actor) else .ok ()

def promoteDecision (decision : DecisionRecord) (decidedBy : DecisionDecidedBy) (now : String)
    (customerActors : List DecisionCustomerActor) (policy : DecisionAuthorityPolicy) :
    Except Failure DecisionPromotionResult := do
  assertHumanActor (decidedByActorRef decidedBy) "decision-ledger.decide"
  let base := { decision with decided_by := some decidedBy }
  let refuse (reason : DecisionPromotionRefusal) (ask : Option String) :=
    DecisionPromotionResult.proposed
      { base with state := .proposed, pending_reason := some reason.text } reason
      (ask.filter (· ≠ ""))
  if ((policy.levels decision.level).any (·.requires_options)) ∧ decision.options.all List.isEmpty then
    return refuse .axis_without_options none
  else if policy.basis_required_for_decided ∧ decision.basis.all List.isEmpty then
    return refuse .basis_required none
  else
    match ← canActorDecideLevel decision.level decidedBy customerActors policy with
    | some (reason, ask) => return refuse reason ask
    | none =>
        let decision :=
          { base with pending_reason := none, state := .decided, decided_at := some now }
        return .decided decision

structure DecisionPromotionRequest where
  promote : String
  value : Option Json
  decided_by : DecisionDecidedBy
  basis : List DecisionBasis
  source_turn : Option String := none
  origin : DecisionOrigin := .hearing

inductive PromotionOutcome
  | promoted (result : DecisionPromotionResult)
  | skipped (reason : String)

structure ApplyPromotionsOptions where
  now : String
  dryRun : Bool := false
  customerActors : List DecisionCustomerActor := []
  policy : DecisionAuthorityPolicy := DEFAULT_DECISION_AUTHORITY_POLICY

/-- The target with the answer in it, before its promotion. -/
def promotionCandidate (target : DecisionRecord) (request : DecisionPromotionRequest) :
    DecisionRecord :=
  { target with
    id := "D-0000"
    value := request.value
    basis := some (target.basis.getD [] ++ request.basis)
    origin := request.origin
    supersedes := some target.id
    source_turn := if truthy request.source_turn then request.source_turn else target.source_turn }

/-- What the promotion of one request contributes to the results and the batch. -/
def planPromotion (existing : List DecisionRecord) (options : ApplyPromotionsOptions)
    (request : DecisionPromotionRequest) :
    Except Failure (PromotionOutcome × Option DecisionAppendInput) :=
  match existing.find? fun item => item.id = request.promote && item.active with
  | none => .ok (.skipped "target_not_active", none)
  | some target =>
      if target.state = .decided then .ok (.skipped "already_decided", none)
      else do
        let outcome ← promoteDecision (promotionCandidate target request) request.decided_by
          options.now options.customerActors options.policy
        let rest := outcome.decision.toDecisionContent
        return (.promoted outcome,
          some { rest with proposed_at := some (rest.proposed_at.getD options.now) })

structure DecisionApplyPromotionsResult where
  results : List (String × PromotionOutcome)
  append : DecisionAppendResult

def applyPromotions (location : DecisionLedgerLocation)
    (requests : List DecisionPromotionRequest) (options : ApplyPromotionsOptions) :
    Call Ledger Failure DecisionApplyPromotionsResult := do
  let file ← Call.read
  let existing ← Call.lift (readLedger file)
  let plans ← Call.lift (requests.mapM (planPromotion existing options))
  let results := (requests.map (·.promote)).zip (plans.map (·.1))
  let inputs := plans.filterMap (·.2)
  if inputs ≠ [] then do
    let append ← appendDecisions location inputs { dryRun := options.dryRun }
    pure { results, append }
  else
    pure { results, append := { appended := [], superseded := [], dryRun := options.dryRun } }

end Promotion

section Runs

inductive LedgerAction
  | append (location : DecisionLedgerLocation) (records : List DecisionAppendInput)
      (options : DecisionAppendOptions)
  | promote (location : DecisionLedgerLocation) (requests : List DecisionPromotionRequest)
      (options : ApplyPromotionsOptions)

/-- The call of an action, whatever it returns. -/
def LedgerAction.call : LedgerAction → Call Ledger Failure Unit
  | .append location records options => (appendDecisions location records options).void
  | .promote location requests options => (applyPromotions location requests options).void

def LedgerAction.dryRun : LedgerAction → Bool
  | .append _ _ options => options.dryRun
  | .promote _ _ options => options.dryRun

/-- Calls on one ledger, one after another as its lock lets them in. -/
def decisionLedger : System Ledger LedgerAction where
  init s := s = []
  step s a := some (a.call.run s).1

end Runs

end Kyberion.Decision
