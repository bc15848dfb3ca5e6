import Kyberion.Grammar
import Kyberion.Js.Json
import Kyberion.Js.Text

/-!
Records of a decision ledger, the grammars of their names, and the schema that every record is
checked against when it is appended and when the ledger is read.
-/

namespace Kyberion.Decision

open Kyberion.Js

/-- `other` is a value outside `DECISION_LEVELS`, which an unchecked caller may pass. -/
inductive DecisionLevel
  | productFixed
  | productAxis
  | customerValue
  | undecided
  | other (text : String)
  deriving DecidableEq

def isDecisionLevel : DecisionLevel → Bool
  | .other _ => false
  | _ => true

/-- `other` is a value outside `DECISION_STATES`. -/
inductive DecisionState
  | observed
  | enacted
  | proposed
  | decided
  | rejected
  | other (text : String)
  deriving DecidableEq

def isDecisionState : DecisionState → Bool
  | .other _ => false
  | _ => true

inductive DecisionAuthority
  | product
  | customer
  | coreSystem
  | platform
  | regulation
  | environment
  deriving DecidableEq

inductive DecisionOrigin
  | transcribed
  | console
  | hearing
  | facade
  | ssotSync
  | observation
  deriving DecidableEq

inductive DecisionStatus
  | active
  | superseded
  deriving DecidableEq

inductive ActorKind
  | human
  | agent
  | service
  deriving DecidableEq

def ActorKind.text : ActorKind → String
  | .human => "human"
  | .agent => "agent"
  | .service => "service"

inductive DecidingRole
  | owner
  | approver
  | viewer
  deriving DecidableEq

structure ActorRef where
  kind : ActorKind
  id : String
  display_name : Option String := none
  on_behalf_of : Option String := none
  deriving DecidableEq

structure DecisionBasis where
  ref : String
  version : String
  note : Option String := none
  approved : Option String := none
  deriving DecidableEq

structure DecisionOnBehalfOf where
  actor_id : String
  confirm_target : Option String := none
  evidence : Option String := none
  deriving DecidableEq

structure DecisionDecidedBy where
  kind : ActorKind
  id : String
  display_name : Option String := none
  role : Option DecidingRole := none
  on_behalf_of : Option DecisionOnBehalfOf := none
  deriving DecidableEq

def decidedByActorRef (decidedBy : DecisionDecidedBy) : ActorRef where
  kind := decidedBy.kind
  id := decidedBy.id
  display_name := decidedBy.display_name.filter (· ≠ "")

/-- `Omit<DecisionRecord, 'id' | 'status' | 'case_id'>` -/
structure DecisionContent where
  item : String
  key : String
  level : DecisionLevel
  state : DecisionState
  value : Option Json := none
  options : Option (List Json) := none
  authority : Option DecisionAuthority := none
  basis : Option (List DecisionBasis)
  bound_to : Option (List String) := none
  decided_by : Option DecisionDecidedBy := none
  decided_at : Option String := none
  proposed_by : Option ActorRef := none
  proposed_at : Option String := none
  origin : DecisionOrigin
  supersedes : Option String := none
  pending_reason : Option String := none
  note : Option String := none
  source_turn : Option String := none

structure DecisionRecord extends DecisionContent where
  id : String
  case_id : String
  status : DecisionStatus

structure DecisionAppendInput extends DecisionContent where
  id : Option String := none
  case_id : Option String := none

/-- The record is the current word on its item and key. -/
def DecisionRecord.active (r : DecisionRecord) : Bool :=
  r.status == .active

/-- The status aside, the two are one record. -/
def DecisionRecord.same (r r' : DecisionRecord) : Prop :=
  r'.toDecisionContent = r.toDecisionContent ∧ r'.id = r.id ∧ r'.case_id = r.case_id

section Grammars

def isAlphanumeric (c : Char) : Bool :=
  isLower c || ('A' ≤ c && c ≤ 'Z') || isDigit c

/-- The digits of an id, the match of `/^D-(\d+)$/u`. -/
def idDigits (id : String) : Option (List Char) :=
  match id.toList with
  | 'D' :: '-' :: ds => if !ds.isEmpty && ds.all Char.isDigit then some ds else none
  | _ => none

/-- `DECISION_ID_PATTERN`, `/^D-\d{4,}$/u` -/
def isDecisionId (id : String) : Bool :=
  (idDigits id).any fun ds => 4 ≤ ds.length

/-- `CASE_ID_PATTERN`, `/^[A-Za-z0-9][A-Za-z0-9_-]{0,80}$/u` -/
def isCaseId (id : String) : Bool :=
  match id.toList with
  | [] => false
  | c :: cs =>
      isAlphanumeric c && cs.length ≤ 80 && cs.all fun d => isAlphanumeric d || d = '_' || d = '-'

/-- `DECISION_KEY_PATTERN`, `/^[a-z][a-z0-9_]*(\.[a-z][a-z0-9_]*)*$/u` -/
def isDecisionKey (key : String) : Bool :=
  (key.toList.splitOn '.').all fun part =>
    match part with
    | [] => false
    | c :: cs => isLower c && cs.all fun d => isLower d || isDigit d || d = '_'

/-- `CUSTOMER_ACTOR_ID_PATTERN`, `/^customer:[a-z][a-z0-9-]{0,60}$/u` -/
def isCustomerActorId (id : String) : Bool :=
  ("customer:".toList.isPrefixOf? id.toList).any fun slug => isSlug slug && slug.length ≤ 61

end Grammars

section Schema

def DecisionBasis.fitsSchema (basis : DecisionBasis) : Bool :=
  basis.ref ≠ "" && basis.version ≠ ""

def DecisionDecidedBy.fitsSchema (decidedBy : DecisionDecidedBy) : Bool :=
  decidedBy.kind == .human && "user:".toList.isPrefixOf decidedBy.id.toList &&
    decidedBy.on_behalf_of.all fun behalf => isCustomerActorId behalf.actor_id

/-- `decision-record.schema.json` -/
def DecisionRecord.fitsSchema (r : DecisionRecord) : Bool :=
  isDecisionId r.id && isCaseId r.case_id &&
    (1 ≤ r.item.length && r.item.length ≤ 200) && isDecisionKey r.key &&
    isDecisionLevel r.level && isDecisionState r.state &&
    (r.basis.any fun basis => basis.all DecisionBasis.fitsSchema) &&
    (r.decided_by.all DecisionDecidedBy.fitsSchema) &&
    (r.proposed_by.all fun actor => actor.id ≠ "") &&
    (r.supersedes.all isDecisionId)

end Schema

section Lines

def DecisionContent.printed (content : DecisionContent) : DecisionContent :=
  { content with
    value := content.value.map Json.printed
    options := content.options.map fun options => options.map Json.printed }

/-- What reading the line of a record returns: numbers that JSON cannot print are lost. -/
def DecisionRecord.printed (r : DecisionRecord) : DecisionRecord :=
  { r with toDecisionContent := r.toDecisionContent.printed }

/-- `parseSafeJsonInput` accepts the line. -/
def DecisionRecord.isSafe (r : DecisionRecord) : Bool :=
  r.value.all Json.isSafeJsonValue && r.options.all fun os => os.all Json.isSafeJsonValue

end Lines

end Kyberion.Decision
