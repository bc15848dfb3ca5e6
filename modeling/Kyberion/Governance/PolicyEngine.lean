import Kyberion.Foundation.FixedWindow
import Kyberion.Js.Text
import Mathlib.Data.List.Sort
import Mathlib.Algebra.Order.Monoid.WithTop
import Mathlib.Data.List.Infix

/-!
The policy engine. The rules of all policies are asked in turn; a rule that matches may be limited
in its rate, and the matching rules decide by priority.
-/

namespace Kyberion.Governance

open Foundation

inductive PolicyOperator
  | eq | ne | gt | lt | gte | lte | in_ | contains | matches_
  deriving DecidableEq

inductive PolicyAction
  | allow | deny | block | audit
  deriving DecidableEq

/-- What `normalizeRateLimit` lets pass. -/
structure PolicyRateLimit where
  max : ℕ
  windowSeconds : ℚ
  message : Option String := none
  max_safe : max ≤ MAX_SAFE_INTEGER
  window_pos : 0 < windowSeconds

structure PolicyRule (Value : Type) where
  field : String
  operator : PolicyOperator
  value : Value
  conditionField : Option String := none
  conditionOperator : Option PolicyOperator := none
  conditionValue : Value
  action : PolicyAction
  priority : ℤ
  message : Option String := none
  rateLimit : Option PolicyRateLimit := none

structure Policy (Value : Type) where
  name : String
  rules : List (PolicyRule Value)

/-- A call of `evaluate`; `field` reads the context, the agent's id and the operation included. -/
structure PolicyCall (Value : Type) where
  agentId : String
  field : String → Value
  now : ℚ

structure PolicyDecision (Value : Type) where
  allowed : Bool
  action : PolicyAction
  matchedPolicy : Option String := none
  matchedRule : Option (PolicyRule Value) := none
  message : Option String := none
  rateLimited : Bool := false

/-- A number as `Number` gives it; `none` is `NaN`. -/
abbrev JsNumber := Option (WithBot (WithTop ℚ))

/-- The language's own operations on values. -/
structure PolicyHost (Value : Type) where
  strictEqual : Value → Value → Bool
  number : Value → JsNumber
  /-- `String(value)`, and the text of a value that is a string. -/
  toText : Value → String
  asText : Value → Option String
  /-- `String(value || '')` -/
  textOrEmpty : Value → String
  /-- The elements of an array. -/
  elements : Value → Option (List Value)
  sameValueZero : Value → Value → Bool
  /-- `new RegExp(pattern, flags)`, when it does not throw, as its `test`. -/
  regExp : String → String → Option (String → Bool)

section Operators

variable {Value : Type} (host : PolicyHost Value)

def numbersCompare (compare : WithBot (WithTop ℚ) → WithBot (WithTop ℚ) → Bool)
    (a b : JsNumber) : Bool :=
  match a, b with
  | some a, some b => compare a b
  | _, _ => false

def isAsciiDigit (c : Char) : Bool :=
  '0' ≤ c && c ≤ '9'

/-- `/\{\d{3,}\}/` from an opening brace on. -/
def isLongRepeat (afterBrace : List Char) : Bool :=
  let digits := afterBrace.takeWhile isAsciiDigit
  3 ≤ digits.length && (afterBrace.drop digits.length).head? = some '\x7d'

/-- `/(\+\+|\*\*|\{\d{3,}\})/` -/
def isComplexPattern : List Char → Bool
  | [] => false
  | c :: rest =>
      (c = '+' && rest.head? = some '+') || (c = '*' && rest.head? = some '*') ||
        (c = '\x7b' && isLongRepeat rest) || isComplexPattern rest

def matchesPattern (fieldValue ruleValue : Value) : Bool :=
  let pattern := (host.toText ruleValue).toList
  if 200 < Js.utf16Length (host.toText ruleValue) ∨ isComplexPattern pattern then false
  else
    let test := if "(?i)".toList.isPrefixOf pattern then
        host.regExp (String.ofList (pattern.drop 4)) "i"
      else host.regExp (String.ofList pattern) ""
    test.any (· (host.textOrEmpty fieldValue))

def evalOperator (fieldValue : Value) (operator : PolicyOperator) (ruleValue : Value) : Bool :=
  match operator with
  | .eq => host.strictEqual fieldValue ruleValue
  | .ne => !host.strictEqual fieldValue ruleValue
  | .gt => numbersCompare (fun a b => b < a) (host.number fieldValue) (host.number ruleValue)
  | .lt => numbersCompare (fun a b => a < b) (host.number fieldValue) (host.number ruleValue)
  | .gte => numbersCompare (fun a b => b ≤ a) (host.number fieldValue) (host.number ruleValue)
  | .lte => numbersCompare (fun a b => a ≤ b) (host.number fieldValue) (host.number ruleValue)
  | .in_ => (host.elements ruleValue).any fun items =>
      items.any fun item => host.sameValueZero item fieldValue
  | .contains => (host.asText fieldValue).any fun text =>
      decide ((host.toText ruleValue).toList <:+: text.toList)
  | .matches_ => matchesPattern host fieldValue ruleValue

/-- The rule's condition holds, if it has one, and its operator does. -/
def PolicyRule.appliesTo (rule : PolicyRule Value) (call : PolicyCall Value) : Bool :=
  (match rule.conditionField with
    | some conditionField => evalOperator host (call.field conditionField)
        (rule.conditionOperator.getD .eq) rule.conditionValue
    | none => true) &&
  evalOperator host (call.field rule.field) rule.operator rule.value

end Operators

section Evaluate

variable {Value : Type} (host : PolicyHost Value)

/-- The limiter of the engine. -/
def policyRateLimiter : FixedWindowOptions where
  windowMs := 1
  maxKeys := 5000
  eviction := .deny
  expireAtBoundary := false

def rateKey (agentId : String) (rule : PolicyRule Value) : String :=
  agentId ++ ":" ++ rule.field

def PolicyRateLimit.windowMs (limit : PolicyRateLimit) : ℚ :=
  limit.windowSeconds * 1000

/-- `checkRateLimit`: whether the call is limited, and the buckets after it. -/
def checkRateLimit (buckets : FixedWindowLimiter.Buckets) (call : PolicyCall Value)
    (rule : PolicyRule Value) (limit : PolicyRateLimit) :
    Except String (Bool × FixedWindowLimiter.Buckets) :=
  (FixedWindowLimiter.take policyRateLimiter buckets (rateKey call.agentId rule) limit.max
    call.now limit.windowMs).map fun (decision, buckets) => (decision ≠ .allowed, buckets)

def PolicyAction.restrictiveness : PolicyAction → ℕ
  | .block => 3
  | .deny => 2
  | .audit => 1
  | .allow => 0

/-- The order in which decisions are sorted. -/
def decidesFirst (a b : String × PolicyRule Value) : Bool :=
  if b.2.priority ≠ a.2.priority then b.2.priority < a.2.priority
  else b.2.action.restrictiveness ≤ a.2.action.restrictiveness

def rateLimitedDecision (policy : String) (rule : PolicyRule Value) (limit : PolicyRateLimit) :
    PolicyDecision Value where
  allowed := false
  action := .deny
  matchedPolicy := some policy
  matchedRule := some rule
  message := some (Js.orElse limit.message "Rate limit exceeded")
  rateLimited := true

def resolve (decisions : List (String × PolicyRule Value)) : PolicyDecision Value :=
  match decisions.insertionSort (fun a b => decidesFirst a b = true) with
  | [] => { allowed := true, action := .allow }
  | (policy, rule) :: _ =>
      { allowed := rule.action = .allow || rule.action = .audit
        action := rule.action
        matchedPolicy := some policy
        matchedRule := some rule
        message := rule.message }

/-- The loop over the rules, with the decisions so far. -/
def evaluateRules (call : PolicyCall Value) :
    List (String × PolicyRule Value) → List (String × PolicyRule Value) →
      FixedWindowLimiter.Buckets →
      Except String (PolicyDecision Value) × FixedWindowLimiter.Buckets
  | [], decisions, buckets => (.ok (resolve decisions), buckets)
  | (policy, rule) :: rest, decisions, buckets =>
      if rule.appliesTo host call then
        match rule.rateLimit with
        | none => evaluateRules call rest (decisions ++ [(policy, rule)]) buckets
        | some limit =>
            match checkRateLimit buckets call rule limit with
            | .error message => (.error message, buckets)
            | .ok (true, buckets) => (.ok (rateLimitedDecision policy rule limit), buckets)
            | .ok (false, buckets) => evaluateRules call rest (decisions ++ [(policy, rule)]) buckets
      else evaluateRules call rest decisions buckets

/-- The rules of all policies, in the order of the loops. -/
def allRules (policies : List (Policy Value)) : List (String × PolicyRule Value) :=
  policies.flatMap fun policy => policy.rules.map (policy.name, ·)

def evaluate (policies : List (Policy Value)) (call : PolicyCall Value)
    (buckets : FixedWindowLimiter.Buckets) :
    Except String (PolicyDecision Value) × FixedWindowLimiter.Buckets :=
  if policies.isEmpty then
    (.ok { allowed := false
           action := .deny
           message := some "Policy engine has no loaded policies; failing closed." }, buckets)
  else evaluateRules host call (allRules policies) [] buckets

end Evaluate

end Kyberion.Governance
