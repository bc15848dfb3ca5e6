import Mathlib.Algebra.Order.Floor.Semifield
import Mathlib.Data.Rat.Floor
import Kyberion.Js.Text

/-!
Compaction of a worker's transcript: old tool results are elided, and when that is not enough the
older messages give way to a summary or to a handoff note.
-/

namespace Kyberion.Workforce

open Js

inductive WorkerContextRole
  | system | user | assistant | toolUse | toolResult
  deriving DecidableEq

structure WorkerContextMessage where
  role : WorkerContextRole
  content : String
  /-- Links a tool use to its result. -/
  pairId : Option String := none
  pinned : Bool := false
  retainedTail : Option (List WorkerContextMessage) := none

structure ContextWindowProfile where
  contextWindowTokens : ℚ := 200000
  reserveTokens : ℚ := 32000
  bufferTokens : ℚ := 8000

inductive CompactionReason
  | manual | threshold | overflow
  deriving DecidableEq

structure CompactWorkerContextOptions where
  profile : ContextWindowProfile := {}
  keepRecentToolResults : Option ℤ := none
  /-- A summarizer is given. -/
  summarize : Bool := false
  /-- The text of `renderCarryoverBlock`. -/
  carryover : Option String := none
  force : Bool := false
  lastProviderUsageTokens : Option ℚ := none
  providerUsageMessageCount : Option ℤ := none
  reason : Option CompactionReason := none
  durability : Bool := false
  forceDeterministicHandoff : Bool := false
  deterministicHandoffOnTimeout : Bool := false

/-- The places where an attempt asks whether it may still publish a result. -/
inductive CommitCheck
  | entry | hooks | handoff | archived | summarized | failed | staged | purged | snapshot
  | unrecorded | ended
  deriving DecidableEq

inductive SummaryFailureKind
  | timeout | error
  deriving DecidableEq

/-- What the world answers to an attempt. -/
structure CompactionAttempt where
  canCommit : CommitCheck → Bool := fun _ => true
  /-- The egress check, the summarizer and its deadline. -/
  summary : Except (SummaryFailureKind × String) String
  /-- `persistIncompleteHandoff` -/
  archive : Option String := none
  /-- `persistSummaryArtifact` -/
  artifact : Option String := none
  /-- The snapshot is written and recorded in the journal. -/
  snapshotRecorded : Bool := true

inductive CompactionStage
  | none_ | microcompact | summary | deterministicHandoff
  deriving DecidableEq

def DEFAULT_KEEP_RECENT_TOOL_RESULTS : ℤ := 5

def ELIDE_MIN_CHARS : ℕ := 200

section Tokens

def compactionThresholdTokens (profile : ContextWindowProfile) : ℚ :=
  max 1024 (profile.contextWindowTokens - profile.reserveTokens - profile.bufferTokens)

/-- `Math.ceil(text.length / 3)` -/
def estimateTokens (text : String) : ℕ :=
  (utf16Length text + 2) / 3

/-- `Math.ceil(text.length / 4)` -/
def estimateHybridTailTokens (text : String) : ℕ :=
  (utf16Length text + 3) / 4

/-- The estimate over the contents; `hybrid` counts what a provider has measured. -/
structure ContextTokenEstimate where
  tokens : ℤ
  hybrid : Bool
  usageTokens : Option ℤ := none
  estimatedTrailingTokens : ℕ
  trailingMessageCount : ℕ

def contentTokens (messages : List WorkerContextMessage) : ℕ :=
  (messages.map fun message => estimateTokens message.content).sum

def estimateContextTokenDetails (messages : List WorkerContextMessage)
    (providerUsageTokens : Option ℚ) (providerUsageMessageCount : Option ℤ) :
    ContextTokenEstimate :=
  match providerUsageTokens.filter (0 ≤ ·) with
  | some usage =>
      let prefixCount := (providerUsageMessageCount.getD messages.length).toNat
      let trailing := messages.drop prefixCount
      let estimated := (trailing.map fun message => estimateHybridTailTokens message.content).sum
      { tokens := ⌈usage⌉ + estimated
        hybrid := true
        usageTokens := some ⌈usage⌉
        estimatedTrailingTokens := estimated
        trailingMessageCount := trailing.length }
  | none =>
      { tokens := contentTokens messages
        hybrid := false
        estimatedTrailingTokens := contentTokens messages
        trailingMessageCount := messages.length }

/-- `Math.max(1, Math.floor(thresholdTokens * SUMMARY_TAIL_FRACTION))` -/
def summaryTailBudget (thresholdTokens : ℚ) : ℤ :=
  max 1 ⌊thresholdTokens / 4⌋

end Tokens

section Microcompact

def elisionNote (content : String) : String :=
  "[tool_result elided by auto-compaction: " ++ toString (utf16Length content) ++
    " chars — full output preserved in artifacts]"

/-- The message is an unpinned tool result. -/
def WorkerContextMessage.elidable (message : WorkerContextMessage) : Bool :=
  message.role = .toolResult && !message.pinned

/-- The unpinned tool results but for the last `keepRecent`. -/
def elidableToolResultIndexes (messages : List WorkerContextMessage) (keepRecent : ℤ) : List ℕ :=
  let toolResultIndexes := (messages.zipIdx.filter fun entry => entry.1.elidable).map Prod.snd
  toolResultIndexes.take (toolResultIndexes.length - keepRecent).toNat

def microcompact (messages : List WorkerContextMessage) (keepRecent : ℤ) :
    List WorkerContextMessage :=
  let elidable := elidableToolResultIndexes messages keepRecent
  messages.zipIdx.map fun (message, index) =>
    if index ∉ elidable ∨ utf16Length message.content ≤ ELIDE_MIN_CHARS then message
    else { message with content := elisionNote message.content }

end Microcompact

section Tail

/-- The first loop, over the messages in front of `start` from the last one back. -/
def budgetTailStart (tailBudgetTokens : ℤ) : List WorkerContextMessage → ℕ → ℕ → ℕ
  | [], start, _ => start
  | candidate :: earlier, start, tokens =>
      if tailBudgetTokens < tokens + estimateTokens candidate.content ∧ 0 < tokens then start
      else budgetTailStart tailBudgetTokens earlier (start - 1)
        (tokens + estimateTokens candidate.content)

/-- The pair of a message, when it has one; an empty id is none. -/
def WorkerContextMessage.pair (message : WorkerContextMessage) : Option String :=
  message.pairId.filter (· ≠ "")

def WorkerContextMessage.isUse (message : WorkerContextMessage) (pair : String) : Bool :=
  message.role = .toolUse && message.pair = some pair

def WorkerContextMessage.isResult (message : WorkerContextMessage) (pair : String) : Bool :=
  message.role = .toolResult && message.pair = some pair

/-- The pair of the first message of a tail, when it is a tool result. -/
def leadingResult (messages : List WorkerContextMessage) (start : ℕ) : Option String :=
  (messages[start]?.filter (·.role = .toolResult)).bind (·.pair)

/-- The second loop: a tail that begins with a result is moved back to its use. The start goes down
in each round, so that `start` rounds are enough. -/
def pairTailStart (messages : List WorkerContextMessage) : ℕ → ℕ → ℕ
  | 0, start => start
  | rounds + 1, start =>
      match leadingResult messages start with
      | none => start
      | some pair =>
          match messages.findIdx? (·.isUse pair) with
          | none => start
          | some pairIndex =>
              if start ≤ pairIndex then start else pairTailStart messages rounds pairIndex

def pairSafeTailStart (messages : List WorkerContextMessage) (tailBudgetTokens : ℤ) : ℕ :=
  let start := budgetTailStart tailBudgetTokens messages.reverse messages.length 0
  pairTailStart messages start start

end Tail

structure CompactWorkerContextResult where
  messages : List WorkerContextMessage
  compacted : Bool := false
  stage : CompactionStage := .none_
  tokensBefore : ℤ
  tokensAfter : ℤ
  thresholdTokens : ℚ
  tokenEstimate : ContextTokenEstimate
  retainedTail : List WorkerContextMessage := []
  reason : Option CompactionReason := none
  summaryArtifactPath : Option String := none
  summaryError : Option (SummaryFailureKind × String) := none
  incomplete : Bool := false
  durabilityError : Bool := false

/-- What the stages hand on: the compacted messages and what is reported of the way to them. -/
structure CompactionDraft where
  messages : List WorkerContextMessage
  stage : CompactionStage := .microcompact
  retainedTail : List WorkerContextMessage := []
  summaryArtifactPath : Option String := none
  summaryError : Option (SummaryFailureKind × String) := none
  incomplete : Bool := false

section Compaction

variable (messages : List WorkerContextMessage) (options : CompactWorkerContextOptions)
  (attempt : CompactionAttempt)

def thresholdTokens : ℚ :=
  compactionThresholdTokens options.profile

def handoffMessage (archive : String) (tail : List WorkerContextMessage) :
    WorkerContextMessage where
  role := .user
  content := "INCOMPLETE DETERMINISTIC HANDOFF\nThe summarizer stalled. This is not a verified " ++
    "narrative of completed work.\nPreserve the pinned goal and structured carryover; verify " ++
    "current state before acting.\nExact prior context: " ++ archive
  retainedTail := some tail

def summaryMessage (summary : String) (artifact : Option String)
    (tail : List WorkerContextMessage) : WorkerContextMessage where
  role := .user
  content := String.intercalate "\n" <|
    ["<summary>", summary, "</summary>",
      (artifact.map fun path => "(full summary artifact: " ++ path ++ ")").getD ""].filter (· ≠ "")
  retainedTail := some tail

/-- The microcompacted messages as pinned ones, summarized ones and the verbatim tail. -/
structure SummarySplit where
  pinned : List WorkerContextMessage
  head : List WorkerContextMessage
  tail : List WorkerContextMessage

def microcompacted : List WorkerContextMessage :=
  microcompact messages (options.keepRecentToolResults.getD DEFAULT_KEEP_RECENT_TOOL_RESULTS)

def summarySplit : SummarySplit :=
  let compactedMessages := microcompacted messages options
  let flow := compactedMessages.filter fun message => !message.pinned
  let tailStart := pairSafeTailStart flow (summaryTailBudget (thresholdTokens options))
  { pinned := compactedMessages.filter (·.pinned)
    head := flow.take tailStart
    tail := flow.drop tailStart }

/-- The older messages give way to one message. -/
def SummarySplit.replaceHead (split : SummarySplit) (message : WorkerContextMessage) :
    List WorkerContextMessage :=
  split.pinned ++ message :: split.tail

/-- `deterministicHandoff`, when it succeeds. -/
def deterministicHandoff (draft : CompactionDraft) : Option CompactionDraft :=
  let split := summarySplit messages options
  if attempt.canCommit .handoff then
    attempt.archive.bind fun archive =>
      if attempt.canCommit .archived then
        some { draft with
          messages := split.replaceHead (handoffMessage archive split.tail)
          stage := .deterministicHandoff
          summaryArtifactPath := some archive
          incomplete := true }
      else none
  else none

/-- The summary stage over a head that is not empty; `none` leaves the context as it was. -/
def summaryStage (draft : CompactionDraft) : Option CompactionDraft :=
  let split := summarySplit messages options
  if options.forceDeterministicHandoff then
    some ((deterministicHandoff messages options attempt draft).getD { draft with
      summaryError := some
        (.error, "Deterministic handoff requires an available scoped archive") })
  else
    match attempt.summary with
    | .ok summary =>
        if attempt.canCommit .summarized then
          some { draft with
            messages := split.replaceHead (summaryMessage summary attempt.artifact split.tail)
            stage := .summary
            summaryArtifactPath := attempt.artifact }
        else none
    | .error failure =>
        if attempt.canCommit .failed then
          let draft := { draft with summaryError := some failure }
          if failure.1 = .timeout ∧ options.deterministicHandoffOnTimeout then
            some ((deterministicHandoff messages options attempt draft).getD draft)
          else some draft
        else none

/-- Both stages. -/
def compactionStages : Option CompactionDraft :=
  let draft : CompactionDraft := { messages := microcompacted messages options }
  if thresholdTokens options < contentTokens draft.messages ∧
      (options.summarize ∨ options.forceDeterministicHandoff) then
    let split := summarySplit messages options
    let draft := { draft with retainedTail := split.tail }
    if split.head = [] then some draft else summaryStage messages options attempt draft
  else some draft

/-- The carryover is pinned behind the compacted messages. -/
def addCarryover (compactedMessages : List WorkerContextMessage) : List WorkerContextMessage :=
  compactedMessages ++
    (options.carryover.map fun block =>
      { role := .user, content := block, pinned := true : WorkerContextMessage }).toList

def tokenEstimate : ContextTokenEstimate :=
  estimateContextTokenDetails messages options.lastProviderUsageTokens
    options.providerUsageMessageCount

def unchanged (reason : Option CompactionReason) : CompactWorkerContextResult where
  messages
  tokensBefore := (tokenEstimate messages options).tokens
  tokensAfter := (tokenEstimate messages options).tokens
  thresholdTokens := thresholdTokens options
  tokenEstimate := tokenEstimate messages options
  reason

/-- The end of an attempt with its draft. -/
def publish (reason : CompactionReason) (draft : CompactionDraft) : CompactWorkerContextResult :=
  let compactedMessages := addCarryover options draft.messages
  if options.durability = true ∧ attempt.canCommit .purged = false then
    unchanged messages options (some reason)
  else if options.durability = true ∧
      (attempt.snapshotRecorded && attempt.canCommit .snapshot) = false then
    { unchanged messages options (some reason) with
      durabilityError := attempt.canCommit .unrecorded }
  else if attempt.canCommit .ended then
    { messages := compactedMessages
      compacted := true
      stage := draft.stage
      tokensBefore := (tokenEstimate messages options).tokens
      tokensAfter := contentTokens compactedMessages
      thresholdTokens := thresholdTokens options
      tokenEstimate := tokenEstimate messages options
      retainedTail := draft.retainedTail
      reason := some reason
      summaryArtifactPath := draft.summaryArtifactPath
      summaryError := draft.summaryError
      incomplete := draft.incomplete }
  else unchanged messages options (some reason)

def compactWorkerContext : CompactWorkerContextResult :=
  let reason := options.reason.getD (if options.force then .manual else .threshold)
  if attempt.canCommit .entry = false then unchanged messages options (some reason)
  else if options.force = false ∧
      ((tokenEstimate messages options).tokens : ℚ) ≤ thresholdTokens options then
    unchanged messages options none
  else if attempt.canCommit .hooks = false then unchanged messages options (some reason)
  else
    match compactionStages messages options attempt with
    | none => unchanged messages options (some reason)
    | some draft =>
        if attempt.canCommit .staged then publish messages options attempt reason draft
        else unchanged messages options (some reason)

end Compaction

end Kyberion.Workforce
