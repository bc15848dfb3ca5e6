import Kyberion.Transition
import Kyberion.Call
import Kyberion.Directory
import Kyberion.Latest
import Kyberion.Mesh.Delivery
import Kyberion.Mesh.Broker
import Kyberion.Mesh.Finality
import Kyberion.Mesh.Idempotence
import Kyberion.Mesh.PeerTask
import Kyberion.Mesh.PeerOutcome
import Kyberion.HashChain
import Kyberion.Grammar
import Kyberion.Js.Record
import Kyberion.Js.Text
import Kyberion.Js.Throw
import Kyberion.Js.Json
import Kyberion.Js.JsonText
import Kyberion.Js.Fields
import Kyberion.Mission.EventScope
import Kyberion.Mission.Journal
import Kyberion.Mesh.PeerServer
import Kyberion.Mesh.PeerAdmission
import Kyberion.Mission.Reducible
import Kyberion.Workforce.StateJournal
import Kyberion.Workforce.JournalRun
import Kyberion.Workforce.SequenceNumbers
import Kyberion.Workforce.Lineage
import Kyberion.Workforce.Replayable
import Kyberion.Pipeline.Step
import Kyberion.Pipeline.Engine
import Kyberion.Pipeline.SecurityBlock
import Kyberion.Mission.Lease
import Kyberion.Mission.LeaseSafety
import Kyberion.Lock.Reclaim
import Kyberion.Lock.Promise
import Kyberion.Lock.Exclusion
import Kyberion.Store.Filter
import Kyberion.Store.Rewrite
import Kyberion.Store.Conservation
import Kyberion.Store.Reader
import Kyberion.Store.Coverage
import Kyberion.Store.Traversal
import Kyberion.Audit.Entry
import Kyberion.Audit.Payload
import Kyberion.Audit.Verify
import Kyberion.Audit.Record
import Kyberion.Audit.Prefix
import Kyberion.Audit.Append
import Kyberion.Audit.Accepted
import Kyberion.Audit.RoundTrip
import Kyberion.Approval.Record
import Kyberion.Approval.SeparationOfDuties
import Kyberion.Approval.Use
import Kyberion.Approval.OneUse
import Kyberion.Approval.Assurance
import Kyberion.Approval.Decide
import Kyberion.Approval.Workflow
import Kyberion.Approval.VetoWindow
import Kyberion.Approval.VetoSafety
import Kyberion.Approval.PasskeyChallenge
import Kyberion.Approval.PasskeyOnce
import Kyberion.Grant.Record
import Kyberion.Grant.Standing
import Kyberion.Grant.Forgery
import Kyberion.Work.Item
import Kyberion.Work.Target
import Kyberion.Work.Effect
import Kyberion.Work.Coordination
import Kyberion.Work.Continuation
import Kyberion.Work.System
import Kyberion.Work.Agreement
import Kyberion.Work.Exclusivity
import Kyberion.Work.Writes
import Kyberion.Work.Versions
import Kyberion.Work.Ownership
import Kyberion.Work.Targets
import Kyberion.Work.Settlement
import Kyberion.Js.Number
import Kyberion.Decision.Record
import Kyberion.Decision.Ledger
import Kyberion.Decision.Integrity
import Kyberion.Tool.Claims
import Kyberion.Graph.Scheduler
import Kyberion.Graph.Dispatch
import Kyberion.Graph.DispatchSafety
import Kyberion.Graph.Suspension
import Kyberion.Dataflow
import Kyberion.Graph.MergeOrder
import Kyberion.Reorder
import Kyberion.Tool.Batch
import Kyberion.Tool.BatchOrder
import Kyberion.Tool.Serialisable
import Kyberion.Keyed
import Kyberion.Pipeline.Schedule
import Kyberion.Pipeline.ScheduleRun
import Kyberion.Pipeline.ScheduleClaims
import Kyberion.Pipeline.RunJournal
import Kyberion.Pipeline.RunJournalOrder
import Kyberion.Delegation.ChildRegistry
import Kyberion.Delegation.Tracking
import Kyberion.Workforce.WorkspaceLedger
import Kyberion.Workforce.Reclaim
import Kyberion.Mission.ReplayPlan
import Kyberion.Mission.ReplayExact
import Kyberion.Js.JsonParse
import Kyberion.Js.JsonRead
import Kyberion.FirstMatch
import Kyberion.Delegation.Chain
import Kyberion.Delegation.ChainContext
import Kyberion.Cascade
import Kyberion.Governance.ExternalOperation
import Kyberion.Governance.Charter
import Kyberion.Governance.Evaluate
import Kyberion.Governance.Narrowing
import Kyberion.Work.HandoffAtomic
import Kyberion.Work.Attempts
import Kyberion.Work.Attended
import Kyberion.Work.Coherence
import Kyberion.Tool.ClaimCoverage
import Kyberion.Dot.RecoveredTerminal
import Kyberion.Foundation.ClientAddress
import Kyberion.Visit
import Kyberion.Graph.Acceptance
import Kyberion.Workforce.Goal
import Kyberion.Workforce.GoalDriver
import Kyberion.Workforce.GoalSteps
import Kyberion.Workforce.GoalBudget
import Kyberion.Workforce.GoalAudit
import Kyberion.Workforce.GoalBlocker
import Kyberion.Workforce.SummaryIndex
import Kyberion.Workforce.CompactionKept
import Kyberion.Tool.OutcomeCycle
import Kyberion.Governance.RateLimit
import Kyberion.Mesh.Attempts
import Kyberion.Work.TargetOverlap
import Kyberion.Pipeline.Cron
import Kyberion.Dot.Observation
import Kyberion.Segments
import Kyberion.Jsonl.Scan
import Kyberion.Jsonl.Mirror
import Kyberion.Jsonl.Since
import Kyberion.Js.JsonNesting
import Kyberion.Pipeline.DirtyJson
import Kyberion.Pipeline.DirtyJsonBlock
import Kyberion.Store.CopyPasses
import Kyberion.Store.KeyFold
import Kyberion.Js.RegExp
import Kyberion.Pipeline.TemplateTokens
import Kyberion.Foundation.FixedWindowBound
import Kyberion.Js.Uri
import Kyberion.Lock.LockNames
import Kyberion.Pipeline.StepBound
import Kyberion.Pipeline.StepHooks
import Kyberion.Guard.Path
import Kyberion.Guard.Policy
import Kyberion.Guard.Decision
import Kyberion.Guard.TenantIsolation
import Kyberion.Guard.DenyRead
import Kyberion.Mission.Provisioned
import Kyberion.Mission.CrashConsistent
import Kyberion.Governance.Ledger
import Kyberion.Governance.Payment
import Kyberion.Governance.PaymentOnce
import Kyberion.Delegation.Idempotency
import Kyberion.Delegation.AtMostOnce
import Kyberion.Lock.WriterLease
import Kyberion.Lock.WriterFence
import Kyberion.Delegation.Attenuation
import Kyberion.Delegation.Hops
import Kyberion.Trace
import Kyberion.Census
import Kyberion.FifoSemaphore
import Kyberion.Delegation.Slots
import Kyberion.Delegation.SlotsFair
import Kyberion.Generation.Quota
import Kyberion.Generation.QuotaKept
import Kyberion.Retention
import Kyberion.Trigger.Authority
import Kyberion.Trigger.Journal
import Kyberion.Trigger.Runner
import Kyberion.Trigger.Deliveries
import Kyberion.Trigger.DedupeWindow
import Kyberion.Media.AudioQueue
