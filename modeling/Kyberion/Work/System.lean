import Kyberion.Transition
import Kyberion.Work.Continuation

/-!
The coordination store as a system: any callers run the operations one after
another, under a clock that does not go back.
-/

namespace Kyberion.Work

inductive Operation
  | create (input : CreateWorkItemInput)
  | update (input : UpdateWorkItemInput)
  | claim (input : ClaimWorkItemInput)
  | release (input : ReleaseWorkItemInput)
  | quarantine (input : QuarantineInput)
  | effectRelease (input : EffectReleaseInput)
  | renew (input : RenewWorkItemLeaseInput)
  | expire (now : Option ℤ)
  | reap (options : ReapWorkLeasesOptions)
  | handoff (input : HandoffWorkItemInput)
  | createIfAbsent (input : CreateWorkItemInput)
  | importExternal (input : ImportExternalWorkItemInput)
  | continuePipeline (evidence : PipelineEvidence) (action : ContinuationAction)
      (input : ResumeSuspendedPipelineWorkItemInput)

def Operation.call (env : Env) : Operation → WorkCall Unit
  | .create input => (createWorkItem env input).void
  | .update input => (updateWorkItem env input).void
  | .claim input => (claimWorkItem env input).void
  | .release input => (releaseWorkItem env input).void
  | .quarantine input => (quarantineWorkItemExecution env input).void
  | .effectRelease input => (releaseWorkItemEffectOwnership env input).void
  | .renew input => (renewWorkItemLease env input).void
  | .expire now => (expireWorkItemLeases (now.getD env.now)).void
  | .reap options => reapExpiredWorkLeases env options
  | .handoff input => (handoffWorkItem env input).void
  | .createIfAbsent input => (createWorkItemIfAbsent env input).void
  | .importExternal input => (importExternalWorkItem env input).void
  | .continuePipeline evidence action input =>
      (continueSuspendedPipelineWorkItem env evidence action input).void

/-- The store and the latest reading of the clock. -/
structure CoordState where
  store : Store
  clock : ℤ

structure Action where
  env : Env
  operation : Operation

/-- Operations one after another, under a clock that does not go back. -/
def coordination : Transition.System CoordState Action where
  init s := s.store = .empty
  step s a :=
    if s.clock ≤ a.env.now then some ⟨((a.operation.call a.env).run s.store).1, a.env.now⟩ else none

end Kyberion.Work
