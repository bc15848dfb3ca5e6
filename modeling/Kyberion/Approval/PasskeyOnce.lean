import Kyberion.Approval.PasskeyChallenge

/-!
A challenge settles at most one decision. Two copies of it exist only while the
system tree still has the request, and as long as it does no call goes to the
other copy; so one copy is the current one, and it carries the marks of all the
calls that wrote.
-/

namespace Kyberion.Approval

variable (host : PasskeyHost) (names : PasskeyNames)

/-- What a challenge is bound to for good. -/
def ApprovalPasskeyChallengeRecord.bound (record : ApprovalPasskeyChallengeRecord) :
    String × String × ApprovalDecision × String × ℤ :=
  (record.requestId, record.memberId, record.decision, record.presentedDigest, record.expiresAt)

/-- The decision that consumed the challenge is the one that it was issued for. -/
structure ConsumedFor (params : ChallengeConsumption) (record : ApprovalPasskeyChallengeRecord) : Prop where
  request : params.requestId = record.requestId
  member : params.decidedBy = "user:" ++ record.memberId
  decision : params.decision = record.decision
  digest : params.presentedDigest = some record.presentedDigest
  inTime : params.now < record.expiresAt

section Calls

variable {host} {before after claimed : ApprovalPasskeyChallengeRecord}
  {file : Option ApprovalPasskeyChallengeRecord}

theorem readChallenge_eq {challengeId : String} (h : readChallenge host file challengeId = .ok after) :
    file = some after := by
  cases file with
  | none => cases h
  | some record =>
      simp only [readChallenge, Js.throwIf_eq_ok, Except.ok.injEq] at h
      rw [h.2.2]

theorem assertExpectation_ok {expected : ChallengeExpectation}
    (h : assertExpectation host before expected = .ok ()) :
    before.requestId = expected.requestId ∧ before.memberId = expected.memberId ∧
      before.decision = expected.decision ∧ expected.now < before.expiresAt := by
  simp only [assertExpectation, Js.throwIf_eq_ok, not_not, and_true] at h
  exact ⟨h.1, h.2.1, h.2.2.1, Int.not_le.mp h.2.2.2⟩

theorem claim_eq {expected : ChallengeExpectation} {claimedAt : ℤ}
    (h : claimApprovalPasskeyChallenge host expected claimedAt file = .ok after) :
    ∃ before, file = some before ∧ before.claimedAt = none ∧
      before.requestId = expected.requestId ∧
        after = { before with claimedAt := some claimedAt } := by
  obtain ⟨before, hread, hrest⟩ := Js.except_bind_ok h
  cases hclaimed : before.claimedAt with
  | some at_ => simp [hclaimed] at hrest
  | none =>
      rw [hclaimed] at hrest
      obtain ⟨_, hexpected, hafter⟩ := Js.except_bind_ok hrest
      exact ⟨before, readChallenge_eq hread, hclaimed, (assertExpectation_ok hexpected).1,
        (Except.ok.inj hafter).symm⟩

theorem verify_eq {credentialId : String} {now : ℤ}
    (h : markApprovalPasskeyChallengeVerified host claimed credentialId now file = .ok after) :
    ∃ before, file = some before ∧ before.claimedAt.isSome ∧ before.verifiedAt = none ∧
      after = { before with verifiedAt := some now, credentialId := some credentialId } := by
  obtain ⟨before, hread, hrest⟩ := Js.except_bind_ok h
  obtain ⟨hchecks, hafter⟩ := Js.throwIf_eq_ok.mp hrest
  rw [not_or, not_or, Bool.not_eq_true, Option.isSome_eq_false_iff,
    Option.isNone_iff_eq_none] at hchecks
  exact ⟨before, readChallenge_eq hread, Option.isSome_iff_ne_none.mpr hchecks.1, hchecks.2.2,
    (Except.ok.inj hafter).symm⟩

theorem decidingMember_eq {decidedBy memberId : String}
    (h : decidingMember decidedBy = some memberId) : decidedBy = "user:" ++ memberId := by
  obtain ⟨hsplit, hmember⟩ := Option.ite_none_right_eq_some.mp h
  obtain rfl := Option.some.inj hmember
  obtain ⟨rest, hrest⟩ := List.isPrefixOf_iff_prefix.mp hsplit
  apply String.toList_inj.mp
  rw [String.toList_append, ← hrest]
  simp

theorem consume_eq {params : ChallengeConsumption} {consumedAt : ℤ}
    (h : consumeApprovalPasskeyChallenge host params consumedAt file = .ok after) :
    ∃ before, file = some before ∧ before.verifiedAt.isSome ∧ before.consumedAt = none ∧
      ConsumedFor params before ∧ after = { before with consumedAt := some consumedAt } := by
  unfold consumeApprovalPasskeyChallenge at h
  split at h
  · cases h
  · cases h
  · rename_i challengeId memberId hid hmember
    obtain ⟨before, hread, hrest⟩ := Js.except_bind_ok h
    obtain ⟨_, hexpected, hmarks⟩ := Js.except_bind_ok hrest
    obtain ⟨hrequest, hmemberId, hdecision, hnow⟩ := assertExpectation_ok hexpected
    split at hmarks
    · cases hmarks
    · cases hmarks
    · rename_i verifiedAt hverified hconsumed
      obtain ⟨hdigest, hafter⟩ := Js.throwIf_eq_ok.mp hmarks
      refine ⟨before, readChallenge_eq hread, by rw [hverified]; rfl, hconsumed, ?_,
        (Except.ok.inj hafter).symm⟩
      exact
        { request := hrequest.symm
          member := by rw [decidingMember_eq hmember, hmemberId]
          decision := hdecision.symm
          digest := (not_not.mp hdigest).symm
          inTime := hnow }

theorem issue_unmarked {challengeId : String} {params : IssueParams}
    (h : issueApprovalPasskeyChallenge host challengeId params = .ok after) :
    after.requestId = params.record.id ∧ after.claimedAt = none ∧ after.verifiedAt = none ∧
      after.consumedAt = none := by
  obtain ⟨-, h⟩ := Js.throwIf_eq_ok.mp h
  obtain ⟨-, h⟩ := Js.throwIf_eq_ok.mp h
  dsimp only at h
  split at h
  · cases h
  · obtain rfl := Except.ok.inj h
    exact ⟨rfl, rfl, rfl, rfl⟩

end Calls

/-- The copy that calls go to: the one in the system tree as long as there is one. -/
def PasskeyState.current (s : PasskeyState) : Option ApprovalPasskeyChallengeRecord :=
  (s.challenges .system).or (s.challenges names.target)

/-- The copy carries the marks of so many calls that wrote. -/
structure Marked (claims verifies consumes : ℕ) (record : ApprovalPasskeyChallengeRecord) :
    Prop where
  claims : claims = record.claimedAt.toList.length
  verifies : verifies = record.verifiedAt.toList.length
  consumes : consumes = record.consumedAt.toList.length
  claimedFirst : record.verifiedAt.isSome → record.claimedAt.isSome
  verifiedFirst : record.consumedAt.isSome → record.verifiedAt.isSome

/-- An issue writes an unmarked challenge for the request. -/
def IssueInv : IssuePhase → Prop
  | .unissued | .issued _ => True
  | .sawSystem _ record _ =>
      record.requestId = names.requestId ∧ record.claimedAt = none ∧ record.verifiedAt = none ∧
        record.consumedAt = none
  | .located location record =>
      (record.requestId = names.requestId ∧ record.claimedAt = none ∧ record.verifiedAt = none ∧
        record.consumedAt = none) ∧ (location = .system ∨ location = names.target)

/-- A call goes to the system tree, or the system tree no longer has the request. -/
def Apart (s : PasskeyState) (location : ApprovalPartition) : Prop :=
  location = .system ∨ location = names.target ∧ s.requests .system = none

def HolderInv (s : PasskeyState) : Holder → Prop
  | .entered call =>
      ∀ caller claimed id now, call = .verify caller claimed id now →
        claimed.requestId = names.requestId
  | .sawSystem call found =>
      call.requestId = names.requestId ∧ (found = false → s.requests .system = none ∨
        systemRecordVisibleToThisProcess call.caller.toViewer names.scope = false)
  | .located call location =>
      (∀ caller claimed id now, call = .verify caller claimed id now →
        claimed.requestId = names.requestId) ∧
      (call.requestId = names.requestId → Apart names s location)
  | .writing call location record =>
      Apart names s location ∧
        ∃ before, s.challenges location = some before ∧
          call.update host (some before) = .ok record
  | .moving phase =>
      s.migration = some .move ∧
        match phase with
        | .read => True
        | .copy record => s.challenges .system = some record ∧ s.challenges names.target = none
        | .drop => s.challenges .system = s.challenges names.target ∧
            (s.challenges names.target).isSome

/-- Both places have a copy of the challenge. -/
def Twice (s : PasskeyState) : Prop :=
  names.target ≠ .system ∧ (s.challenges .system).isSome ∧ (s.challenges names.target).isSome

def MigrationInv (s : PasskeyState) (phase : MigrationPhase) : Prop :=
  names.scope.tenant.isSome ∧ (s.requests .system).isSome ∧
    (phase = .removeRequest → ¬ Twice names s)

structure PasskeyInv (s : PasskeyState) : Prop where
  requests : ∀ q, (s.requests q).isSome → q = .system ∨ q = names.target
  alone : names.scope.tenant = none → names.target ≠ .system →
    (s.requests names.target).isSome → s.requests .system = none
  issue : IssueInv names s.issue
  copies : ∀ q record, s.challenges q = some record →
    (q = .system ∨ q = names.target) ∧ record.requestId = names.requestId ∧
      ∃ first, s.issue = .issued first ∧ record.bound = first.bound
  twice : Twice names s → (s.requests .system).isSome
  marks : ∀ record, s.current names = some record →
    Marked s.claims.length s.verifies.length s.consumes.length record
  unmarked : s.current names = none → s.claims = [] ∧ s.verifies = [] ∧ s.consumes = []
  claimed : ∀ record ∈ s.claims, record.requestId = names.requestId
  consumed : ∀ params ∈ s.consumes, ∃ first, s.issue = .issued first ∧ ConsumedFor params first
  holder : ∀ h, s.holder = some h → HolderInv host names s h
  migration : ∀ phase, s.migration = some phase → MigrationInv names s phase

section Locations

variable {host names} {s : PasskeyState} {viewer : Viewer}

/-- Who finds the copy at the target may see the one in the system tree. -/
theorem visible_of_listed {tenant : String} (hscope : names.scope.tenant = some tenant)
    (h : names.target ∈ (listApprovalPartitions viewer).map ApprovalPartition.private_) :
    systemRecordVisibleToThisProcess viewer names.scope = true := by
  obtain ⟨partition, hmem, hpartition⟩ := List.mem_map.mp h
  unfold PasskeyNames.target approvalPartitionForScope at hpartition
  rw [hscope] at hpartition
  obtain rfl := ApprovalPartition.private_.inj hpartition
  simp only [systemRecordVisibleToThisProcess, hscope, mayBindApprovalTenant]
  unfold listApprovalPartitions at hmem
  cases hviewer : viewer.tenant with
  | none => rfl
  | some active =>
      rw [hviewer] at hmem
      rcases List.mem_append.mp hmem with howner | htenant
      · cases howner' : viewer.owner with
        | none => simp [howner'] at howner
        | some owner => simp [howner'] at howner
      · simp only [List.mem_cons, List.not_mem_nil, or_false,
          PrivateApprovalPartition.tenant.injEq] at htenant
        rw [Option.all_some, decide_eq_true_eq]
        rcases htenant with ⟨-, rfl⟩ | ⟨-, rfl⟩ <;> rfl

theorem locate_apart (h : PasskeyInv host names s) {found : Bool}
    {location : Option ApprovalPartition}
    (hfound : found = false → s.requests .system = none ∨
      systemRecordVisibleToThisProcess viewer names.scope = false)
    (hlocate : s.locate names viewer found = .ok location) :
    Apart names s (location.getD .system) := by
  unfold PasskeyState.locate locateApprovalRequest at hlocate
  split at hlocate
  · obtain rfl := Except.ok.inj hlocate
    exact .inl rfl
  · rename_i partition hone
    obtain rfl := Except.ok.inj hlocate
    cases found with
    | true =>
        obtain ⟨rfl, -⟩ := List.cons.inj hone
        exact .inl rfl
    | false =>
        have hmem : partition ∈ (if false = true then [ApprovalPartition.system] else []) ++
            ((listApprovalPartitions viewer).map ApprovalPartition.private_).filter
              fun q => (s.requests q).isSome := by
          rw [hone]
          exact List.mem_singleton_self partition
        obtain ⟨hlisted, hsome⟩ := List.mem_filter.mp hmem
        rcases h.requests partition hsome with rfl | rfl
        · exact .inl rfl
        · refine .inr ⟨rfl, ?_⟩
          have hprivate : names.target ≠ .system := by
            obtain ⟨q, -, hq⟩ := List.mem_map.mp hlisted
            rw [← hq]
            nofun
          cases hscope : names.scope.tenant with
          | none => exact h.alone hscope hprivate hsome
          | some tenant =>
              rcases hfound rfl with habsent | hhidden
              · exact habsent
              · cases (visible_of_listed hscope hlisted).symm.trans hhidden
  · cases hlocate

theorem locate_some (h : PasskeyInv host names s) {found : Bool} {location : ApprovalPartition}
    (hlocate : s.locate names viewer found = .ok (some location)) :
    location = .system ∨ location = names.target := by
  unfold PasskeyState.locate locateApprovalRequest at hlocate
  split at hlocate
  · cases hlocate
  · rename_i partition hone
    obtain rfl := Option.some.inj (Except.ok.inj hlocate)
    have hmem : partition ∈ (if found then [ApprovalPartition.system] else []) ++
        ((listApprovalPartitions viewer).map ApprovalPartition.private_).filter
          fun q => (s.requests q).isSome := by
      rw [hone]
      exact List.mem_singleton_self partition
    rcases List.mem_append.mp hmem with hsystem | hlisted
    · split at hsystem
      · exact .inl (List.mem_singleton.mp hsystem)
      · cases hsystem
    · exact h.requests partition (List.mem_filter.mp hlisted).2
  · cases hlocate

end Locations

section Steps

variable {host names} {s t : PasskeyState} {call : ChallengeCall} {location : ApprovalPartition}
  {before after : ApprovalPasskeyChallengeRecord}

theorem target_ne_system (h : names.scope.tenant.isSome) : names.target ≠ .system := by
  obtain ⟨tenant, htenant⟩ := Option.isSome_iff_exists.mp h
  unfold PasskeyNames.target approvalPartitionForScope
  rw [htenant]
  nofun

theorem current_of_apart (h : PasskeyInv host names s) (hapart : Apart names s location)
    (hfile : s.challenges location = some before) : s.current names = some before := by
  unfold PasskeyState.current
  rcases hapart with rfl | ⟨rfl, habsent⟩
  · rw [hfile, Option.some_or]
  · by_cases hsystem : names.target = .system
    · rw [hsystem] at hfile ⊢
      rw [hfile, Option.some_or]
    · cases hcopy : s.challenges .system with
      | none => rw [Option.none_or, hfile]
      | some copy =>
          have hstill := h.twice ⟨hsystem, by rw [hcopy]; rfl, by rw [hfile]; rfl⟩
          rw [habsent] at hstill
          cases hstill

/-- A step that moves only the locks along. -/
theorem PasskeyInv.relock (h : PasskeyInv host names s) {holder : Option Holder}
    {migration : Option MigrationPhase}
    (hholder : ∀ k, holder = some k →
      HolderInv host names { s with holder := holder, migration := migration } k)
    (hmigration : ∀ phase, migration = some phase → MigrationInv names s phase) :
    PasskeyInv host names { s with holder := holder, migration := migration } where
  requests := h.requests
  alone := h.alone
  issue := h.issue
  copies := h.copies
  twice := h.twice
  marks := h.marks
  unmarked := h.unmarked
  claimed := h.claimed
  consumed := h.consumed
  holder := hholder
  migration := hmigration

theorem isSome_update (hfile : s.challenges location = some before) (q : ApprovalPartition) :
    (Function.update s.challenges location (some after) q).isSome = (s.challenges q).isSome := by
  by_cases hq : q = location
  · rw [hq, Function.update_self, hfile]
    rfl
  · rw [Function.update_of_ne hq]

/-- A call that writes over the copy that it has read. -/
theorem PasskeyInv.overwrite (h : PasskeyInv host names s) (hapart : Apart names s location)
    (hfile : s.challenges location = some before) (hrequests : t.requests = s.requests)
    (hchallenges : t.challenges = Function.update s.challenges location (some after))
    (hbound : after.bound = before.bound)
    (hissue : t.issue = s.issue) (hholder : t.holder = none)
    (hmigration : t.migration = s.migration)
    (hmarks : Marked t.claims.length t.verifies.length t.consumes.length after)
    (hclaimed : ∀ record ∈ t.claims, record ∈ s.claims ∨ record = after)
    (hconsumed : ∀ params ∈ t.consumes, params ∈ s.consumes ∨ ConsumedFor params before) :
    PasskeyInv host names t := by
  obtain ⟨hwhere, hrequest, first, hfirst, hsame⟩ := h.copies location before hfile
  have hafter : after.requestId = names.requestId := (congrArg Prod.fst hbound).trans hrequest
  have htwice : Twice names t ↔ Twice names s := by
    unfold Twice
    rw [hchallenges, isSome_update hfile, isSome_update hfile]
  have hcurrent : t.current names = some after := by
    unfold PasskeyState.current
    rw [hchallenges]
    rcases hapart with rfl | ⟨rfl, habsent⟩
    · rw [Function.update_self, Option.some_or]
    · by_cases hsystem : names.target = .system
      · rw [← hsystem, Function.update_self, Option.some_or]
      · rw [Function.update_self, Function.update_of_ne (Ne.symm hsystem)]
        cases hcopy : s.challenges .system with
        | none => rfl
        | some copy =>
            have hstill := h.twice ⟨hsystem, by rw [hcopy]; rfl, by rw [hfile]; rfl⟩
            rw [habsent] at hstill
            cases hstill
  constructor
  case requests => exact hrequests ▸ h.requests
  case alone => exact hrequests ▸ h.alone
  case issue => exact hissue ▸ h.issue
  case copies =>
    intro q record hq
    rw [hchallenges] at hq
    rw [hissue]
    by_cases heq : q = location
    · rw [heq, Function.update_self] at hq
      obtain rfl := Option.some.inj hq
      exact ⟨heq ▸ hwhere, hafter, first, hfirst, hbound.trans hsame⟩
    · rw [Function.update_of_ne heq] at hq
      exact h.copies q record hq
  case twice =>
    intro htw
    rw [hrequests]
    exact h.twice (htwice.mp htw)
  case marks =>
    intro record hrecord
    obtain rfl := Option.some.inj (hcurrent.symm.trans hrecord)
    exact hmarks
  case unmarked =>
    intro hnone
    cases hcurrent.symm.trans hnone
  case claimed =>
    intro record hrecord
    rcases hclaimed record hrecord with hbefore | rfl
    · exact h.claimed record hbefore
    · exact hafter
  case consumed =>
    intro params hparams
    rw [hissue]
    rcases hconsumed params hparams with hbefore | hfor
    · exact h.consumed params hbefore
    · refine ⟨first, hfirst, ?_⟩
      simp only [ApprovalPasskeyChallengeRecord.bound, Prod.mk.injEq] at hsame
      obtain ⟨hid, hmember, hdecision, hdigest, hexpires⟩ := hsame
      exact ⟨hid ▸ hfor.request, hmember ▸ hfor.member, hdecision ▸ hfor.decision,
        hdigest ▸ hfor.digest, hexpires ▸ hfor.inTime⟩
  case holder =>
    intro k hk
    cases hholder.symm.trans hk
  case migration =>
    intro phase hphase
    rw [hmigration] at hphase
    obtain ⟨htenant, hstill, hdone⟩ := h.migration phase hphase
    exact ⟨htenant, hrequests ▸ hstill, fun hremove htw => hdone hremove (htwice.mp htw)⟩

theorem written_inv (h : PasskeyInv host names s) (hapart : Apart names s location)
    (hfile : s.challenges location = some before)
    (hupdate : call.update host (some before) = .ok after) :
    PasskeyInv host names (s.written call location after) := by
  have hmarked := h.marks before (current_of_apart h hapart hfile)
  cases call with
  | claim caller expected claimedAt =>
      obtain ⟨_, hread, hclaimed, -, rfl⟩ := claim_eq hupdate
      obtain rfl := Option.some.inj hread
      refine h.overwrite hapart hfile rfl rfl rfl rfl rfl rfl ?_ ?_ fun params hparams => .inl hparams
      · have hclaims := hmarked.claims
        rw [hclaimed, Option.toList_none, List.length_nil] at hclaims
        refine ⟨?_, hmarked.verifies, hmarked.consumes, fun _ => rfl, hmarked.verifiedFirst⟩
        simp [PasskeyState.written, PasskeyState.writeChallenge, hclaims]
      · intro record hrecord
        exact (List.mem_cons.mp hrecord).symm
  | verify caller claimed credentialId now =>
      obtain ⟨_, hread, hclaimed, hverified, rfl⟩ := verify_eq hupdate
      obtain rfl := Option.some.inj hread
      refine h.overwrite hapart hfile rfl rfl rfl rfl rfl rfl ?_ (fun record hrecord => .inl hrecord)
        fun params hparams => .inl hparams
      have hverifies := hmarked.verifies
      rw [hverified, Option.toList_none, List.length_nil] at hverifies
      refine ⟨hmarked.claims, ?_, hmarked.consumes, fun _ => hclaimed, fun _ => rfl⟩
      simp [PasskeyState.written, PasskeyState.writeChallenge, hverifies]
  | consume caller params consumedAt =>
      obtain ⟨_, hread, hverified, hconsumed, hfor, rfl⟩ := consume_eq hupdate
      obtain rfl := Option.some.inj hread
      refine h.overwrite hapart hfile rfl rfl rfl rfl rfl rfl ?_ (fun record hrecord => .inl hrecord) ?_
      · have hconsumes := hmarked.consumes
        rw [hconsumed, Option.toList_none, List.length_nil] at hconsumes
        refine ⟨hmarked.claims, hmarked.verifies, ?_, hmarked.claimedFirst, fun _ => hverified⟩
        simp [PasskeyState.written, PasskeyState.writeChallenge, hconsumes]
      · intro params' hparams
        rcases List.mem_cons.mp hparams with rfl | hbefore
        · exact .inr hfor
        · exact .inl hbefore

/-- Only the request that the challenge is for passes the checks of a call. -/
theorem requestId_of_update (h : PasskeyInv host names s)
    (hverify : ∀ caller claimed id now, call = .verify caller claimed id now →
      claimed.requestId = names.requestId)
    (hfile : s.challenges location = some before)
    (hupdate : call.update host (some before) = .ok after) : call.requestId = names.requestId := by
  have hrequest := (h.copies location before hfile).2.1
  cases call with
  | claim caller expected claimedAt =>
      obtain ⟨_, hread, -, hexpected, -⟩ := claim_eq hupdate
      obtain rfl := Option.some.inj hread
      exact hexpected.symm.trans hrequest
  | verify caller claimed credentialId now => exact hverify _ _ _ _ rfl
  | consume caller params consumedAt =>
      obtain ⟨_, hread, -, -, hfor, -⟩ := consume_eq hupdate
      obtain rfl := Option.some.inj hread
      exact hfor.request.trans hrequest

theorem nextHolder_inv (h : PasskeyInv host names s) {k next : Holder}
    (hk : HolderInv host names s k) (hnext : nextHolder host names s k = some next) :
    HolderInv host names s next := by
  cases k with
  | entered call =>
      simp only [nextHolder] at hnext
      split at hnext
      · rename_i hrequest
        obtain rfl := Option.some.inj hnext
        refine ⟨hrequest, fun hfound => ?_⟩
        unfold PasskeyState.systemFound at hfound
        cases hsystem : s.requests .system with
        | none => exact .inl rfl
        | some content =>
            rw [hsystem, Option.isSome_some, Bool.true_and] at hfound
            exact .inr hfound
      · rename_i hother
        obtain rfl := Option.some.inj hnext
        exact ⟨hk, fun hrequest => absurd hrequest hother⟩
  | sawSystem call found =>
      simp only [nextHolder] at hnext
      split at hnext
      · cases hnext
      · rename_i location hlocate
        obtain rfl := Option.some.inj hnext
        refine ⟨fun caller claimed id now hcall => ?_, fun _ => locate_apart h hk.2 hlocate⟩
        exact (congrArg ChallengeCall.requestId hcall).symm.trans hk.1
  | located call location =>
      simp only [nextHolder] at hnext
      split at hnext
      · cases hnext
      · rename_i record hupdate
        obtain rfl := Option.some.inj hnext
        cases hfile : s.challenges location with
        | none =>
            rw [hfile] at hupdate
            cases call with
            | claim caller expected claimedAt => cases (claim_eq hupdate).choose_spec.1
            | verify caller claimed credentialId now => cases (verify_eq hupdate).choose_spec.1
            | consume caller params consumedAt => cases (consume_eq hupdate).choose_spec.1
        | some before =>
            rw [hfile] at hupdate
            exact ⟨hk.2 (requestId_of_update h hk.1 hfile hupdate), before, hfile, hupdate⟩
  | writing call location record => cases hnext
  | moving phase => cases hnext

theorem callStep_inv (h : PasskeyInv host names s) {k : Holder} (hholder : s.holder = some k)
    (hstep : callStep host names s k = some t) : PasskeyInv host names t := by
  have hk := h.holder k hholder
  have hread : t = { s with holder := nextHolder host names s k } → PasskeyInv host names t := by
    rintro rfl
    exact h.relock (fun next hnext => nextHolder_inv h hk hnext) h.migration
  cases k with
  | writing call location record =>
      obtain rfl := Option.some.inj hstep
      obtain ⟨hapart, before, hfile, hupdate⟩ := hk
      exact written_inv h hapart hfile hupdate
  | moving phase => cases hstep
  | entered call => exact hread (Option.some.inj hstep).symm
  | sawSystem call found => exact hread (Option.some.inj hstep).symm
  | located call location => exact hread (Option.some.inj hstep).symm

/-- A copy that an issue writes is the only one. -/
theorem write_issue_inv (h : PasskeyInv host names s)
    (hissue : s.issue = .located location after) :
    PasskeyInv host names { s.writeChallenge location after with issue := .issued after } := by
  have hnone : ∀ q, s.challenges q = none := by
    intro q
    cases hq : s.challenges q with
    | none => rfl
    | some record =>
        obtain ⟨-, -, first, hfirst, -⟩ := h.copies q record hq
        cases hissue.symm.trans hfirst
  have hinv := h.issue
  rw [hissue] at hinv
  obtain ⟨hafter, hwhere⟩ := hinv
  obtain ⟨hclaims, hverifies, hconsumes⟩ := h.unmarked (by
    unfold PasskeyState.current
    rw [hnone, hnone, Option.none_or])
  have hcopy : ∀ q record, Function.update s.challenges location (some after) q = some record →
      q = location ∧ record = after := by
    intro q record hq
    by_cases heq : q = location
    · rw [heq, Function.update_self] at hq
      exact ⟨heq, (Option.some.inj hq).symm⟩
    · rw [Function.update_of_ne heq, hnone] at hq
      cases hq
  have hnotTwice : ¬ Twice names { s.writeChallenge location after with issue := .issued after } := by
    rintro ⟨hne, hsystem, htarget⟩
    obtain ⟨record, hrecord⟩ := Option.isSome_iff_exists.mp hsystem
    obtain ⟨record', hrecord'⟩ := Option.isSome_iff_exists.mp htarget
    exact hne ((hcopy _ _ hrecord').1.trans (hcopy _ _ hrecord).1.symm)
  constructor
  case requests => exact h.requests
  case alone => exact h.alone
  case issue => trivial
  case copies =>
    intro q record hq
    obtain ⟨rfl, rfl⟩ := hcopy q record hq
    exact ⟨hwhere, hafter.1, record, rfl, rfl⟩
  case twice => exact fun htwice => absurd htwice hnotTwice
  case marks =>
    intro record hrecord
    have heq : record = after := by
      rcases Option.or_eq_some_iff.mp hrecord with hq | ⟨-, hq⟩
      · exact (hcopy _ _ hq).2
      · exact (hcopy _ _ hq).2
    obtain rfl := heq
    constructor <;> simp [PasskeyState.writeChallenge, hclaims, hverifies, hconsumes, hafter.2.1,
      hafter.2.2.1, hafter.2.2.2]
  case unmarked => exact fun _ => ⟨hclaims, hverifies, hconsumes⟩
  case claimed => exact h.claimed
  case consumed =>
    intro params hparams
    obtain ⟨first, hfirst, -⟩ := h.consumed params hparams
    cases hissue.symm.trans hfirst
  case holder =>
    intro k hk
    have hbefore := h.holder k hk
    cases k with
    | entered call => exact hbefore
    | sawSystem call found => exact hbefore
    | located call place => exact hbefore
    | writing call place record =>
        obtain ⟨-, before, hfile, -⟩ := hbefore
        cases (hnone place).symm.trans hfile
    | moving phase =>
        cases phase with
        | read => exact hbefore
        | copy record => cases (hnone .system).symm.trans hbefore.2.1
        | drop =>
            have hsome := hbefore.2.2
            rw [hnone] at hsome
            cases hsome
  case migration =>
    intro phase hphase
    obtain ⟨htenant, hstill, -⟩ := h.migration phase hphase
    exact ⟨htenant, hstill, fun _ => hnotTwice⟩

theorem PasskeyInv.with_issue (h : PasskeyInv host names s) {phase : IssuePhase}
    (hbefore : ∀ first, s.issue ≠ .issued first) (hphase : IssueInv names phase) :
    PasskeyInv host names { s with issue := phase } where
  requests := h.requests
  alone := h.alone
  issue := hphase
  copies q record hq := by
    obtain ⟨-, -, first, hfirst, -⟩ := h.copies q record hq
    exact absurd hfirst (hbefore first)
  twice := h.twice
  marks := h.marks
  unmarked := h.unmarked
  claimed := h.claimed
  consumed params hparams := by
    obtain ⟨first, hfirst, -⟩ := h.consumed params hparams
    exact absurd hfirst (hbefore first)
  holder := h.holder
  migration := h.migration

theorem issueStep_inv (h : PasskeyInv host names s) : PasskeyInv host names (issueStep names s) := by
  unfold issueStep
  cases hissue : s.issue with
  | unissued => exact h.with_issue (by rw [hissue]; nofun) trivial
  | issued record =>
      have hsame : { s with issue := nextIssue names s (.issued record) } = s := by
        show { s with issue := .issued record } = s
        rw [← hissue]
      exact hsame ▸ h
  | located location record => exact write_issue_inv h hissue
  | sawSystem viewer record found =>
      refine h.with_issue (by rw [hissue]; nofun) ?_
      have hinv := h.issue
      rw [hissue] at hinv
      unfold nextIssue
      split
      · rename_i heq
        split
        · rename_i location hlocate
          cases heq
          exact ⟨hinv, locate_some h hlocate⟩
        · trivial
      · rename_i hother
        exact absurd rfl (hother _ _ _)

/-- A step that changes only copies of the request, and the lock on it. -/
theorem PasskeyInv.with_requests (h : PasskeyInv host names s)
    {requests : ApprovalPartition → Option ℕ} {migration : Option MigrationPhase}
    (hrequests : ∀ q, (requests q).isSome → q = .system ∨ q = names.target)
    (halone : names.scope.tenant = none → names.target ≠ .system →
      (requests names.target).isSome → requests .system = none)
    (habsent : s.requests .system = none → requests .system = none)
    (htwice : Twice names s → (requests .system).isSome)
    (hmoving : s.migration = some .move → migration = some .move)
    (hmigration : ∀ phase, migration = some phase → names.scope.tenant.isSome ∧
      (requests .system).isSome ∧ (phase = .removeRequest → ¬ Twice names s)) :
    PasskeyInv host names { s with requests := requests, migration := migration } where
  requests := hrequests
  alone := halone
  issue := h.issue
  copies := h.copies
  twice := htwice
  marks := h.marks
  unmarked := h.unmarked
  claimed := h.claimed
  consumed := h.consumed
  holder k hk := by
    have hbefore := h.holder k hk
    cases k with
    | entered call => exact hbefore
    | sawSystem call found => exact ⟨hbefore.1, fun hfound => (hbefore.2 hfound).imp_left habsent⟩
    | located call place =>
        exact ⟨hbefore.1, fun hcall => (hbefore.2 hcall).imp_right (And.imp_right habsent)⟩
    | writing call place record =>
        exact ⟨hbefore.1.imp_right (And.imp_right habsent), hbefore.2⟩
    | moving phase => exact ⟨hmoving hbefore.1, hbefore.2⟩
  migration := hmigration

/-- The migration has copied the request to its partition. -/
theorem copyRequest_inv (h : PasskeyInv host names s) {content : ℕ}
    (hmigration : s.migration = some (.copyRequest content)) :
    PasskeyInv host names { s with
      requests := Function.update s.requests names.target (some content)
      migration := some .probe } := by
  obtain ⟨htenant, hstill, -⟩ := h.migration _ hmigration
  have hsystem : Function.update s.requests names.target (some content) .system =
      s.requests .system := Function.update_of_ne (Ne.symm (target_ne_system htenant)) _ _
  refine h.with_requests (fun q hq => ?_) (fun hnone => ?_) (fun habsent => ?_) (fun _ => ?_)
    (fun hmove => ?_) fun phase hphase => ?_
  · by_cases heq : q = names.target
    · exact .inr heq
    · rw [Function.update_of_ne heq] at hq
      exact h.requests q hq
  · rw [hnone] at htenant
    cases htenant
  · rw [hsystem, habsent]
  · rw [hsystem]
    exact hstill
  · cases hmigration.symm.trans hmove
  · obtain rfl := Option.some.inj hphase
    rw [hsystem]
    exact ⟨htenant, hstill, nofun⟩

/-- The migration has removed the request from the system tree. -/
theorem removeRequest_inv (h : PasskeyInv host names s)
    (hmigration : s.migration = some .removeRequest) :
    PasskeyInv host names { s with
      requests := Function.update s.requests .system none, migration := none } := by
  obtain ⟨-, -, hdone⟩ := h.migration _ hmigration
  have hsystem : Function.update s.requests .system none .system = none :=
    Function.update_self ..
  refine h.with_requests (fun q hq => ?_) (fun _ _ _ => hsystem) (fun _ => hsystem)
    (fun htwice => absurd htwice (hdone rfl)) (fun hmove => ?_) nofun
  · by_cases heq : q = .system
    · exact .inl heq
    · rw [Function.update_of_ne heq] at hq
      exact h.requests q hq
  · cases hmigration.symm.trans hmove

/-- A decision has written the request where it is. -/
theorem rewriteRequest_inv (h : PasskeyInv host names s) {content : ℕ}
    (hmigration : s.migration = none) (hthere : (s.requests location).isSome) :
    PasskeyInv host names { s with
      requests := Function.update s.requests location (some content) } := by
  have hsome : ∀ q, (Function.update s.requests location (some content) q).isSome =
      (s.requests q).isSome := by
    intro q
    by_cases heq : q = location
    · rw [heq, Function.update_self, hthere]
      rfl
    · rw [Function.update_of_ne heq]
  have habsent : ∀ q, s.requests q = none →
      Function.update s.requests location (some content) q = none := by
    intro q hq
    rw [← Option.isNone_iff_eq_none, ← Option.isSome_eq_false_iff, hsome, hq]
    rfl
  refine h.with_requests (fun q hq => h.requests q (hsome q ▸ hq)) (fun hnone hne hcopy => ?_)
    (habsent _) (fun htwice => ?_) id (fun phase hphase => ?_)
  · exact habsent _ (h.alone hnone hne (hsome _ ▸ hcopy))
  · rw [hsome]
    exact h.twice htwice
  · cases hmigration.symm.trans hphase

/-- The migration has copied the challenge to the partition. -/
theorem copyChallenge_inv (h : PasskeyInv host names s) (hmigration : s.migration = some .move)
    (hholder : s.holder = some (.moving (.copy after))) :
    PasskeyInv host names
      { s.writeChallenge names.target after with holder := some (.moving .drop) } := by
  obtain ⟨htenant, hstill, -⟩ := h.migration _ hmigration
  obtain ⟨-, hcopy, -⟩ := h.holder _ hholder
  have hne := target_ne_system htenant
  have hsystem : (s.writeChallenge names.target after).challenges .system = some after :=
    (Function.update_of_ne (Ne.symm hne) _ _).trans hcopy
  have htarget : (s.writeChallenge names.target after).challenges names.target = some after :=
    Function.update_self ..
  have hcurrent : (s.writeChallenge names.target after).current names = s.current names := by
    unfold PasskeyState.current
    rw [hsystem, hcopy, Option.some_or, Option.some_or]
  constructor
  case requests => exact h.requests
  case alone => exact h.alone
  case issue => exact h.issue
  case copies =>
    intro q record hq
    by_cases heq : q = names.target
    · rw [heq] at hq
      obtain rfl := Option.some.inj (htarget.symm.trans hq)
      exact ⟨.inr heq, (h.copies _ _ hcopy).2⟩
    · exact h.copies q record ((Function.update_of_ne heq _ _).symm.trans hq)
  case twice => exact fun _ => hstill
  case marks =>
    intro record hrecord
    exact h.marks record (hcurrent ▸ hrecord)
  case unmarked => exact fun hnone => h.unmarked (hcurrent ▸ hnone)
  case claimed => exact h.claimed
  case consumed => exact h.consumed
  case holder =>
    intro k hk
    obtain rfl := Option.some.inj hk
    exact ⟨hmigration, hsystem.trans htarget.symm, by rw [htarget]; rfl⟩
  case migration =>
    intro phase hphase
    obtain rfl := Option.some.inj (hmigration.symm.trans hphase)
    exact ⟨htenant, hstill, nofun⟩

/-- The migration has removed the challenge from the system tree. -/
theorem dropChallenge_inv (h : PasskeyInv host names s) (hmigration : s.migration = some .move)
    (hholder : s.holder = some (.moving .drop)) :
    PasskeyInv host names { s with
      challenges := Function.update s.challenges .system none
      holder := none
      migration := some .removeRequest } := by
  obtain ⟨htenant, hstill, -⟩ := h.migration _ hmigration
  obtain ⟨-, hsame, hsome⟩ := h.holder _ hholder
  have hne := target_ne_system htenant
  have hsystem : Function.update s.challenges .system none .system = none :=
    Function.update_self ..
  have htarget : Function.update s.challenges .system none names.target =
      s.challenges names.target := Function.update_of_ne hne _ _
  have hcurrent : (Function.update s.challenges .system none .system).or
      (Function.update s.challenges .system none names.target) = s.current names := by
    obtain ⟨record, hrecord⟩ := Option.isSome_iff_exists.mp hsome
    unfold PasskeyState.current
    rw [hsystem, htarget, hsame, hrecord, Option.none_or, Option.some_or]
  have hnotTwice : ¬ Twice names { s with
      challenges := Function.update s.challenges .system none
      holder := none
      migration := some .removeRequest } := by
    rintro ⟨-, hcopy, -⟩
    obtain ⟨record, hrecord⟩ := Option.isSome_iff_exists.mp hcopy
    cases hsystem.symm.trans hrecord
  constructor
  case requests => exact h.requests
  case alone => exact h.alone
  case issue => exact h.issue
  case copies =>
    intro q record hq
    by_cases heq : q = .system
    · subst heq
      cases hsystem.symm.trans hq
    · exact h.copies q record ((Function.update_of_ne heq _ _).symm.trans hq)
  case twice => exact fun htwice => absurd htwice hnotTwice
  case marks =>
    intro record hrecord
    exact h.marks record (hcurrent.symm.trans hrecord)
  case unmarked => exact fun hnone => h.unmarked (hcurrent.symm.trans hnone)
  case claimed => exact h.claimed
  case consumed => exact h.consumed
  case holder => exact fun _ hk => nomatch hk
  case migration =>
    intro phase hphase
    obtain rfl := Option.some.inj hphase
    exact ⟨htenant, hstill, fun _ => hnotTwice⟩

theorem PasskeyInv.unlock (h : PasskeyInv host names s) {migration : Option MigrationPhase}
    (hmigration : ∀ phase, migration = some phase → MigrationInv names s phase) :
    PasskeyInv host names { s with holder := none, migration := migration } :=
  h.relock (fun _ hk => nomatch hk) hmigration

/-- While nobody moves the challenge, the migration may go on or stop. -/
theorem PasskeyInv.with_migration (h : PasskeyInv host names s)
    {migration : Option MigrationPhase} (hnotMoving : s.migration ≠ some .move)
    (hmigration : ∀ phase, migration = some phase → MigrationInv names s phase) :
    PasskeyInv host names { s with migration := migration } := by
  refine h.relock (fun k hk => ?_) hmigration
  have hbefore := h.holder k hk
  cases k with
  | moving phase => exact absurd hbefore.1 hnotMoving
  | entered call => exact hbefore
  | sawSystem call found => exact hbefore
  | located call place => exact hbefore
  | writing call place record => exact hbefore

theorem move_inv (h : PasskeyInv host names s) (hmigration : s.migration = some .move)
    (hstep : migrationStep names s .move = some t) : PasskeyInv host names t := by
  obtain ⟨htenant, hstill, -⟩ := h.migration _ hmigration
  simp only [migrationStep] at hstep
  split at hstep
  · rename_i hholder
    split at hstep
    · rename_i hgone
      obtain rfl := Option.some.inj hstep
      refine h.unlock fun phase hphase => ⟨htenant, hstill, fun _ htwice => ?_⟩
      rw [Twice, hgone] at htwice
      cases htwice.2.1
    · rename_i record hcopy hnone
      obtain rfl := Option.some.inj hstep
      refine h.relock (fun k hk => ?_) h.migration
      obtain rfl := Option.some.inj hk
      exact ⟨hmigration, hcopy, hnone⟩
    · rename_i record existing hcopy hexisting
      split at hstep
      · rename_i heq
        obtain rfl := Option.some.inj hstep
        refine h.relock (fun k hk => ?_) h.migration
        obtain rfl := Option.some.inj hk
        exact ⟨hmigration, by rw [hcopy, hexisting, heq], by rw [hexisting]; rfl⟩
      · obtain rfl := Option.some.inj hstep
        exact h.unlock fun _ hphase => nomatch hphase
  · rename_i record hholder
    obtain rfl := Option.some.inj hstep
    exact copyChallenge_inv h hmigration hholder
  · rename_i hholder
    obtain rfl := Option.some.inj hstep
    exact dropChallenge_inv h hmigration hholder
  · cases hstep

theorem migrationStep_inv (h : PasskeyInv host names s) {phase : MigrationPhase}
    (hmigration : s.migration = some phase) (hstep : migrationStep names s phase = some t) :
    PasskeyInv host names t := by
  obtain ⟨htenant, hstill, -⟩ := h.migration _ hmigration
  cases phase with
  | copyRequest content =>
      obtain rfl := Option.some.inj hstep
      exact copyRequest_inv h hmigration
  | probe =>
      obtain rfl := Option.some.inj hstep
      refine h.with_migration (by rw [hmigration]; nofun) fun phase hphase =>
        ⟨htenant, hstill, fun hremove => ?_⟩
      rintro ⟨-, hcopy, -⟩
      rw [if_pos hcopy] at hphase
      cases hremove ▸ hphase
  | lock =>
      obtain ⟨hfree, rfl⟩ := Option.ite_some_none_eq_some.mp hstep
      refine h.relock (fun k hk => ?_) fun phase hphase => ?_
      · obtain rfl := Option.some.inj hk
        exact ⟨rfl, trivial⟩
      · obtain rfl := Option.some.inj hphase
        exact ⟨htenant, hstill, nofun⟩
  | move => exact move_inv h hmigration hstep
  | removeRequest =>
      obtain rfl := Option.some.inj hstep
      exact removeRequest_inv h hmigration

theorem enter_inv (h : PasskeyInv host names s)
    (hstep : (passkey host names).step s (.enter call) = some t) : PasskeyInv host names t := by
  have henter : HolderInv host names s (.entered call) →
      PasskeyInv host names { s with holder := some (.entered call) } := by
    intro hcall
    refine h.relock (fun k hk => ?_) h.migration
    obtain rfl := Option.some.inj hk
    exact hcall
  dsimp only [passkey] at hstep
  split at hstep
  · rename_i caller claimed credentialId now hholder
    obtain ⟨hclaimed, rfl⟩ := Option.ite_some_none_eq_some.mp hstep
    refine henter fun caller' claimed' id now' hcall => ?_
    cases hcall
    exact h.claimed claimed hclaimed
  · rename_i hholder hother
    obtain rfl := Option.some.inj hstep
    exact henter fun caller claimed id now hcall => absurd hcall (hother caller claimed id now)
  · cases hstep

theorem migrate_inv (h : PasskeyInv host names s) {viewer : Viewer}
    (hstep : (passkey host names).step s (.migrate viewer) = some t) :
    PasskeyInv host names t := by
  dsimp only [passkey] at hstep
  split at hstep
  · rename_i tenant hmigration hscope
    have hbegin : ∀ phase content, s.requests .system = some content → phase ≠ .removeRequest →
        PasskeyInv host names { s with migration := some phase } := by
      intro phase content hsystem hphase
      refine h.with_migration (by rw [hmigration]; nofun) fun phase' hphase' => ?_
      obtain rfl := Option.some.inj hphase'
      exact ⟨by rw [hscope]; rfl, by rw [hsystem]; rfl, fun hremove => absurd hremove hphase⟩
    split at hstep
    · split at hstep
      · obtain rfl := Option.some.inj hstep
        exact h
      · rename_i content hsystem _
        obtain rfl := Option.some.inj hstep
        exact hbegin _ content hsystem nofun
      · rename_i content existing hsystem _
        split at hstep
        · obtain rfl := Option.some.inj hstep
          exact hbegin _ content hsystem nofun
        · obtain rfl := Option.some.inj hstep
          exact h
    · cases hstep
  · cases hstep

theorem stopMigration_inv (h : PasskeyInv host names s) :
    PasskeyInv host names { s with
      migration := none, holder := s.holder.filter (!·.isMoving) } := by
  refine h.relock (fun k hk => ?_) fun _ hphase => nomatch hphase
  obtain ⟨hk, hnotMoving⟩ := Option.filter_eq_some_iff.mp hk
  have hbefore := h.holder k hk
  cases k with
  | moving phase => cases hnotMoving
  | entered call => exact hbefore
  | sawSystem call found => exact hbefore
  | located call place => exact hbefore
  | writing call place record => exact hbefore

theorem step_passkeyInv {a : PasskeyAction} (h : PasskeyInv host names s)
    (hstep : (passkey host names).step s a = some t) : PasskeyInv host names t := by
  cases a with
  | issue viewer params =>
      dsimp only [passkey] at hstep
      split at hstep
      · rename_i record hissue hrecord
        obtain ⟨hid, rfl⟩ := Option.ite_some_none_eq_some.mp hstep
        obtain ⟨hrequest, hmarks⟩ := issue_unmarked hrecord
        exact h.with_issue (by rw [hissue]; nofun) ⟨hrequest.trans hid, hmarks⟩
      · cases hstep
  | issueStep =>
      obtain rfl := Option.some.inj hstep
      exact issueStep_inv h
  | enter call => exact enter_inv h hstep
  | callStep =>
      obtain ⟨k, hholder, hstep⟩ := Option.bind_eq_some_iff.mp hstep
      exact callStep_inv h hholder hstep
  | crash =>
      obtain ⟨-, rfl⟩ := Option.ite_some_none_eq_some.mp hstep
      exact h.unlock h.migration
  | migrate viewer => exact migrate_inv h hstep
  | migrationStep =>
      obtain ⟨phase, hmigration, hstep⟩ := Option.bind_eq_some_iff.mp hstep
      exact migrationStep_inv h hmigration hstep
  | stopMigration =>
      obtain rfl := Option.some.inj hstep
      exact stopMigration_inv h
  | rewriteRequest location content =>
      obtain ⟨⟨hmigration, hthere⟩, rfl⟩ := Option.ite_some_none_eq_some.mp hstep
      exact rewriteRequest_inv h hmigration hthere

end Steps

section Runs

variable {host names} {s : PasskeyState}

theorem init_passkeyInv (h : (passkey host names).init s) : PasskeyInv host names s := by
  obtain ⟨⟨location, content, hwhere, hrequests⟩, hchallenges, hissue, hholder, hmigration,
    hclaims, hverifies, hconsumes⟩ := h
  have hsome : ∀ q, (s.requests q).isSome → q = location := by
    intro q hq
    by_contra hne
    rw [hrequests, Function.update_of_ne hne] at hq
    cases hq
  have hnone : s.current names = none := by
    unfold PasskeyState.current
    rw [hchallenges, Option.none_or]
  constructor
  case requests => exact fun q hq => hsome q hq ▸ hwhere
  case alone =>
    intro _ hne htarget
    rw [← Option.isNone_iff_eq_none, ← Option.isSome_eq_false_iff, ← Bool.not_eq_true]
    intro hsystem
    exact hne ((hsome _ htarget).trans (hsome _ hsystem).symm)
  case issue =>
    rw [hissue]
    trivial
  case copies =>
    intro q record hq
    rw [hchallenges] at hq
    cases hq
  case twice =>
    rintro ⟨-, hcopy, -⟩
    rw [hchallenges] at hcopy
    cases hcopy
  case marks =>
    intro record hrecord
    cases hnone.symm.trans hrecord
  case unmarked => exact fun _ => ⟨hclaims, hverifies, hconsumes⟩
  case claimed =>
    rw [hclaims]
    exact fun _ hrecord => absurd hrecord List.not_mem_nil
  case consumed =>
    rw [hconsumes]
    exact fun _ hparams => absurd hparams List.not_mem_nil
  case holder =>
    intro k hk
    cases hholder.symm.trans hk
  case migration =>
    intro phase hphase
    cases hmigration.symm.trans hphase

theorem length_toList_le {α : Type} (o : Option α) : o.toList.length ≤ 1 := by
  cases o <;> simp

/-- A challenge is claimed, verified and consumed at most once each, and it is consumed by the
decision that it was issued for, in time and after it was verified. -/
theorem challenge_settles_once (hs : (passkey host names).Reachable s) :
    s.claims.length ≤ 1 ∧ s.verifies.length ≤ 1 ∧ s.consumes.length ≤ 1 ∧
      ∀ params ∈ s.consumes, s.verifies.length = 1 ∧
        ∃ first, s.issue = .issued first ∧ ConsumedFor params first := by
  have h : PasskeyInv host names s :=
    hs.invariant (fun _ hinit => init_passkeyInv hinit) fun _ _ _ h _ hstep => step_passkeyInv h hstep
  cases hcurrent : s.current names with
  | none =>
      obtain ⟨hclaims, hverifies, hconsumes⟩ := h.unmarked hcurrent
      rw [hclaims, hverifies, hconsumes]
      exact ⟨Nat.zero_le 1, Nat.zero_le 1, Nat.zero_le 1,
        fun _ hparams => absurd hparams List.not_mem_nil⟩
  | some record =>
      have hmarked := h.marks record hcurrent
      refine ⟨hmarked.claims ▸ length_toList_le _, hmarked.verifies ▸ length_toList_le _,
        hmarked.consumes ▸ length_toList_le _, fun params hparams => ⟨?_, h.consumed params hparams⟩⟩
      have hconsumed : record.consumedAt.isSome := by
        rw [Option.isSome_iff_ne_none]
        intro hnone
        have hlength := hmarked.consumes
        rw [hnone, Option.toList_none, List.length_nil, List.length_eq_zero_iff] at hlength
        rw [hlength] at hparams
        cases hparams
      obtain ⟨verifiedAt, hverified⟩ := Option.isSome_iff_exists.mp (hmarked.verifiedFirst hconsumed)
      rw [hmarked.verifies, hverified]
      rfl

def plainPasskeyHost : PasskeyHost where
  unicode := ⟨id, id⟩
  dateParse := fun _ => none
  isoString := fun _ => ""
  payloadHash := fun _ => ""
  recordHash := fun _ => ""
  presentedDigest := fun _ => String.ofList (List.replicate 64 'a')
  challengeHash := id

/-- A legacy request of a tenant. -/
def legacyNames : PasskeyNames where
  storageChannel := "c"
  requestId := "r"
  challengeId := "k"
  scope := ⟨some "acme", .confidential, none⟩
  owner := none

def operator : Viewer :=
  ⟨none, none, [(.confidential, "acme")]⟩

def operatorCaller : Caller :=
  { operator with elsewhere := .system }

def legacyIssue : IssueParams where
  record := { id := "r", kind := .missionGate, storageChannel := "c", channel := "c",
              status := .pending }
  storageChannel := "c"
  decision := .approved
  memberId := "m"
  presentedDigest := some (String.ofList (List.replicate 64 'a'))
  now := 0
  nonce := "n"

def legacyDecision : ChallengeConsumption where
  challengeId := some "k"
  requestId := "r"
  decidedBy := "user:m"
  decision := .approved
  presentedDigest := some (String.ofList (List.replicate 64 'a'))
  now := 3

def legacyState : PasskeyState where
  requests := Function.update (fun _ => none) .system (some 0)
  challenges := fun _ => none
  issue := .unissued
  holder := none
  migration := none
  claims := []
  verifies := []
  consumes := []

/-- The challenge moves between its claim and its verification. -/
def legacyRun (claimed : ApprovalPasskeyChallengeRecord) : List PasskeyAction :=
  [.issue operator legacyIssue, .issueStep, .issueStep] ++
  .enter (.claim operatorCaller ⟨"k", "r", "m", .approved, 1⟩ 1) :: List.replicate 4 .callStep ++
  .migrate operator :: List.replicate 7 .migrationStep ++
  .enter (.verify operatorCaller claimed "p" 2) :: List.replicate 4 .callStep ++
  .enter (.consume operatorCaller legacyDecision 3) :: List.replicate 4 .callStep

theorem challenge_settles_once_after_migration : ∃ s : PasskeyState,
    s.consumes = [legacyDecision] ∧ s.requests .system = none ∧ s.claims.length ≤ 1 := by
  obtain ⟨s, hs, hconsumes, hrequests⟩ := Transition.System.exists_reachable_of_exec
    (S := passkey plainPasskeyHost legacyNames) (s := legacyState)
    (legacyRun
      (((issueApprovalPasskeyChallenge plainPasskeyHost "k" legacyIssue).toOption.map
        fun challenge => { challenge with claimedAt := some 1 }).get (by decide +kernel)))
    (fun s => s.consumes = [legacyDecision] ∧ s.requests .system = none)
    ⟨⟨.system, 0, .inl rfl, rfl⟩, rfl, rfl, rfl, rfl, rfl, rfl, rfl⟩ (by decide +kernel)
  exact ⟨s, hconsumes, hrequests, (challenge_settles_once hs).1⟩

end Runs

end Kyberion.Approval
