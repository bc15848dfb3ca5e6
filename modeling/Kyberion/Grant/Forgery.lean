import Kyberion.Grant.Standing

/-!
A file cannot claim more than its approval. The approval says for which grant it
was consumed and what was approved; a record that it covers agrees with that grant
in every field that a use reads, whatever was done to the file. An approval covers
one grant id, and none once it is withdrawn.
-/

namespace Kyberion.Grant

open Approval (CallEnv)

/-- A hash free of collisions, and a clock whose texts can be read back. -/
structure HostLaws (host : GrantHost) : Prop where
  sha256 : Function.Injective host.sha256
  dateParse : ∀ ms, host.dateParse (host.isoString ms) = some ms
  dateParse_empty : host.dateParse "" = none

/-- What a normalized draft has beyond its type. -/
structure Normal (draft : NormalizedGrantDraft) : Prop where
  provider : draft.credentialProvider ≠ some ""
  reference : draft.credentialRef ≠ some ""
  ttlDays : 1 ≤ draft.ttlDays

section Fields

variable (host : GrantHost)

/-- Two records of one grant; the text of the expiry may differ. -/
structure SameGrant (record granted : GrantRecord) : Prop where
  grantId : record.grantId = granted.grantId
  capability : record.capability = granted.capability
  tenantSlug : record.scope.tenantSlug = granted.scope.tenantSlug
  credentialProvider : record.scope.credentialProvider = granted.scope.credentialProvider
  credentialRef : record.scope.credentialRef = granted.scope.credentialRef
  meetingSeriesIds :
    record.scope.meetingSeriesIds.getD [] = granted.scope.meetingSeriesIds.getD []
  meetingUrls : record.scope.meetingUrls.getD [] = granted.scope.meetingUrls.getD []
  purpose : record.purpose = granted.purpose
  grantedAt : record.grantedAt = granted.grantedAt
  expiresAt : host.dateParse record.expiresAt = host.dateParse granted.expiresAt

/-- The grant for which the approval `id` was consumed. -/
structure IssuedFor (id : String) (approval : GrantApproval) (granted : GrantRecord) : Prop where
  covers : coversRecord host approval granted = true
  basis : granted.basis =
    some { approvalRequestId := id, approvalChannel := grantApprovalChannel }
  provider : granted.scope.credentialProvider ≠ some ""
  reference : granted.scope.credentialRef ≠ some ""

end Fields

section Covers

variable {host : GrantHost} {approval before after : GrantApproval} {record granted : GrantRecord}

theorem filter_ne_empty {value : Option String} (h : value ≠ some "") :
    value.filter (· ≠ "") = value := by
  cases value with
  | none => rfl
  | some text => simpa [Option.filter_eq_some_iff] using h

theorem coversRecord_iff : coversRecord host approval record = true ↔
    (∃ used, approval.request.consumption = some used ∧ used.consumer = grantApprovalConsumer ∧
      used.effectRef = some record.grantId ∧ used.consumedAt = record.grantedAt) ∧
    ∃ ttlDays, lifetimeDays host record = some ttlDays ∧
      bindsDraft host approval (rebuiltDraft record ttlDays) = true := by
  simp [coversRecord, Option.any_eq_true, and_assoc]

theorem lifetimeDays_eq_some {ttlDays : ℕ} : lifetimeDays host record = some ttlDays ↔
    ∃ granted, host.dateParse record.grantedAt = some granted ∧
      host.dateParse record.expiresAt = some (granted + ttlDays * dayMs) ∧ 1 ≤ ttlDays := by
  unfold lifetimeDays
  constructor
  · intro h
    obtain ⟨expires, hexpires, h⟩ := Option.bind_eq_some_iff.mp h
    obtain ⟨granted, hgranted, h⟩ := Option.bind_eq_some_iff.mp h
    obtain ⟨⟨hwhole, hpos⟩, rfl⟩ := Option.ite_some_none_eq_some.mp h
    refine ⟨granted, hgranted, ?_, ?_⟩
    · rw [hexpires]
      simp only [dayMs] at hwhole hpos ⊢
      congr 1
      omega
    · simp only [dayMs] at hwhole hpos ⊢
      omega
  · rintro ⟨granted, hgranted, hexpires, hpos⟩
    simp only [hexpires, hgranted, Option.bind_eq_bind, Option.bind_some]
    refine Option.ite_some_none_eq_some.mpr ?_
    simp only [dayMs]
    omega

theorem bindsDraft_inj {draft draft' : NormalizedGrantDraft} (laws : HostLaws host)
    (h : bindsDraft host approval draft = true) (h' : bindsDraft host approval draft' = true) :
    draft = draft' := by
  simp only [bindsDraft, Bool.and_eq_true, decide_eq_true_eq] at h h'
  exact payloadHash_inj laws.sha256 (Option.some.inj (h.2.symm.trans h'.2))

theorem validateGrantRecord_ok (h : (validateGrantRecord host record).toBool = true) :
    matchesSchema host record = true := by
  unfold validateGrantRecord Js.throwIf at h
  split at h
  · cases h
  · rename_i hschema
    simpa using hschema

theorem ne_empty_of_all (matches_ : List Char → Bool) {value : Option String}
    (hempty : matches_ [] = false) (h : value.all (matches_ ·.toList) = true) :
    value ≠ some "" := by
  rintro rfl
  cases hempty.symm.trans h

theorem provider_ne_empty (h : (validateGrantRecord host record).toBool = true) :
    record.scope.credentialProvider ≠ some "" ∧ record.scope.credentialRef ≠ some "" := by
  have hschema := validateGrantRecord_ok h
  simp only [matchesSchema, Bool.and_eq_true, and_assoc] at hschema
  obtain ⟨-, -, hprovider, href, -⟩ := hschema
  exact ⟨ne_empty_of_all isCredentialProvider rfl hprovider,
    ne_empty_of_all isCredentialRef rfl href⟩

/-- What one approval covers is one grant. -/
theorem sameGrant_of_covers (laws : HostLaws host) {id : String}
    (hvalid : (validateGrantRecord host record).toBool = true)
    (hcovers : coversRecord host approval record = true)
    (hissued : IssuedFor host id approval granted) : SameGrant host record granted := by
  obtain ⟨⟨used, hused, -, hid, hat⟩, ttlDays, hlifetime, hbinds⟩ := coversRecord_iff.mp hcovers
  obtain ⟨⟨used', hused', -, hid', hat'⟩, ttlDays', hlifetime', hbinds'⟩ :=
    coversRecord_iff.mp hissued.covers
  obtain rfl := Option.some.inj (hused.symm.trans hused')
  have hdraft := bindsDraft_inj laws hbinds hbinds'
  simp only [rebuiltDraft, NormalizedGrantDraft.mk.injEq] at hdraft
  obtain ⟨hcapability, htenant, hprovider, href, hseries, hurls, hpurpose, httl⟩ := hdraft
  obtain ⟨hprovider_ne, href_ne⟩ := provider_ne_empty hvalid
  rw [filter_ne_empty hprovider_ne, filter_ne_empty hissued.provider] at hprovider
  rw [filter_ne_empty href_ne, filter_ne_empty hissued.reference] at href
  have hgrantedAt : record.grantedAt = granted.grantedAt := hat.symm.trans hat'
  obtain ⟨start, hstart, hexpires, -⟩ := lifetimeDays_eq_some.mp hlifetime
  obtain ⟨start', hstart', hexpires', -⟩ := lifetimeDays_eq_some.mp hlifetime'
  have hstarts : start = start' := by
    rw [hgrantedAt] at hstart
    exact Option.some.inj (hstart.symm.trans hstart')
  exact
    { grantId := Option.some.inj (hid.symm.trans hid')
      capability := hcapability
      tenantSlug := htenant
      credentialProvider := hprovider
      credentialRef := href
      meetingSeriesIds := hseries
      meetingUrls := hurls
      purpose := hpurpose
      grantedAt := hgrantedAt
      expiresAt := by rw [hexpires, hexpires', hstarts, httl] }

theorem keepsBasis_iff : keepsBasis before after = true ↔
    after.request.id = before.request.id ∧ after.accountability = before.accountability ∧
      (∀ used, before.request.consumption = some used → after.request.consumption = some used) ∧
      (∀ used, before.request.consumption = none → after.request.consumption = some used →
        used.consumer ≠ grantApprovalConsumer) ∧
      (before.request.revocation.isSome = true → after.request.revocation.isSome = true) := by
  unfold keepsBasis
  cases before.request.consumption <;> cases before.request.revocation <;>
    simp [and_assoc, Option.all_eq_true]

theorem keepsBasis_covers (h : keepsBasis before after = true)
    (hcovers : coversRecord host before record = true) :
    coversRecord host after record = true := by
  obtain ⟨-, haccountability, hkeep, -, -⟩ := keepsBasis_iff.mp h
  rw [coversRecord_iff] at hcovers ⊢
  obtain ⟨⟨used, hused, hrest⟩, ttlDays, hlifetime, hbinds⟩ := hcovers
  refine ⟨⟨used, hkeep used hused, hrest⟩, ttlDays, hlifetime, ?_⟩
  simpa only [bindsDraft, haccountability] using hbinds

theorem keepsBasis_of_consumption_eq (hid : after.request.id = before.request.id)
    (haccountability : after.accountability = before.accountability)
    (hsame : after.request.consumption = before.request.consumption)
    (hrevoked : before.request.revocation.isSome = true →
      after.request.revocation.isSome = true) : keepsBasis before after = true := by
  refine keepsBasis_iff.mpr ⟨hid, haccountability, fun used hused => hsame.trans hused, ?_, hrevoked⟩
  intro used hnone hsome
  cases hnone.symm.trans (hsame.symm.trans hsome)

/-- The calls of the approval store leave the basis of a grant alone. -/
theorem keepsBasis_of_use {env : CallEnv} {claim : Approval.ClaimParams}
    {result : Approval.ResultParams} {revocation : Approval.RevokeParams}
    {consumption : Approval.ConsumeParams} {updated : Approval.ApprovalRequestRecord}
    (hconsumer : consumption.consumer ≠ grantApprovalConsumer)
    (h : Approval.claimApprovalApply host.toHost env claim (some before.request) = .ok updated ∨
      Approval.recordApprovalApplyResultUnlocked result (some before.request) = .ok updated ∨
      Approval.revoke host.toHost env revocation (some before.request) = .ok updated ∨
      Approval.consumeApprovalWithin host.toHost env consumption (some before.request) =
        .ok updated) :
    keepsBasis before { before with request := updated } = true := by
  rcases h with hclaim | hresult | hrevoke | hconsume
  · obtain ⟨-, -, -, rfl⟩ := Approval.claimApprovalApply_ok hclaim
    exact keepsBasis_of_consumption_eq rfl rfl rfl fun hrevoked => hrevoked
  · obtain rfl := Approval.recordApprovalApplyResultUnlocked_ok hresult
    exact keepsBasis_of_consumption_eq rfl rfl rfl fun hrevoked => hrevoked
  · obtain ⟨-, -, rfl⟩ := Approval.revoke_ok hrevoke
    exact keepsBasis_of_consumption_eq rfl rfl rfl fun _ => rfl
  · obtain ⟨-, hunused, -, -, rfl⟩ := Approval.consumeApprovalWithin_ok hconsume
    split
    · refine keepsBasis_iff.mpr ⟨rfl, rfl, fun used hused => ?_, fun used _ hsome => ?_,
        fun hrevoked => hrevoked⟩
      · cases hunused.symm.trans hused
      · obtain rfl := Option.some.inj hsome
        exact hconsumer
    · exact keepsBasis_of_consumption_eq rfl rfl rfl fun hrevoked => hrevoked

end Covers

section Calls

variable {host : GrantHost} {env : CallEnv} {approvals : Approvals}

theorem normalizeGrantDraft_ok {draft : GrantDraft} {normalized : NormalizedGrantDraft}
    (h : normalizeGrantDraft host draft = .ok normalized) : Normal normalized := by
  unfold normalizeGrantDraft at h
  simp only [Js.throwIf_eq_ok] at h
  obtain ⟨hprovider, href, h⟩ := h
  obtain ⟨policy, -, h⟩ := Js.except_bind_ok h
  simp only [Js.throwIf_eq_ok] at h
  obtain ⟨-, -, -, -, h⟩ := h
  obtain ⟨urls, -, h⟩ := Js.except_bind_ok h
  simp only [Js.throwIf_eq_ok, Except.ok.injEq, not_or, not_lt, not_not] at h
  obtain ⟨-, -, ⟨hwhole, hpos, -⟩, rfl⟩ := h
  have hall : ∀ {p : List Char → Bool} {value : Option String},
      ¬ value.any (fun text => !p text.toList) = true → value.all (p ·.toList) = true := by
    intro p value hany
    cases value with
    | none => rfl
    | some text => simpa using hany
  refine ⟨ne_empty_of_all isCredentialProvider rfl (hall hprovider),
    ne_empty_of_all isCredentialRef rfl (hall href), ?_⟩
  rw [← Rat.coe_int_num_of_den_eq_one hwhole] at hpos
  have hnum : 1 ≤ (draft.ttlDays.getD policy.maxTtlDays).num := by exact_mod_cast hpos
  dsimp only
  omega

theorem assertGrantApproval_ok {draft : NormalizedGrantDraft} {id : String}
    {checked : CheckedApproval}
    (h : assertGrantApproval host env approvals draft id = .ok checked) :
    ∃ id' approval, normalizeApprovalRequestId host id = .ok id' ∧
      approvals id' = some approval ∧ checked.approvalId = approval.request.id ∧
      bindsDraft host approval draft = true := by
  unfold assertGrantApproval at h
  obtain ⟨located, hlocated, h⟩ := Js.except_bind_ok h
  unfold loadApprovalRequest at hlocated
  obtain ⟨id', hid, hlocated⟩ := Js.except_bind_ok hlocated
  cases located with
  | none => cases h
  | some approval =>
      simp only [Js.throwIf_eq_ok] at h
      obtain ⟨-, -, -, h⟩ := h
      obtain ⟨-, -, h⟩ := Js.except_bind_ok h
      simp only [Js.throwIf_eq_ok, not_not] at h
      obtain ⟨hbinding, hhash, h⟩ := h
      refine ⟨id', approval, hid, Except.ok.inj hlocated, ?_, ?_⟩
      · split at h
        · cases h
        · obtain ⟨-, -, h⟩ := Js.except_bind_ok h
          simp only [Js.throwIf_eq_ok] at h
          exact Except.ok.inj h.2 ▸ rfl
      · simp [bindsDraft, hbinding, hhash]

theorem grantStandingChecks_ok {draft : GrantDraft} {id : String}
    {normalized : NormalizedGrantDraft} {checked : CheckedApproval}
    (h : grantStandingChecks host env approvals draft id = .ok (normalized, checked)) :
    Normal normalized ∧
      assertGrantApproval host env approvals normalized (Js.trim id) = .ok checked := by
  unfold grantStandingChecks at h
  obtain ⟨normalized', hnormalized, h⟩ := Js.except_bind_ok h
  obtain ⟨policy, -, h⟩ := Js.except_bind_ok h
  simp only [Js.throwIf_eq_ok] at h
  obtain ⟨-, -, h⟩ := h
  obtain ⟨checked', hchecked, h⟩ := Js.except_bind_ok h
  cases h
  exact ⟨normalizeGrantDraft_ok hnormalized, hchecked⟩

theorem consumeForGrant_ok {checked : CheckedApproval} {grantId : String} {after : GrantApproval}
    (h : consumeForGrant host env approvals checked grantId = .ok after) :
    ∃ id before, normalizeApprovalRequestId host checked.approvalId = .ok id ∧
      approvals id = some before ∧ before.request.consumption = none ∧
      before.request.revocation = none ∧
      after =
        { before with
          request :=
            { before.request with
              consumption := some
                { consumer := grantApprovalConsumer
                  consumedBy := checked.humanDecider
                  consumedAt := host.isoString env.now
                  effectRef := if grantId = "" then none else some grantId } } } := by
  unfold consumeForGrant at h
  obtain ⟨located, hlocated, h⟩ := Js.except_bind_ok h
  unfold loadApprovalRequest at hlocated
  obtain ⟨id, hid, hlocated⟩ := Js.except_bind_ok hlocated
  obtain ⟨updated, hupdated, h⟩ := Js.except_bind_ok h
  cases located with
  | none => cases hupdated
  | some before =>
      obtain ⟨hrevocation, hconsumption, -, -, rfl⟩ := Approval.consumeApprovalWithin_ok hupdated
      exact ⟨id, before, hid, Except.ok.inj hlocated, hconsumption, hrevocation,
        (Except.ok.inj h).symm⟩

theorem generateGrantId_ne_empty (now : ℤ) (hex : String) :
    generateGrantId host now hex ≠ "" := by
  intro h
  have hlength := congrArg String.length h
  simp [generateGrantId] at hlength

/-- The record of a consumed approval says what was approved. -/
theorem consumedGrant_issued (laws : HostLaws host) {draft : NormalizedGrantDraft}
    (checked : CheckedApproval) {grantId : String} {after : GrantApproval} {now : ℤ}
    (hnormal : Normal draft) (hbinds : bindsDraft host after draft = true)
    (hconsumption : ∃ used, after.request.consumption = some used ∧
      used.consumer = grantApprovalConsumer ∧ used.effectRef = some grantId ∧
      used.consumedAt = host.isoString now) :
    ∃ granted, consumedGrant host draft checked grantId after = some granted ∧
      granted.grantId = grantId ∧ IssuedFor host checked.approvalId after granted := by
  obtain ⟨used, hused, hconsumer, href, hat⟩ := hconsumption
  have hstart : host.dateParse used.consumedAt = some now := hat ▸ laws.dateParse now
  have hnonempty : used.consumedAt ≠ "" := by
    intro hempty
    cases laws.dateParse_empty.symm.trans (hempty ▸ hstart)
  simp only [consumedGrant, hused, Option.bind_eq_bind, Option.bind_some, if_neg hnonempty,
    pendingGrant, hstart, Option.map_some]
  refine ⟨_, rfl, rfl, ?_⟩
  · rw [filter_ne_empty hnormal.provider, filter_ne_empty hnormal.reference]
    refine ⟨?_, rfl, hnormal.provider, hnormal.reference⟩
    · refine coversRecord_iff.mpr ⟨⟨used, hused, hconsumer, href, rfl⟩, draft.ttlDays, ?_, ?_⟩
      · exact lifetimeDays_eq_some.mpr ⟨now, hstart, laws.dateParse _, hnormal.ttlDays⟩
      · have hlist : ∀ values : List String,
            (if values = [] then none else some values).getD [] = values := by
          intro values
          split
          · rename_i hnil
            exact hnil.symm
          · rfl
        simp only [rebuiltDraft, hlist]
        rw [filter_ne_empty hnormal.provider, filter_ne_empty hnormal.reference]
        exact hbinds

end Calls

section Invariant

variable (host : GrantHost)

/-- The call that consumed an approval for this grant is under way or ended, or it is written. -/
def Accounted (s : GrantState) (granted : GrantRecord) : Prop :=
  .consumed granted ∈ s.calls ∨ .consumed granted ∈ s.stopped ∨
    ∃ auditEventId, { granted with auditEventId } ∈ s.created

structure GrantInv (s : GrantState) : Prop where
  keyed : ∀ id approval, s.approvals id = some approval →
    approval.request.id = id ∧ normalizeApprovalRequestId host id = .ok id
  checked : ∀ draft checked, .checked draft checked ∈ s.calls → Normal draft ∧
    ∃ approval, s.approvals checked.approvalId = some approval ∧
      bindsDraft host approval draft = true
  consumed : ∀ id approval used, s.approvals id = some approval →
    approval.request.consumption = some used → used.consumer = grantApprovalConsumer →
      ∃ granted, (id, granted) ∈ s.made
  issued : ∀ id granted, (id, granted) ∈ s.made →
    (∃ approval, s.approvals id = some approval ∧ IssuedFor host id approval granted) ∧
      Accounted s granted
  unique : ∀ entry ∈ s.made, ∀ other ∈ s.made, entry.2.grantId = other.2.grantId → entry = other

variable {host} {s t : GrantState} {before after : GrantApproval} {id : String}

/-- What an approval was consumed for outlives every later write of the approval. -/
theorem IssuedFor.keep {granted : GrantRecord} (h : IssuedFor host id before granted)
    (hkeep : keepsBasis before after = true) : IssuedFor host id after granted :=
  ⟨keepsBasis_covers hkeep h.covers, h.basis, h.provider, h.reference⟩

theorem bindsDraft_keep {draft : NormalizedGrantDraft} (hkeep : keepsBasis before after = true)
    (h : bindsDraft host before draft = true) : bindsDraft host after draft = true := by
  obtain ⟨-, haccountability, -⟩ := keepsBasis_iff.mp hkeep
  simpa only [bindsDraft, haccountability] using h

theorem GrantInv.with_files (h : GrantInv host s)
    {files : Option String → String → Option GrantRecord} :
    GrantInv host { s with files := files } :=
  ⟨h.keyed, h.checked, h.consumed, h.issued, h.unique⟩

theorem approvals_of_setApproval {id' : String} {approval : GrantApproval}
    (h : (s.setApproval id after).approvals id' = some approval) :
    id' = id ∧ approval = after ∨ s.approvals id' = some approval := by
  by_cases heq : id' = id
  · subst heq
    exact .inl ⟨rfl, (Option.some.inj ((GrantState.setApproval_self ..).symm.trans h)).symm⟩
  · exact .inr ((GrantState.setApproval_of_ne heq).symm.trans h)

/-- Another approval is filed, not yet consumed. -/
theorem GrantInv.file (h : GrantInv host s) (hnew : s.approvals id = none)
    (hid : after.request.id = id) (hnormal : normalizeApprovalRequestId host id = .ok id)
    (hunused : after.request.consumption = none) : GrantInv host (s.setApproval id after) := by
  have hother : ∀ id' approval, s.approvals id' = some approval →
      (s.setApproval id after).approvals id' = some approval := by
    intro id' approval happroval
    have hne : id' ≠ id := fun heq => by simp [← heq, happroval] at hnew
    exact (GrantState.setApproval_of_ne hne).trans happroval
  refine ⟨?_, ?_, ?_, ?_, h.unique⟩
  · intro id' approval happroval
    rcases approvals_of_setApproval happroval with ⟨rfl, rfl⟩ | hold
    · exact ⟨hid, hnormal⟩
    · exact h.keyed id' approval hold
  · intro draft checked hcall
    obtain ⟨hdraft, approval, happroval, hbinds⟩ := h.checked draft checked hcall
    exact ⟨hdraft, approval, hother _ _ happroval, hbinds⟩
  · intro id' approval used happroval hused hconsumer
    rcases approvals_of_setApproval happroval with ⟨rfl, rfl⟩ | hold
    · cases hunused.symm.trans hused
    · exact h.consumed id' approval used hold hused hconsumer
  · intro id' granted hmade
    obtain ⟨⟨approval, happroval, hissued⟩, haccounted⟩ := h.issued id' granted hmade
    exact ⟨⟨approval, hother _ _ happroval, hissued⟩, haccounted⟩

/-- An approval is written by a call that leaves the basis of grants alone. -/
theorem GrantInv.settle (h : GrantInv host s) (hbefore : s.approvals id = some before)
    (hkeep : keepsBasis before after = true) : GrantInv host (s.setApproval id after) := by
  obtain ⟨hid, -, hused, hfresh, -⟩ := keepsBasis_iff.mp hkeep
  have hforth : ∀ id' approval, s.approvals id' = some approval →
      ∃ next, (s.setApproval id after).approvals id' = some next ∧
        (next = approval ∨ id' = id ∧ approval = before ∧ next = after) := by
    intro id' approval happroval
    by_cases heq : id' = id
    · subst heq
      exact ⟨after, GrantState.setApproval_self .., .inr ⟨rfl,
        Option.some.inj (happroval.symm.trans hbefore), rfl⟩⟩
    · exact ⟨approval, (GrantState.setApproval_of_ne heq).trans happroval, .inl rfl⟩
  refine ⟨?_, ?_, ?_, ?_, h.unique⟩
  · intro id' approval happroval
    rcases approvals_of_setApproval happroval with ⟨rfl, rfl⟩ | hold
    · exact ⟨hid.trans (h.keyed id' before hbefore).1, (h.keyed id' before hbefore).2⟩
    · exact h.keyed id' approval hold
  · intro draft checked hcall
    obtain ⟨hdraft, approval, happroval, hbinds⟩ := h.checked draft checked hcall
    obtain ⟨next, hnext, rfl | ⟨-, rfl, rfl⟩⟩ := hforth _ _ happroval
    · exact ⟨hdraft, next, hnext, hbinds⟩
    · exact ⟨hdraft, next, hnext, bindsDraft_keep hkeep hbinds⟩
  · intro id' approval used happroval hconsumption hconsumer
    rcases approvals_of_setApproval happroval with ⟨rfl, rfl⟩ | hold
    · cases hold : before.request.consumption with
      | none => exact absurd hconsumer (hfresh used hold hconsumption)
      | some used' =>
          obtain rfl := Option.some.inj ((hused used' hold).symm.trans hconsumption)
          exact h.consumed id' before used' hbefore hold hconsumer
    · exact h.consumed id' approval used hold hconsumption hconsumer
  · intro id' granted hmade
    obtain ⟨⟨approval, happroval, hissued⟩, haccounted⟩ := h.issued id' granted hmade
    obtain ⟨next, hnext, rfl | ⟨rfl, rfl, rfl⟩⟩ := hforth _ _ happroval
    · exact ⟨⟨next, hnext, hissued⟩, haccounted⟩
    · exact ⟨⟨next, hnext, hissued.keep hkeep⟩, haccounted⟩

/-- An unused approval is consumed for a grant under a new id. -/
theorem GrantInv.issue (h : GrantInv host s) {granted : GrantRecord}
    (hbefore : s.approvals id = some before) (hunused : before.request.consumption = none)
    (hid : after.request.id = id) (haccountability : after.accountability = before.accountability)
    (hissued : IssuedFor host id after granted)
    (hnew : ∀ entry ∈ s.made, entry.2.grantId ≠ granted.grantId) :
    GrantInv host
      { s.setApproval id after with
        calls := .consumed granted :: s.calls
        made := (id, granted) :: s.made } := by
  -- no grant was made from the approval before, or it would have been consumed
  have hfirst : ∀ granted', (id, granted') ∉ s.made := by
    intro granted' hmade
    obtain ⟨⟨approval, happroval, hissued'⟩, -⟩ := h.issued id granted' hmade
    obtain rfl := Option.some.inj (hbefore.symm.trans happroval)
    obtain ⟨⟨used, hused, -⟩, -⟩ := coversRecord_iff.mp hissued'.covers
    cases hunused.symm.trans hused
  refine ⟨?_, ?_, ?_, ?_, ?_⟩
  · intro id' approval happroval
    rcases approvals_of_setApproval happroval with ⟨rfl, rfl⟩ | hold
    · exact ⟨hid, (h.keyed id' before hbefore).2⟩
    · exact h.keyed id' approval hold
  · intro draft checked hcall
    rcases List.mem_cons.mp hcall with hnone | hcall
    · cases hnone
    · obtain ⟨hdraft, approval, happroval, hbinds⟩ := h.checked draft checked hcall
      by_cases heq : checked.approvalId = id
      · rw [heq, hbefore] at happroval
        obtain rfl := Option.some.inj happroval
        refine ⟨hdraft, after, heq ▸ GrantState.setApproval_self .., ?_⟩
        simpa only [bindsDraft, haccountability] using hbinds
      · exact ⟨hdraft, approval, (GrantState.setApproval_of_ne heq).trans happroval, hbinds⟩
  · intro id' approval used happroval hused hconsumer
    rcases approvals_of_setApproval happroval with ⟨rfl, rfl⟩ | hold
    · exact ⟨granted, List.mem_cons_self⟩
    · obtain ⟨granted', hmade⟩ := h.consumed id' approval used hold hused hconsumer
      exact ⟨granted', List.mem_cons_of_mem _ hmade⟩
  · intro id' granted' hmade
    rcases List.mem_cons.mp hmade with hmade | hmade
    · obtain ⟨rfl, rfl⟩ := Prod.mk.inj hmade
      exact ⟨⟨after, GrantState.setApproval_self .., hissued⟩, .inl List.mem_cons_self⟩
    · obtain ⟨⟨approval, happroval, hissued'⟩, haccounted⟩ := h.issued id' granted' hmade
      have hne : id' ≠ id := fun heq => hfirst granted' (heq ▸ hmade)
      exact ⟨⟨approval, (GrantState.setApproval_of_ne hne).trans happroval, hissued'⟩,
        haccounted.imp_left (List.mem_cons_of_mem _)⟩
  · intro entry hentry other hother heq
    rcases List.mem_cons.mp hentry with rfl | hentry <;>
      rcases List.mem_cons.mp hother with rfl | hother
    · rfl
    · exact absurd heq.symm (hnew other hother)
    · exact absurd heq (hnew entry hentry)
    · exact h.unique entry hentry other hother heq

/-- The approval of a checked call is consumed for the grant that the call is to write. -/
theorem GrantInv.consume (laws : HostLaws host) (h : GrantInv host s) {env : CallEnv}
    {draft : NormalizedGrantDraft} {checked : CheckedApproval} {grantId : String}
    (hnormal : Normal draft)
    (hchecked : ∃ approval, s.approvals checked.approvalId = some approval ∧
      bindsDraft host approval draft = true) (hnonempty : grantId ≠ "")
    (hnew : ∀ entry ∈ s.made, entry.2.grantId ≠ grantId) :
    GrantInv host (consumeStep host env s draft checked grantId) := by
  unfold consumeStep
  cases hconsume : consumeForGrant host env s.approvals checked grantId with
  | error message => exact h
  | ok after =>
      obtain ⟨id, before, hid', hbefore, hunused, -, hafter⟩ := consumeForGrant_ok hconsume
      obtain ⟨approval, happroval, hbinds⟩ := hchecked
      obtain rfl : checked.approvalId = id :=
        Except.ok.inj ((h.keyed _ _ happroval).2.symm.trans hid')
      obtain rfl := Option.some.inj (happroval.symm.trans hbefore)
      have hkey : after.request.id = checked.approvalId := by
        rw [hafter]
        exact (h.keyed _ _ happroval).1
      have haccountability : after.accountability = approval.accountability := by rw [hafter]
      have hconsumption : ∃ used, after.request.consumption = some used ∧
          used.consumer = grantApprovalConsumer ∧ used.effectRef = some grantId ∧
          used.consumedAt = host.isoString env.now := by
        rw [hafter]
        exact ⟨_, rfl, rfl, if_neg hnonempty, rfl⟩
      have hbinds' : bindsDraft host after draft = true := by
        simpa only [bindsDraft, haccountability] using hbinds
      obtain ⟨granted, hgranted, hgrantId, hissued⟩ :=
        consumedGrant_issued laws checked hnormal hbinds' hconsumption
      simp only [hgranted, hkey]
      exact h.issue happroval hunused hkey haccountability hissued (hgrantId ▸ hnew)

/-- Only the approval that was consumed for this grant is withdrawn with it. -/
theorem withdrawApproval_eq_some {env : CallEnv} {approvals : Approvals} {existing : GrantRecord}
    {actor : GrantActor} {reason : String}
    (h : withdrawApproval host env approvals existing actor reason = some after) :
    ∃ id before, approvals id = some before ∧ after.request.id = before.request.id ∧
      keepsBasis before after = true ∧ after.request.revocation.isSome = true ∧
      ∃ used, before.request.consumption = some used ∧ used.consumer = grantApprovalConsumer ∧
        used.effectRef = some existing.grantId := by
  unfold withdrawApproval at h
  obtain ⟨basis, -, h⟩ := Option.bind_eq_some_iff.mp h
  split at h
  · cases h
  · obtain ⟨located, hlocated, h⟩ := Option.bind_eq_some_iff.mp h
    obtain ⟨before, hbefore, h⟩ := Option.bind_eq_some_iff.mp h
    obtain ⟨updated, hupdated, h⟩ := Option.bind_eq_some_iff.mp h
    obtain rfl := Option.some.inj h
    have hload := Js.except_toOption_eq_some.mp hlocated
    unfold loadApprovalRequest at hload
    obtain ⟨id, -, hload⟩ := Js.except_bind_ok hload
    have hrevoke := Js.except_toOption_eq_some.mp hupdated
    unfold Approval.revokeStandingEffectApproval at hrevoke
    rw [Js.throwIf_eq_ok] at hrevoke
    obtain ⟨-, -, hrecord⟩ := Approval.revoke_ok hrevoke.2
    refine ⟨id, before, hbefore ▸ Except.ok.inj hload, ?_, ?_, ?_, ?_⟩
    · rw [hrecord]
    · exact keepsBasis_of_consumption_eq (by rw [hrecord]) rfl (by rw [hrecord])
        fun _ => by rw [hrecord]; rfl
    · rw [hrecord]
      rfl
    · exact Approval.revoke_standingEffect_ok hrevoke.2

theorem loadGrant_eq_some {tenant : Option String} {grantId : String} {record : GrantRecord}
    (h : loadGrant host s tenant grantId = some record) :
    (validateGrantRecord host record).toBool = true ∧ record.grantId = grantId := by
  unfold loadGrant at h
  split at h
  · have hkept := (Option.filter_eq_some_iff.mp h).2
    simp only [Bool.and_eq_true, decide_eq_true_eq] at hkept
    exact hkept.1
  · cases h

/-- Revoking a grant changes files, and at most the approval that was consumed for it. -/
theorem revokeGrant_cases (h : GrantInv host s) (env : CallEnv) (tenant : Option String)
    (grantId : String) (actor : GrantActor) (reason auditEventId : String) :
    ∃ files, revokeGrant host env s tenant grantId actor reason auditEventId =
        { s with files := files } ∨
      ∃ id before after used, s.approvals id = some before ∧ keepsBasis before after = true ∧
        after.request.revocation.isSome = true ∧ before.request.consumption = some used ∧
        used.consumer = grantApprovalConsumer ∧ used.effectRef = some grantId ∧
        revokeGrant host env s tenant grantId actor reason auditEventId =
          { s.setApproval id after with files := files } := by
  unfold revokeGrant
  dsimp only
  split
  · exact ⟨s.files, .inl rfl⟩
  · split
    · exact ⟨s.files, .inl rfl⟩
    · rename_i existing hload
      split
      · exact ⟨s.files, .inl rfl⟩
      · cases hwithdraw : withdrawApproval host env s.approvals existing
            { actor with id := Js.trim actor.id } (Js.trim reason) with
        | none =>
            dsimp only
            split
            · exact ⟨_, .inl rfl⟩
            · exact ⟨s.files, .inl rfl⟩
        | some after =>
            obtain ⟨id, before, hbefore, hid, hkeep, hrevoked, used, hused, hconsumer, href⟩ :=
              withdrawApproval_eq_some hwithdraw
            have hkey : after.request.id = id := hid.trans (h.keyed id before hbefore).1
            rw [(loadGrant_eq_some hload).2] at href
            dsimp only
            rw [hkey]
            split
            · exact ⟨_, .inr ⟨id, before, after, used, hbefore, hkeep, hrevoked, hused, hconsumer,
                href, rfl⟩⟩
            · exact ⟨s.files, .inr ⟨id, before, after, used, hbefore, hkeep, hrevoked, hused,
                hconsumer, href, rfl⟩⟩

theorem GrantInv.revoke (h : GrantInv host s) {env : CallEnv} {tenant : Option String}
    {grantId : String} {actor : GrantActor} {reason auditEventId : String} :
    GrantInv host (revokeGrant host env s tenant grantId actor reason auditEventId) := by
  obtain ⟨files, heq | ⟨id, before, after, used, hbefore, hkeep, -, -, -, -, heq⟩⟩ :=
    revokeGrant_cases h env tenant grantId actor reason auditEventId
  · exact heq ▸ h.with_files
  · exact heq ▸ (h.settle hbefore hkeep).with_files

theorem GrantInv.with_calls (h : GrantInv host s) {calls stopped : List GrantCall}
    {created : List GrantRecord}
    (hchecked : ∀ draft checked, .checked draft checked ∈ calls →
      Normal draft ∧ ∃ approval, s.approvals checked.approvalId = some approval ∧
        bindsDraft host approval draft = true)
    (haccounted : ∀ granted, Accounted s granted →
      Accounted { s with calls := calls, stopped := stopped, created := created } granted) :
    GrantInv host { s with calls := calls, stopped := stopped, created := created } :=
  ⟨h.keyed, hchecked, h.consumed,
    fun id granted hmade => (h.issued id granted hmade).imp_right (haccounted granted), h.unique⟩

theorem GrantInv.erase_checked (h : GrantInv host s) (draft : NormalizedGrantDraft)
    (checked : CheckedApproval) :
    GrantInv host { s with calls := s.calls.erase (.checked draft checked) } :=
  h.with_calls
    (fun draft' checked' hcall => h.checked draft' checked' (List.mem_of_mem_erase hcall))
    fun _ => Or.imp_left fun hmem => (List.mem_erase_of_ne GrantCall.noConfusion).mpr hmem

theorem step_grantInv (laws : HostLaws host) {a : GrantAction} (h : GrantInv host s)
    (hstep : (grants host).step s a = some t) : GrantInv host t := by
  cases a with
  | request id approval =>
      obtain ⟨⟨hnew, hid, hnormal, hunused⟩, rfl⟩ := Option.ite_some_none_eq_some.mp hstep
      exact h.file hnew hid hnormal hunused
  | settle id approval =>
      obtain ⟨hkeep, rfl⟩ := Option.ite_some_none_eq_some.mp hstep
      obtain ⟨before, hbefore, hkeep⟩ := (Option.any_eq_true _ _).mp hkeep
      exact h.settle hbefore hkeep
  | check env draft approvalRequestId =>
      dsimp only [grants] at hstep
      split at hstep
      · exact Option.some.inj hstep ▸ h
      · rename_i normalized checked hchecks
        obtain rfl := Option.some.inj hstep
        obtain ⟨hnormal, hassert⟩ := grantStandingChecks_ok hchecks
        obtain ⟨id, approval, -, happroval, hid, hbinds⟩ := assertGrantApproval_ok hassert
        refine h.with_calls ?_ fun granted => Or.imp_left (List.mem_cons_of_mem _)
        intro draft' checked' hcall
        rcases List.mem_cons.mp hcall with hcall | hcall
        · obtain ⟨rfl, rfl⟩ := GrantCall.checked.inj hcall
          rw [hid, (h.keyed id approval happroval).1]
          exact ⟨hnormal, approval, happroval, hbinds⟩
        · exact h.checked draft' checked' hcall
  | consume draft checked env now hex =>
      obtain ⟨⟨hcall, hnew⟩, rfl⟩ := Option.ite_some_none_eq_some.mp hstep
      obtain ⟨hnormal, hbinds⟩ := h.checked draft checked hcall
      exact (h.erase_checked draft checked).consume laws hnormal hbinds
        (generateGrantId_ne_empty now hex) hnew
  | write record auditEventId =>
      obtain ⟨-, rfl⟩ := Option.ite_some_none_eq_some.mp hstep
      refine GrantInv.with_files (h.with_calls (fun draft' checked' hcall =>
        h.checked draft' checked' (List.mem_of_mem_erase hcall)) fun granted haccounted => ?_)
      rcases haccounted with hcall | hstopped | ⟨auditEventId', hcreated⟩
      · by_cases heq : granted = record
        · exact .inr (.inr ⟨auditEventId, heq ▸ List.mem_cons_self⟩)
        · exact .inl ((List.mem_erase_of_ne fun hcall => heq (GrantCall.consumed.inj hcall)).mpr
            hcall)
      · exact .inr (.inl hstopped)
      · exact .inr (.inr ⟨auditEventId', List.mem_cons_of_mem _ hcreated⟩)
  | stop call =>
      obtain ⟨-, rfl⟩ := Option.ite_some_none_eq_some.mp hstep
      refine h.with_calls (fun draft' checked' hcall =>
        h.checked draft' checked' (List.mem_of_mem_erase hcall)) fun granted haccounted => ?_
      rcases haccounted with hcall | hstopped | hcreated
      · by_cases heq : .consumed granted = call
        · exact .inr (.inl (heq ▸ List.mem_cons_self))
        · exact .inl ((List.mem_erase_of_ne heq).mpr hcall)
      · exact .inr (.inl (List.mem_cons_of_mem _ hstopped))
      · exact .inr (.inr hcreated)
  | revokeGrant env tenant grantId actor reason auditEventId =>
      exact Option.some.inj hstep ▸ h.revoke
  | edit tenant grantId content => exact Option.some.inj hstep ▸ h.with_files

theorem grantInv_of_reachable (laws : HostLaws host) (hs : (grants host).Reachable s) :
    GrantInv host s := by
  refine hs.invariant (fun s ⟨hnew, hcalls, hmade, hcreated, hstopped⟩ => ?_)
    fun s a t h _ hstep => step_grantInv laws h hstep
  refine ⟨fun id approval happroval => ?_, ?_, fun id approval used happroval hused hconsumer => ?_,
    ?_, ?_⟩
  · exact ⟨(hnew id approval happroval).1, (hnew id approval happroval).2.1⟩
  · simp [hcalls]
  · exact absurd hconsumer ((hnew id approval happroval).2.2 used hused)
  · simp [hmade]
  · simp [hmade]

/-- What no step takes back: grants that were made, and withdrawals. -/
structure Later (s t : GrantState) : Prop where
  made : ∀ entry ∈ s.made, entry ∈ t.made
  revoked : ∀ id approval, s.approvals id = some approval →
    approval.request.revocation.isSome = true →
      ∃ next, t.approvals id = some next ∧ next.request.revocation.isSome = true

theorem Later.refl : Later s s :=
  ⟨fun _ => id, fun _ approval h hrevoked => ⟨approval, h, hrevoked⟩⟩

theorem Later.trans {u : GrantState} (h : Later s t) (h' : Later t u) : Later s u := by
  refine ⟨fun entry hentry => h'.made entry (h.made entry hentry), ?_⟩
  intro id approval happroval hrevoked
  obtain ⟨next, hnext, hrevoked'⟩ := h.revoked id approval happroval hrevoked
  exact h'.revoked id next hnext hrevoked'

/-- Writing one approval that stays revoked if it was. -/
theorem Later.setApproval (hkept : ∀ before, s.approvals id = some before →
    before.request.revocation.isSome = true → after.request.revocation.isSome = true) :
    Later s (s.setApproval id after) := by
  refine ⟨fun _ hentry => hentry, fun id' approval happroval hrevoked => ?_⟩
  by_cases heq : id' = id
  · subst heq
    exact ⟨after, GrantState.setApproval_self .., hkept approval happroval hrevoked⟩
  · exact ⟨approval, (GrantState.setApproval_of_ne heq).trans happroval, hrevoked⟩

theorem Later.of_approvals (happrovals : t.approvals = s.approvals)
    (hmade : ∀ entry ∈ s.made, entry ∈ t.made) : Later s t :=
  ⟨hmade, fun _ approval happroval hrevoked => ⟨approval, happrovals ▸ happroval, hrevoked⟩⟩

theorem Later.consume (h : GrantInv host s) {env : CallEnv} {draft : NormalizedGrantDraft}
    {checked : CheckedApproval} {grantId : String} :
    Later s (consumeStep host env s draft checked grantId) := by
  unfold consumeStep
  cases hconsume : consumeForGrant host env s.approvals checked grantId with
  | error message => exact .refl
  | ok after =>
      obtain ⟨id, before, -, hbefore, -, hunrevoked, hafter⟩ := consumeForGrant_ok hconsume
      have hkey : after.request.id = id := by
        rw [hafter]
        exact (h.keyed id before hbefore).1
      have hlater : Later s (s.setApproval after.request.id after) := by
        refine .setApproval fun approval happroval hrevoked => ?_
        rw [hkey, hbefore] at happroval
        obtain rfl := Option.some.inj happroval
        rw [hunrevoked] at hrevoked
        cases hrevoked
      dsimp only
      split
      · exact hlater
      · exact ⟨fun entry hentry => List.mem_cons_of_mem _ hentry, hlater.revoked⟩

theorem Later.revoke (h : GrantInv host s) {env : CallEnv} {tenant : Option String}
    {grantId : String} {actor : GrantActor} {reason auditEventId : String} :
    Later s (revokeGrant host env s tenant grantId actor reason auditEventId) := by
  obtain ⟨files, heq | ⟨id, before, after, used, -, -, hrevoked, -, -, -, heq⟩⟩ :=
    revokeGrant_cases h env tenant grantId actor reason auditEventId
  · exact heq ▸ .of_approvals rfl fun _ hentry => hentry
  · have hlater : Later s (s.setApproval id after) := .setApproval fun _ _ _ => hrevoked
    exact heq ▸ hlater.trans (.of_approvals rfl fun _ hentry => hentry)

theorem step_later {a : GrantAction} (h : GrantInv host s)
    (hstep : (grants host).step s a = some t) : Later s t := by
  cases a with
  | request id approval =>
      obtain ⟨⟨hnew, -⟩, rfl⟩ := Option.ite_some_none_eq_some.mp hstep
      refine .setApproval fun before hbefore => ?_
      cases hnew.symm.trans hbefore
  | settle id approval =>
      obtain ⟨hkeep, rfl⟩ := Option.ite_some_none_eq_some.mp hstep
      obtain ⟨before, hbefore, hkeep⟩ := (Option.any_eq_true _ _).mp hkeep
      refine .setApproval fun before' hbefore' => ?_
      obtain rfl := Option.some.inj (hbefore.symm.trans hbefore')
      exact (keepsBasis_iff.mp hkeep).2.2.2.2
  | check env draft approvalRequestId =>
      dsimp only [grants] at hstep
      split at hstep
      · exact Option.some.inj hstep ▸ .refl
      · exact Option.some.inj hstep ▸ .of_approvals rfl fun _ hentry => hentry
  | consume draft checked env now hex =>
      obtain ⟨-, rfl⟩ := Option.ite_some_none_eq_some.mp hstep
      have hcalls : Later s { s with calls := s.calls.erase (.checked draft checked) } :=
        .of_approvals rfl fun _ hentry => hentry
      exact hcalls.trans (.consume (h.erase_checked draft checked))
  | write record auditEventId =>
      obtain ⟨-, rfl⟩ := Option.ite_some_none_eq_some.mp hstep
      exact .of_approvals rfl fun _ hentry => hentry
  | stop call =>
      obtain ⟨-, rfl⟩ := Option.ite_some_none_eq_some.mp hstep
      exact .of_approvals rfl fun _ hentry => hentry
  | revokeGrant env tenant grantId actor reason auditEventId =>
      exact Option.some.inj hstep ▸ .revoke h
  | edit tenant grantId content =>
      exact Option.some.inj hstep ▸ .of_approvals rfl fun _ hentry => hentry

theorem exec_later (laws : HostLaws host) {actions : List GrantAction} (h : GrantInv host s)
    (hexec : (grants host).exec s actions = some t) : GrantInv host t ∧ Later s t := by
  induction actions generalizing s with
  | nil =>
      obtain rfl := Option.some.inj hexec
      exact ⟨h, .refl⟩
  | cons a actions ih =>
      obtain ⟨u, hstep, hrest⟩ := Option.bind_eq_some_iff.mp hexec
      obtain ⟨hinv, hlater⟩ := ih (step_grantInv laws h hstep) hrest
      exact ⟨hinv, (step_later h hstep).trans hlater⟩

end Invariant

section Results

variable (host : GrantHost)

/-- A record of an external capability that is in a file and passes the check of its use. -/
def Accepts (s : GrantState) (record : GrantRecord) : Prop :=
  (∃ tenant grantId, loadGrant host s tenant grantId = some record) ∧
    isExternalIo host record.capability = true ∧ verifyGrantBasis host s.approvals record = true

/-- The approval that the record names. -/
def Names (record : GrantRecord) (id : String) : Prop :=
  ∃ basis, record.basis = some basis ∧
    normalizeApprovalRequestId host basis.approvalRequestId = .ok id

/-- Between the two states the approval of the grant is withdrawn. -/
def Withdraws (s t : GrantState) : Prop :=
  ∃ id before after, s.approvals id = some before ∧ before.request.revocation = none ∧
    t.approvals id = some after ∧ after.request.revocation.isSome = true

variable {host} {s t : GrantState} {record record' : GrantRecord} {id : String}

/-- An accepted record rests on an approval that was consumed for its grant and still stands. -/
theorem accepts_covered (h : Accepts host s record) :
    (validateGrantRecord host record).toBool = true ∧
      ∃ id approval, Names host record id ∧ s.approvals id = some approval ∧
        approval.request.revocation = none ∧ coversRecord host approval record = true := by
  obtain ⟨⟨tenant, grantId, hload⟩, hexternal, hverify⟩ := h
  refine ⟨(loadGrant_eq_some hload).1, ?_⟩
  unfold verifyGrantBasis at hverify
  unfold isExternalIo at hexternal
  cases hpolicy : requireStandingGrantPolicy host record.capability with
  | error message => simp [hpolicy] at hexternal
  | ok policy =>
      simp only [hpolicy] at hexternal hverify
      simp only [hexternal, Bool.not_true, Bool.false_eq_true, if_false, Option.any_eq_true,
        Bool.and_eq_true] at hverify
      obtain ⟨basis, hbasis, -, hverify⟩ := hverify
      cases hload : loadApprovalRequest host s.approvals basis.approvalRequestId with
      | error message => simp [hload] at hverify
      | ok located =>
          cases located with
          | none => simp [hload] at hverify
          | some approval =>
              simp only [hload, Bool.and_eq_true] at hverify
              unfold loadApprovalRequest at hload
              obtain ⟨id, hid, hlocated⟩ := Js.except_bind_ok hload
              exact ⟨id, approval, ⟨basis, hbasis, hid⟩, Except.ok.inj hlocated,
                Option.isNone_iff_eq_none.mp hverify.1.2, hverify.2⟩

theorem Names.unique {id' : String} (h : Names host record id) (h' : Names host record id') :
    id = id' := by
  obtain ⟨basis, hbasis, hid⟩ := h
  obtain ⟨basis', hbasis', hid'⟩ := h'
  obtain rfl := Option.some.inj (hbasis.symm.trans hbasis')
  exact Except.ok.inj (hid.symm.trans hid')

/-- The grant for which the approval of an accepted record was consumed. -/
theorem accepts_issued (laws : HostLaws host) (hinv : GrantInv host s) (h : Accepts host s record) :
    ∃ id approval granted, Names host record id ∧ s.approvals id = some approval ∧
      approval.request.revocation = none ∧ (id, granted) ∈ s.made ∧
      IssuedFor host id approval granted ∧ SameGrant host record granted := by
  obtain ⟨hvalid, id, approval, hnames, happroval, hunrevoked, hcovers⟩ := accepts_covered h
  obtain ⟨⟨used, hused, hconsumer, -⟩, -⟩ := coversRecord_iff.mp hcovers
  obtain ⟨granted, hmade⟩ := hinv.consumed id approval used happroval hused hconsumer
  obtain ⟨⟨approval', happroval', hissued⟩, -⟩ := hinv.issued id granted hmade
  obtain rfl := Option.some.inj (happroval.symm.trans happroval')
  exact ⟨id, approval, granted, hnames, happroval, hunrevoked, hmade, hissued,
    sameGrant_of_covers laws hvalid hcovers hissued⟩

/-- One approval, one grant. -/
theorem made_unique (hinv : GrantInv host s) {granted granted' : GrantRecord}
    (h : (id, granted) ∈ s.made) (h' : (id, granted') ∈ s.made) : granted = granted' := by
  obtain ⟨⟨approval, happroval, hissued⟩, -⟩ := hinv.issued id granted h
  obtain ⟨⟨approval', happroval', hissued'⟩, -⟩ := hinv.issued id granted' h'
  obtain rfl := Option.some.inj (happroval.symm.trans happroval')
  obtain ⟨⟨used, hused, -, href, -⟩, -⟩ := coversRecord_iff.mp hissued.covers
  obtain ⟨⟨used', hused', -, href', -⟩, -⟩ := coversRecord_iff.mp hissued'.covers
  obtain rfl := Option.some.inj (hused.symm.trans hused')
  have hgrantId : granted.grantId = granted'.grantId := Option.some.inj (href.symm.trans href')
  exact (Prod.mk.inj (hinv.unique _ h _ h' hgrantId)).2

/-- A withdrawal by `revokeGrant` is that of the approval consumed for the grant. -/
theorem withdraws_revoked (hinv : GrantInv host s) {env : CallEnv} {tenant : Option String}
    {grantId : String} {actor : GrantActor} {reason auditEventId : String}
    (hwithdraws : Withdraws s (revokeGrant host env s tenant grantId actor reason auditEventId)) :
    ∃ id granted after, (id, granted) ∈ s.made ∧ granted.grantId = grantId ∧
      (revokeGrant host env s tenant grantId actor reason auditEventId).approvals id = some after ∧
      after.request.revocation.isSome = true := by
  obtain ⟨id, before, after, hbefore, hunrevoked, hafter, hrevoked⟩ := hwithdraws
  obtain ⟨files, heq | ⟨id', before', after', used, hbefore', -, hwithdrawn, hused, hconsumer, href,
      heq⟩⟩ := revokeGrant_cases hinv env tenant grantId actor reason auditEventId
  · rw [heq] at hafter
    obtain rfl := Option.some.inj (hbefore.symm.trans hafter)
    rw [hunrevoked] at hrevoked
    cases hrevoked
  · obtain ⟨granted, hmade⟩ := hinv.consumed id' before' used hbefore' hused hconsumer
    refine ⟨id', granted, after', hmade, ?_, ?_, ?_⟩
    · obtain ⟨⟨approval, happroval, hissued⟩, -⟩ := hinv.issued id' granted hmade
      obtain rfl := Option.some.inj (hbefore'.symm.trans happroval)
      obtain ⟨⟨used', hused', -, href', -⟩, -⟩ := coversRecord_iff.mp hissued.covers
      obtain rfl := Option.some.inj (hused.symm.trans hused')
      exact Option.some.inj (href'.symm.trans href)
    · rw [heq]
      exact GrantState.setApproval_self ..
    · exact hwithdrawn

/-- A record that is accepted is, in every field that a use reads, the one grant for which the
approval it names was consumed; no approval backs two grant ids; and once a withdrawal has reached
the approval, nothing under the grant id is accepted again. -/
theorem grant_not_forged (laws : HostLaws host) (hs : (grants host).Reachable s) :
    (∀ record, Accepts host s record → ∃ id granted, Names host record id ∧
      SameGrant host record granted ∧ (∀ other, (id, other) ∈ s.made ↔ other = granted) ∧
      Accounted s granted) ∧
    (∀ actions t, (grants host).exec s actions = some t → ∀ record record' id,
      Accepts host s record → Accepts host t record' → Names host record id →
        Names host record' id → record.grantId = record'.grantId) ∧
    (∀ env tenant grantId actor reason auditEventId t,
      (grants host).step s (.revokeGrant env tenant grantId actor reason auditEventId) = some t →
        Withdraws s t → ∀ actions u, (grants host).exec t actions = some u →
          ∀ record, Accepts host u record → record.grantId ≠ grantId) := by
  have hinv := grantInv_of_reachable laws hs
  refine ⟨?_, ?_, ?_⟩
  · intro record haccepts
    obtain ⟨id, approval, granted, hnames, -, -, hmade, -, hsame⟩ :=
      accepts_issued laws hinv haccepts
    refine ⟨id, granted, hnames, hsame, fun other => ⟨fun h => made_unique hinv h hmade, ?_⟩,
      (hinv.issued id granted hmade).2⟩
    rintro rfl
    exact hmade
  · intro actions t hexec record record' id haccepts haccepts' hnames hnames'
    obtain ⟨hinv', hlater⟩ := exec_later laws hinv hexec
    obtain ⟨id₁, _, granted, hnames₁, -, -, hmade, -, hsame⟩ := accepts_issued laws hinv haccepts
    obtain ⟨id₂, _, granted', hnames₂, -, -, hmade', -, hsame'⟩ :=
      accepts_issued laws hinv' haccepts'
    obtain rfl := hnames.unique hnames₁
    obtain rfl := hnames'.unique hnames₂
    have heq := made_unique hinv' (hlater.made _ hmade) hmade'
    rw [hsame.grantId, hsame'.grantId, heq]
  · intro env tenant grantId actor reason auditEventId t hstep hwithdraws actions u hexec record
      haccepts hgrantId
    obtain ⟨hinv', hlater⟩ := exec_later laws (step_grantInv laws hinv hstep) hexec
    have hbefore := step_later hinv hstep
    obtain rfl := Option.some.inj hstep
    obtain ⟨id, granted, after, hmade, hid, hafter, hrevoked⟩ := withdraws_revoked hinv hwithdraws
    obtain ⟨id', approval, granted', -, happroval, hunrevoked, hmade', -, hsame⟩ :=
      accepts_issued laws hinv' haccepts
    -- the record is of the withdrawn grant, so it rests on the withdrawn approval
    have hentry := hinv'.unique _ hmade' _ (hlater.made _ (hbefore.made _ hmade))
      (hsame.grantId.symm.trans (hgrantId.trans hid.symm))
    obtain ⟨rfl, rfl⟩ := Prod.mk.inj hentry
    obtain ⟨next, hnext, hstill⟩ := hlater.revoked id' after hafter hrevoked
    obtain rfl := Option.some.inj (happroval.symm.trans hnext)
    rw [hunrevoked] at hstill
    cases hstill

end Results

/-- Two instants as their texts; every other one gets a text of its own. -/
def plainIsoString (ms : ℤ) : String :=
  if ms = 0 then "1970-01-01T00:00:00.000Z"
  else if ms = dayMs then "1970-01-02T00:00:00.000Z"
  else if 0 ≤ ms then String.ofList (List.replicate (ms.toNat + 1) '+')
  else String.ofList (List.replicate (-ms).toNat '-')

def plainDateParse (text : String) : Option ℤ :=
  if text = "1970-01-01T00:00:00.000Z" then some 0
  else if text = "1970-01-02T00:00:00.000Z" then some dayMs
  else match text.toList with
    | '+' :: rest => some rest.length
    | '-' :: rest => some (-(rest.length + 1))
    | _ => none

def plainGrantHost : GrantHost where
  unicode := ⟨id, id⟩
  dateParse := plainDateParse
  isoString := plainIsoString
  payloadHash := fun _ => ""
  sha256 := id
  parseUrl := fun _ => none
  isDateTime := fun _ => true
  capabilityPolicy := fun capability =>
    if capability = "credential.use" then
      some (.standingGrant ⟨[.tenantSlug, .credentialProvider], true, 30⟩)
    else none
  approvalPolicy := ⟨.warn, fun _ _ => none, false⟩

theorem plainGrantHost_laws : HostLaws plainGrantHost := by
  refine ⟨Function.injective_id, fun ms => ?_, by decide +kernel⟩
  have hne : ∀ (c : Char) (n : ℕ) (text : String), text.toList.head? ≠ some c →
      String.ofList (List.replicate (n + 1) c) ≠ text := by
    rintro c n text hhead rfl
    simp [List.replicate_succ] at hhead
  change plainDateParse (plainIsoString ms) = some ms
  unfold plainIsoString
  split
  · rename_i hzero
    rw [hzero]
    decide +kernel
  · split
    · rename_i hday
      rw [hday]
      decide +kernel
    · split
      · rename_i hpos
        rw [plainDateParse, if_neg (hne _ _ _ (by decide)),
          if_neg (hne _ _ _ (by decide)), String.toList_ofList, List.replicate_succ]
        simp only [List.length_replicate]
        congr 1
        omega
      · obtain ⟨n, hn⟩ : ∃ n, (-ms).toNat = n + 1 := ⟨(-ms).toNat - 1, by omega⟩
        rw [hn, plainDateParse, if_neg (hne _ _ _ (by decide)),
          if_neg (hne _ _ _ (by decide)), String.toList_ofList, List.replicate_succ]
        simp only [List.length_replicate]
        congr 1
        omega

def mailDraft : GrantDraft where
  capability := "credential.use"
  tenantSlug := "acme"
  credentialProvider := some "mail"
  purpose := "send invoices"
  ttlDays := some 1

def mailNormalized : NormalizedGrantDraft where
  capability := "credential.use"
  tenantSlug := some "acme"
  credentialProvider := some "mail"
  credentialRef := none
  meetingSeriesIds := []
  meetingUrls := []
  purpose := "send invoices"
  ttlDays := 1

def mailApprovalId : String := "00000000-0000-0000-0000-000000000000"

def mailApproval : GrantApproval where
  request :=
    { id := mailApprovalId, kind := .channelApproval, storageChannel := "grant-standing",
      channel := "grant-standing", status := .approved }
  accountability := some
    { payloadHash := some (computeApprovalPayloadHash plainGrantHost
        (grantApprovalPayload mailNormalized))
      effectBinding := some (grantApprovalEffectBinding mailNormalized) }
  roles := [
    { role := "sovereign", status := .approved, approvedBy := some "user:owner"
      authMethod := some .passkey, decidedByType := some .human, authenticated := some true
      payloadHash := some (computeApprovalPayloadHash plainGrantHost
        (grantApprovalPayload mailNormalized))
      effectBinding := some (grantApprovalEffectBinding mailNormalized) }]

def mailChecked : CheckedApproval := ⟨mailApprovalId, "user:owner", .a3, .sovereign⟩

def mailGrant : GrantRecord where
  grantId := "GRT-19700101-0123456789ab"
  capability := "credential.use"
  scope := { tenantSlug := some "acme", credentialProvider := some "mail" }
  purpose := "send invoices"
  grantedBy := ⟨"user:owner", .sovereign, .a3⟩
  basis := some ⟨mailApprovalId, "grant-standing"⟩
  grantedAt := "1970-01-01T00:00:00.000Z"
  expiresAt := "1970-01-02T00:00:00.000Z"
  auditEventId := "pending"

def noGrants : GrantState where
  approvals := fun _ => none
  files := fun _ _ => none
  calls := []
  made := []
  created := []
  stopped := []

theorem grant_not_forged_after_grant : ∃ s, Accepts plainGrantHost s
      { mailGrant with auditEventId := "AUD-1" } ∧
    ∃ id granted, (∀ other, (id, other) ∈ s.made ↔ other = granted) ∧
      mailGrant.grantId = granted.grantId := by
  obtain ⟨s, hs, hload, hexternal, hverify⟩ := Transition.System.exists_reachable_of_exec
    (S := grants plainGrantHost) (s := noGrants)
    [.request mailApprovalId mailApproval, .check ⟨0, false⟩ mailDraft mailApprovalId,
      .consume mailNormalized mailChecked ⟨0, false⟩ 0 "0123456789ab", .write mailGrant "AUD-1"]
    (fun s => loadGrant plainGrantHost s (some "acme") mailGrant.grantId =
        some { mailGrant with auditEventId := "AUD-1" } ∧
      isExternalIo plainGrantHost mailGrant.capability = true ∧
      verifyGrantBasis plainGrantHost s.approvals { mailGrant with auditEventId := "AUD-1" } = true)
    ⟨(fun _ _ h => nomatch h), rfl, rfl, rfl, rfl⟩ (by decide +kernel)
  have haccepts : Accepts plainGrantHost s { mailGrant with auditEventId := "AUD-1" } :=
    ⟨⟨_, _, hload⟩, hexternal, hverify⟩
  obtain ⟨id, granted, -, hsame, hunique, -⟩ :=
    (grant_not_forged plainGrantHost_laws hs).1 _ haccepts
  exact ⟨s, haccepts, id, granted, hunique, hsame.grantId⟩

end Kyberion.Grant
