import Kyberion.Work.Writes

/-!
Who holds the effects of an item. Recorded ownership is read back as it was
written; without it the metadata of a targeted dot stand for a hold. The lemmas
say what each kind of written snapshot does to either.
-/

namespace Kyberion.Work

open Js (Json textLt)
open Approval (Host)

/-- The item's effects are held. -/
structure Holds (host : Host) (item : WorkItem) (hold : WorkEffectOwnership) : Prop where
  owned : workEffectOwnership host item = .ok (some hold)
  held : hold.state = .held

section Lines

variable {host : Host} {x : WorkItem}

theorem line_effectOwnership (x : WorkItem) : x.line.effectOwnership = x.effectOwnership := by
  obtain ⟨attempts, h⟩ := boundItemAttempts_eq x
  show (boundItemAttempts x).effectOwnership = x.effectOwnership
  rw [h]

theorem line_context (x : WorkItem) : x.line.context = x.context := by
  obtain ⟨attempts, h⟩ := boundItemAttempts_eq x
  show (boundItemAttempts x).context = x.context
  rw [h]

theorem line_metadata (x : WorkItem) : x.line.metadata = x.metadata.map Metadata.persisted := by
  obtain ⟨attempts, h⟩ := boundItemAttempts_eq x
  show (boundItemAttempts x).metadata.map _ = x.metadata.map _
  rw [h]

theorem Metadata.get_persisted (m : Option Metadata) (key : String) :
    Metadata.get (m.map Metadata.persisted) key = (Metadata.get m key).map Json.printed := by
  cases m with
  | none => rfl
  | some m =>
      show (Json.printedFields m.fields).lookup key = (m.fields.lookup key).map Json.printed
      induction m.fields with
      | nil => rfl
      | cons field fields ih =>
          obtain ⟨k, v⟩ := field
          rw [Json.printedFields, Js.lookup_field, Js.lookup_field]
          by_cases hk : key = k
          · rw [if_pos hk, if_pos hk, Option.map_some]
          · rw [if_neg hk, if_neg hk, ih]

theorem Metadata.get_merge (base : Option Metadata) (extra : Metadata) (key : String) :
    Metadata.get (some (Metadata.merge base extra)) key =
      (Metadata.get (some extra) key).or (Metadata.get base key) := by
  cases base with
  | none => simp [Metadata.merge, Metadata.get]
  | some base => exact Js.lookup_spread base.fields extra.fields key

/-- Recorded ownership is read back, where it is well formed, and hides the metadata. -/
theorem workEffectOwnership_recorded {hold : WorkEffectOwnership} {r : Option WorkEffectOwnership}
    (hx : x.effectOwnership = some hold) :
    workEffectOwnership host x = .ok r ↔
      hold.settledWell = true ∧ hold.wellFormed = true ∧ r = some hold := by
  simp only [workEffectOwnership, hx, Js.throwIf_eq_ok, Bool.not_eq_true', Bool.not_eq_false,
    Except.ok.injEq]
  exact and_congr_right fun _ => and_congr_right fun _ => eq_comm

theorem workEffectOwnership_unrecorded (hx : x.effectOwnership = none) :
    workEffectOwnership host x = legacyEffectOwnership host x := by
  rw [workEffectOwnership, hx]

theorem holds_recorded {hold held : WorkEffectOwnership} (hx : x.effectOwnership = some hold) :
    Holds host x held ↔ held = hold ∧ hold.state = .held ∧ hold.wellFormed = true := by
  constructor
  · rintro ⟨howned, hheld⟩
    obtain ⟨-, hwell, heq⟩ := (workEffectOwnership_recorded hx).mp howned
    obtain rfl := Option.some.inj heq
    exact ⟨rfl, hheld, hwell⟩
  · rintro ⟨rfl, hheld, hwell⟩
    refine ⟨(workEffectOwnership_recorded hx).mpr ⟨?_, hwell, rfl⟩, hheld⟩
    simp [WorkEffectOwnership.settledWell, hheld]

/-- Nothing in the metadata stands for a targeted dot. -/
def Undotted (m : Option Metadata) : Prop :=
  (∀ dot, Metadata.get m "dot_id" ≠ some (.str dot)) ∨ Metadata.get m "target" = none

theorem legacyEffectOwnership_undotted (h : Undotted x.metadata) :
    ∀ hold, legacyEffectOwnership host x ≠ .ok (some hold) := by
  intro hold heq
  unfold legacyEffectOwnership at heq
  split at heq
  · rename_i dot hdot
    rcases h with hnot | hnone
    · exact hnot dot hdot
    · simp [declaredWorkTarget, hnone, bind, Except.bind] at heq
  · cases heq

theorem Undotted.persisted {m : Option Metadata} (h : Undotted m) :
    Undotted (m.map Metadata.persisted) := by
  rcases h with hnot | hnone
  · refine .inl fun dot hdot => ?_
    rw [Metadata.get_persisted] at hdot
    obtain ⟨v, hv, hprinted⟩ := Option.map_eq_some_iff.mp hdot
    -- only a text prints as a text
    cases v with
    | str s => exact hnot s hv
    | num n => cases n <;> cases hprinted
    | _ => cases hprinted
  · refine .inr ?_
    rw [Metadata.get_persisted, hnone, Option.map_none]

theorem Undotted.merge {m : Option Metadata} {extra : Metadata} (h : Undotted m)
    (hdot : Metadata.get (some extra) "dot_id" = none)
    (htarget : Metadata.get (some extra) "target" = none) :
    Undotted (some (Metadata.merge m extra)) := by
  unfold Undotted
  rw [Metadata.get_merge, Metadata.get_merge, hdot, htarget]
  exact h

/-- What is stored reads back as it is. -/
theorem line_line (x : WorkItem) : x.line.line = x.line := by
  have hfields (m : Metadata) : m.persisted.persisted = m.persisted := by
    simp only [Metadata.persisted, Metadata.mk.injEq, and_true]
    exact Json.printedFields_of_exact _ (Json.exactFields_printed _)
  have hmeta (m : Option Metadata) :
      (m.map Metadata.persisted).map Metadata.persisted = m.map Metadata.persisted := by
    cases m with
    | none => rfl
    | some m => rw [Option.map_some, Option.map_some, hfields]
  have hattempt (a : WorkItemAttempt) : a.persisted.persisted = a.persisted := by
    simp only [WorkItemAttempt.persisted, hmeta]
  have hbound (y : WorkItem) : boundItemAttempts (boundItemAttempts y).persisted =
      (boundItemAttempts y).persisted := by
    unfold boundItemAttempts
    cases hy : y.attempts with
    | none => simp [WorkItem.persisted, hy]
    | some attempts =>
        by_cases hle : attempts.length ≤ maxRetainedItemAttempts
        · simp [WorkItem.persisted, hy, hle]
        · simp [WorkItem.persisted, hle]
          omega
  show (boundItemAttempts (boundItemAttempts x).persisted).persisted =
    (boundItemAttempts x).persisted
  rw [hbound]
  generalize boundItemAttempts x = y
  unfold WorkItem.persisted
  simp only [WorkItem.mk.injEq, true_and, hmeta, and_true]
  cases y.attempts with
  | none => rfl
  | some attempts =>
      simp only [Option.map_some, List.map_map, Option.some.injEq, List.map_inj_left,
        Function.comp_apply]
      exact fun a _ => hattempt a

end Lines

section Legacy

variable (host : Host) (item : WorkItem)

def dotExecutor : Option Json :=
  Metadata.get item.metadata "dot_executor"

/-- Until when an operator has verified the dot, as a text. -/
def verifiedUntil : String :=
  (textField (dotExecutor item) "operator_verified_at").getD ""

/-- An attempt ran out of its lease after that. -/
def hasExpiredAttempt : Bool :=
  item.attemptList.any fun a => a.failureReason = some "lease_expired" &&
    textLt (verifiedUntil item) (host.isoString (a.endedAt.getD a.startedAt))

/-- The dot was blocked after that, and not escalated. -/
def isUncertain : Bool :=
  textField (dotExecutor item) "status" = some "blocked" &&
    textField (dotExecutor item) "mode" ≠ some "escalated" &&
    textLt (verifiedUntil item) (stringField (dotExecutor item) "completed_at")

/-- The attempt that an adopted hold names. -/
def legacyAttempt : String :=
  (item.currentAttemptId.or (item.attemptList.getLast?.map (·.runId))).getD
    ("legacy:" ++ item.itemId)

/-- The hold that an item without recorded ownership stands for. -/
structure Adopts (hold : WorkEffectOwnership) : Prop where
  dot : ∃ dot, Metadata.get item.metadata "dot_id" = some (.str dot)
  target : declaredWorkTarget item = .ok (some hold.target)
  unsettled : item.status = .inProgress ∨ hasExpiredAttempt host item = true ∨
    isUncertain item = true
  attempt : hold.attemptId = legacyAttempt item
  tenant : hold.tenantSlug = truthy (item.context.bind (·.tenantSlug))
  held : hold.state = .held

variable {host item}

theorem declaredWorkTarget_none (h : declaredWorkTarget item = .ok none) :
    Metadata.get item.metadata "target" = none := by
  unfold declaredWorkTarget at h
  split at h
  · assumption
  · cases (Js.throwIf_eq_ok.mp h).2
  · cases h

theorem legacyEffectOwnership_ok {r : Option WorkEffectOwnership}
    (h : legacyEffectOwnership host item = .ok r) :
    (∃ hold, r = some hold ∧ Adopts host item hold) ∨
      r = none ∧ (Undotted item.metadata ∨ item.status ≠ .inProgress ∧
        hasExpiredAttempt host item = false ∧ isUncertain item = false) := by
  unfold legacyEffectOwnership at h
  split at h
  · rename_i dot hdot
    obtain ⟨declared, hdeclared, h⟩ := Js.except_bind_ok h
    cases declared with
    | none =>
        obtain rfl := Except.ok.inj h
        exact .inr ⟨rfl, .inl (.inr (declaredWorkTarget_none hdeclared))⟩
    | some target =>
        dsimp only at h
        split at h
        · rename_i hsettled
          obtain rfl := Except.ok.inj h
          simp only [Bool.and_eq_true, decide_eq_true_eq, Bool.not_eq_true'] at hsettled
          exact .inr ⟨rfl, .inr ⟨hsettled.1.1, hsettled.1.2, hsettled.2⟩⟩
        · rename_i hunsettled
          obtain rfl := Except.ok.inj h
          refine .inl ⟨_, rfl, ⟨dot, hdot⟩, hdeclared, ?_, rfl, rfl, rfl⟩
          by_contra hnot
          simp only [not_or, Bool.not_eq_true] at hnot
          apply hunsettled
          simp only [Bool.and_eq_true, decide_eq_true_eq, Bool.not_eq_true']
          exact ⟨⟨hnot.1, hnot.2.1⟩, hnot.2.2⟩
  · rename_i hdot
    obtain rfl := Except.ok.inj h
    exact .inr ⟨rfl, .inl (.inl hdot)⟩

/-- A targeted dot that is not settled is adopted. -/
theorem adopts_of_unsettled {target : String}
    (hdot : ∃ dot, Metadata.get item.metadata "dot_id" = some (.str dot))
    (htarget : declaredWorkTarget item = .ok (some target))
    (hunsettled : item.status = .inProgress ∨ hasExpiredAttempt host item = true ∨
      isUncertain item = true) :
    ∃ hold, legacyEffectOwnership host item = .ok (some hold) ∧ Adopts host item hold := by
  have hsome : Metadata.get item.metadata "target" ≠ none := by
    intro hnone
    simp [declaredWorkTarget, hnone] at htarget
  cases hlegacy : legacyEffectOwnership host item with
  | error e =>
      obtain ⟨dot, hdot⟩ := hdot
      unfold legacyEffectOwnership at hlegacy
      simp only [hdot, htarget, bind, Except.bind] at hlegacy
      split at hlegacy <;> cases hlegacy
  | ok r =>
      rcases legacyEffectOwnership_ok hlegacy with ⟨hold, rfl, hadopts⟩ | ⟨-, hundotted | hsettled⟩
      · exact ⟨hold, rfl, hadopts⟩
      · rcases hundotted with hnot | hnone
        · obtain ⟨dot, hdot⟩ := hdot
          exact absurd hdot (hnot dot)
        · exact absurd hnone hsome
      · simp [hsettled] at hunsettled

/-- An item whose effects nobody owns has none recorded, and no dot at work in its metadata. -/
theorem unowned_ok (h : workEffectOwnership host item = .ok none) :
    item.effectOwnership = none ∧ (item.status = .inProgress → Undotted item.metadata) := by
  cases hrecorded : item.effectOwnership with
  | some hold =>
      obtain ⟨-, -, heq⟩ := (workEffectOwnership_recorded hrecorded).mp h
      cases heq
  | none =>
      rw [workEffectOwnership_unrecorded hrecorded] at h
      refine ⟨rfl, fun hrunning => ?_⟩
      rcases legacyEffectOwnership_ok h with ⟨hold, hsome, -⟩ | ⟨-, hundotted | hsettled⟩
      · cases hsome
      · exact hundotted
      · exact absurd hrunning hsettled.1

theorem not_holds_undotted {hold : WorkEffectOwnership} (hx : item.effectOwnership = none)
    (h : Undotted item.metadata) : ¬ Holds host item.line hold := by
  rintro ⟨howned, -⟩
  rw [workEffectOwnership_unrecorded (by rw [line_effectOwnership, hx])] at howned
  refine legacyEffectOwnership_undotted ?_ hold howned
  rw [line_metadata]
  exact h.persisted

end Legacy

section Settlements

variable {host : Host} {item : WorkItem} {hold : WorkEffectOwnership}

/-- A settlement is recorded for the attempt that holds, or there is nothing to settle. -/
theorem settledWorkEffect_ok {settlement : Settlement} {at_ : ℤ} {r : Option WorkEffectOwnership}
    (h : settledWorkEffect host item settlement at_ = .ok r) :
    (workEffectOwnership host item = .ok none ∧ r = none) ∨
      ∃ hold settled, workEffectOwnership host item = .ok (some hold) ∧ r = some settled ∧
        settled.state = .settled ∧
          (hold.state = .held → some hold.attemptId = item.currentAttemptId) := by
  unfold settledWorkEffect at h
  obtain ⟨owned, howned, h⟩ := Js.except_bind_ok h
  cases owned with
  | none => exact .inl ⟨howned, (Except.ok.inj h).symm⟩
  | some hold =>
      dsimp only at h
      split at h
      · rename_i hsettled
        obtain rfl := Except.ok.inj h
        exact .inr ⟨hold, hold, howned, rfl, hsettled, fun hheld => by simp [hsettled] at hheld⟩
      · obtain ⟨hattempt, h⟩ := Js.throwIf_eq_ok.mp h
        obtain rfl := Except.ok.inj h
        exact .inr ⟨hold, _, howned, rfl, rfl, fun _ => not_not.mp hattempt⟩

theorem prepareEffectSettlement_ok {input : ReleaseWorkItemInput} {now : ℤ}
    {r : Option WorkEffectOwnership} (h : prepareEffectSettlement host item input now = .ok r) :
    (input.effectDisposition = none ∧ workEffectOwnership host item = .ok r) ∨
      ∃ disposition, input.effectDisposition = some disposition ∧
        settledWorkEffect host item disposition.settlement now = .ok r := by
  unfold prepareEffectSettlement at h
  cases hdisposition : input.effectDisposition with
  | none =>
      rw [hdisposition] at h
      exact .inl ⟨rfl, h⟩
  | some disposition =>
      rw [hdisposition] at h
      exact .inr ⟨disposition, rfl, (Js.throwIf_eq_ok.mp h).2⟩

theorem findHeldWorkTarget_none {items : List WorkItem} {target : String} {tenant : Option String}
    (h : findHeldWorkTarget host items target tenant = .ok none) :
    ∀ other ∈ items, ∀ held, Holds host other held → held.tenantSlug = tenant →
      workTargetsOverlap target held.target = false := by
  induction items with
  | nil => simp
  | cons first items ih =>
      obtain ⟨owned, howned, h⟩ := Js.except_bind_ok h
      split at h
      · cases h
      · rename_i hfree
        intro other hmem held hheld htenant
        rcases List.mem_cons.mp hmem with rfl | hrest
        · obtain rfl := Except.ok.inj (howned.symm.trans hheld.owned)
          simpa [hheld.held, htenant] using hfree
        · exact ih h other hrest held hheld htenant

theorem assertEffectClaimable_ok {items : List WorkItem} {target : Option String}
    (h : assertEffectClaimable host item items = .ok target) :
    (∀ held, ¬ Holds host item held) ∧ declaredWorkTarget item = .ok target ∧
      ∀ declared, target = some declared →
        findHeldWorkTarget host items declared (item.context.bind (·.tenantSlug)) = .ok none := by
  unfold assertEffectClaimable at h
  obtain ⟨owned, howned, h⟩ := Js.except_bind_ok h
  obtain ⟨hfree, h⟩ := Js.throwIf_eq_ok.mp h
  refine ⟨fun held hheld => ?_, ?_⟩
  · obtain rfl := Except.ok.inj (howned.symm.trans hheld.owned)
    exact hfree (by simp [isHeld, hheld.held])
  · obtain ⟨declared, hdeclared, h⟩ := Js.except_bind_ok h
    cases declared with
    | none =>
        obtain rfl := Except.ok.inj h
        exact ⟨hdeclared, nofun⟩
    | some declared =>
        obtain ⟨found, hfound, h⟩ := Js.except_bind_ok h
        cases found with
        | some other => cases h
        | none =>
            obtain rfl := Except.ok.inj h
            refine ⟨hdeclared, fun d hd => ?_⟩
            obtain rfl := Option.some.inj hd
            exact hfound

/-- Quarantine keeps the hold of the attempt, or sets one up where there is none. -/
theorem quarantineHold_ok {env : Env} {attemptId : String} {input : QuarantineInput}
    (h : quarantineHold env item attemptId input = .ok hold) :
    Holds env.host item hold ∨
      (∃ owned, workEffectOwnership env.host item = .ok owned ∧ isHeld owned = false) ∧
        hold.tenantSlug = truthy (item.context.bind (·.tenantSlug)) := by
  unfold quarantineHold at h
  obtain ⟨owned, howned, h⟩ := Js.except_bind_ok h
  cases hfilter : owned.filter fun hold => hold.state = .held with
  | some held =>
      rw [hfilter] at h
      obtain ⟨-, h⟩ := Js.throwIf_eq_ok.mp h
      obtain rfl := Except.ok.inj h
      obtain ⟨rfl, hheld⟩ := Option.filter_eq_some_iff.mp hfilter
      exact .inl ⟨howned, by simpa using hheld⟩
  | none =>
      rw [hfilter] at h
      obtain ⟨target, -, h⟩ := Js.except_bind_ok h
      obtain rfl := Except.ok.inj h
      refine .inr ⟨⟨owned, howned, ?_⟩, rfl⟩
      cases owned with
      | none => rfl
      | some owned => simpa [isHeld, Option.filter_eq_none_iff] using hfilter

end Settlements

section Snapshots

variable {env : Env} {current x : WorkItem} {hold : WorkEffectOwnership}

theorem updated_effectOwnership (env : Env) (current : WorkItem) (input : UpdateWorkItemInput)
    (hold : Option WorkEffectOwnership) (lease : Option WorkLease) (clear : Bool) :
    (nextItemSnapshot env current (patchWorkItem env current input hold) lease clear).effectOwnership =
      hold.or current.effectOwnership := by
  unfold nextItemSnapshot patchWorkItem
  dsimp only
  cases updateClearsLease input (input.status.getD current.status) <;> cases clear <;>
    cases lease <;> rfl

theorem updated_context (env : Env) (current : WorkItem) (input : UpdateWorkItemInput)
    (hold : Option WorkEffectOwnership) (lease : Option WorkLease) (clear : Bool) :
    (nextItemSnapshot env current (patchWorkItem env current input hold) lease clear).context =
      input.context.or current.context := by
  unfold nextItemSnapshot patchWorkItem
  dsimp only
  cases updateClearsLease input (input.status.getD current.status) <;> cases clear <;>
    cases lease <;> rfl

/-- While effects are held, an update leaves the scope as it is. -/
theorem assertUpdateAllowed_context {input : UpdateWorkItemInput} {context : WorkItemContext}
    (h : assertUpdateAllowed env current input = .ok ()) (hheld : Holds env.host current hold)
    (hcontext : input.context = some context) :
    boundScope context = boundScope (current.context.getD {}) := by
  unfold assertUpdateAllowed at h
  obtain ⟨-, -, h⟩ := Js.except_bind_ok h
  dsimp only at h
  by_contra hne
  split at h
  · rw [hheld.owned] at h
    obtain ⟨owned, howned, h⟩ := Js.except_bind_ok h
    obtain rfl := Except.ok.inj howned
    obtain ⟨_, hfree, -⟩ := Js.except_bind_ok h
    exact (Js.throwIf_eq_ok.mp hfree).1 (by simp [isHeld, hheld.held])
  · rw [hcontext] at h
    dsimp only at h
    split at h
    · obtain ⟨fixed, hfixed, h⟩ := Js.except_bind_ok h
      exact (Js.throwIf_eq_ok.mp h).1 ⟨(Except.ok.inj hfixed).symm, hne⟩
    · rw [hheld.owned] at h
      obtain ⟨fixed, hfixed, h⟩ := Js.except_bind_ok h
      refine (Js.throwIf_eq_ok.mp h).1 ⟨?_, hne⟩
      rw [← Except.ok.inj hfixed]
      simp [isHeld, hheld.held]

/-- Recovery records who owns the effects, or there is no dot whose effects could be owned. -/
theorem recoveredItem_ok {at_ : ℤ} {options : ReapWorkLeasesOptions}
    (h : recoveredItem env at_ options current = .ok x) (hrunning : current.status = .inProgress) :
    ((∃ hold, workEffectOwnership env.host current = .ok (some hold) ∧
        x.effectOwnership = some hold) ∨
      workEffectOwnership env.host current = .ok none ∧ x.effectOwnership = none ∧
        Undotted x.metadata) ∧ x.context = current.context := by
  unfold recoveredItem at h
  obtain ⟨owned, howned, h⟩ := Js.except_bind_ok h
  obtain rfl := Except.ok.inj h
  refine ⟨?_, rfl⟩
  cases owned with
  | some hold => exact .inl ⟨hold, howned, rfl⟩
  | none =>
      obtain ⟨hnone, hundotted⟩ := unowned_ok howned
      refine .inr ⟨howned, hnone, ?_⟩
      dsimp only
      split
      · refine (hundotted hrunning).merge ?_ ?_ <;> simp [parkedMetadata, Metadata.get, Js.lookup_field]
      · exact hundotted hrunning

theorem replayedItem_ok {at_ : ℤ} (h : replayedItem env at_ current = .ok x)
    (hrunning : current.status = .inProgress) :
    (∃ hold settled, workEffectOwnership env.host current = .ok (some hold) ∧
        x.effectOwnership = some settled ∧ settled.state = .settled ∧
        (hold.state = .held → some hold.attemptId = current.currentAttemptId)) ∨
      workEffectOwnership env.host current = .ok none ∧ x.effectOwnership = none ∧
        Undotted x.metadata := by
  unfold replayedItem at h
  obtain ⟨settled, hsettled, h⟩ := Js.except_bind_ok h
  obtain rfl := Except.ok.inj h
  rcases settledWorkEffect_ok hsettled with ⟨hnone, rfl⟩ | ⟨hold, s, howned, rfl, hs, hattempt⟩
  · refine .inr ⟨hnone, rfl, ((unowned_ok hnone).2 hrunning).merge ?_ ?_⟩ <;>
      simp [Metadata.get, Js.lookup_field]
  · exact .inl ⟨hold, s, howned, rfl, hs, hattempt⟩

theorem prepareHumanEffectRelease_effect {host : Host} {separationEnabled : Bool}
    {approval : Option WorkEffectReleaseApproval} {item next : WorkItem}
    {input : EffectReleaseInput} {at_ : ℤ}
    (h : prepareHumanEffectRelease host separationEnabled approval (some item) input at_ =
      .ok next) :
    ∃ hold settled record, Holds host item hold ∧ next.effectOwnership = some settled ∧
      settled.state = .settled ∧
      assertWorkEffectReleaseApproval host separationEnabled approval item hold = .ok record := by
  unfold prepareHumanEffectRelease at h
  obtain ⟨-, -, h⟩ := Js.except_bind_ok h
  obtain ⟨owned, howned, h⟩ := Js.except_bind_ok h
  cases owned with
  | none => cases h
  | some hold =>
      obtain ⟨hchecks, h⟩ := Js.throwIf_eq_ok.mp h
      obtain ⟨record, hrecord, h⟩ := Js.except_bind_ok h
      obtain rfl := Except.ok.inj h
      simp only [not_or, ne_eq, Decidable.not_not] at hchecks
      exact ⟨hold, _, record, ⟨howned, hchecks.1⟩, rfl, rfl, hrecord⟩

theorem line_status (x : WorkItem) : x.line.status = x.status := by
  obtain ⟨attempts, h⟩ := boundItemAttempts_eq x
  show (boundItemAttempts x).status = x.status
  rw [h]

/-- Every attempt of a line is one of the snapshot's, but for its metadata. -/
theorem line_attempt {a : WorkItemAttempt} (ha : a ∈ x.line.attemptList) :
    ∃ b ∈ x.attemptList, b.failureReason = a.failureReason ∧ b.endedAt = a.endedAt ∧
      b.startedAt = a.startedAt := by
  have hbound : ∀ b ∈ (boundItemAttempts x).attemptList, b ∈ x.attemptList := by
    intro b hb
    unfold boundItemAttempts at hb
    split at hb
    · exact hb
    · rename_i attempts hattempts
      split at hb
      · exact hb
      · rw [WorkItem.attemptList, hattempts]
        exact List.mem_of_mem_drop hb
  cases hattempts : (boundItemAttempts x).attempts with
  | none => simp [WorkItem.attemptList, WorkItem.line, WorkItem.persisted, hattempts] at ha
  | some attempts =>
      simp only [WorkItem.attemptList, WorkItem.line, WorkItem.persisted, hattempts,
        Option.map_some, Option.getD_some, List.mem_map] at ha
      obtain ⟨b, hb, rfl⟩ := ha
      exact ⟨b, hbound b (by simpa [WorkItem.attemptList, hattempts] using hb), rfl, rfl, rfl⟩

/-- The attempts that the reaper closes in a stopped item are no reason to adopt it. -/
theorem reconciledItem_adopts {at_ : ℤ} {running : WorkItemAttempt} {host : Host}
    (hline : current.line = current) (hunrecorded : current.effectOwnership = none)
    (h : Holds host (reconciledItem at_ current running).line hold) :
    ∃ old, Holds host current old ∧ old.target = hold.target ∧ old.tenantSlug = hold.tenantSlug := by
  have hmetadata : (reconciledItem at_ current running).line.metadata = current.metadata := by
    rw [line_metadata]
    show current.metadata.map Metadata.persisted = current.metadata
    rw [← line_metadata, hline]
  have howned := h.owned
  rw [workEffectOwnership_unrecorded (by rw [line_effectOwnership]; exact hunrecorded)] at howned
  rcases legacyEffectOwnership_ok howned with ⟨held, hheld, hadopts⟩ | ⟨hnone, -⟩
  · obtain rfl := Option.some.inj hheld
    have hexecutor : dotExecutor (reconciledItem at_ current running).line = dotExecutor current := by
      rw [dotExecutor, hmetadata, dotExecutor]
    have hverified : verifiedUntil (reconciledItem at_ current running).line =
        verifiedUntil current := by
      rw [verifiedUntil, hexecutor, verifiedUntil]
    have htarget : declaredWorkTarget current = .ok (some hold.target) := by
      rw [← hadopts.target]
      unfold declaredWorkTarget
      rw [hmetadata]
    have hunsettled : current.status = .inProgress ∨ hasExpiredAttempt host current = true ∨
        isUncertain current = true := by
      rcases hadopts.unsettled with hrunning | hexpired | huncertain
      · exact .inl ((line_status (reconciledItem at_ current running)).symm.trans hrunning)
      · refine .inr (.inl ?_)
        obtain ⟨a, ha, hlate⟩ := List.any_eq_true.mp hexpired
        obtain ⟨b, hb, hfailure, hended, hstarted⟩ := line_attempt ha
        rw [hverified, ← hfailure, ← hended, ← hstarted] at hlate
        refine List.any_eq_true.mpr ⟨b, ?_, hlate⟩
        -- the closed attempt has another reason
        rcases List.mem_or_eq_of_mem_set hb with hold | rfl
        · exact hold
        · simp at hlate
      · refine .inr (.inr ?_)
        rw [isUncertain, hexecutor, hverified] at huncertain
        exact huncertain
    obtain ⟨old, hlegacy, hold⟩ := adopts_of_unsettled (hmetadata ▸ hadopts.dot) htarget hunsettled
    refine ⟨old, ⟨(workEffectOwnership_unrecorded hunrecorded).trans hlegacy, hold.held⟩, ?_, ?_⟩
    · have heq := hold.target.symm.trans htarget
      exact Option.some.inj (Except.ok.inj heq)
    · rw [hold.tenant, hadopts.tenant, line_context]
      rfl
  · cases hnone

end Snapshots

end Kyberion.Work
