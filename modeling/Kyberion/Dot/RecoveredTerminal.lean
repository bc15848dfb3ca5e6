import Kyberion.Dot.ActionRuns
import Kyberion.Dot.CurrentAction

/-!
A recovered action is terminal: its current record no longer changes, and its receipt was written over
the parked record that it names.
-/

namespace Kyberion.Dot

variable {D : Type}

section Steps

variable {s t : Runs D} {p : ℕ}

/-- Only `p` moves: the others stand where they stood and hold what they held. -/
structure Moves (s t : Runs D) (p : ℕ) : Prop where
  phase : ∀ q, q ≠ p → t.phase q = s.phase q
  ledger : ∀ q, q ≠ p → s.ledger = some q → t.ledger = some q
  fences : ∀ q, q ≠ p → ∀ key, s.fences key = some q → t.fences key = some q

theorem Moves.refl (s : Runs D) (p : ℕ) : Moves s s p where
  phase _ _ := rfl
  ledger _ _ h := h
  fences _ _ _ h := h

theorem Moves.enter (h : Moves s t p) (phase : Phase D) : Moves s (t.enter p phase) p where
  phase q hq := (Function.update_of_ne hq _ _).trans (h.phase q hq)
  ledger := h.ledger
  fences := h.fences

theorem Moves.releaseLedger (h : Moves s t p) : Moves s (t.releaseLedger p) p where
  phase := h.phase
  ledger q hq hs := by
    have ht := h.ledger q hq hs
    simp [Runs.releaseLedger, ht, hq]
  fences := h.fences

theorem Moves.releaseFences (h : Moves s t p) (kept : Option String) :
    Moves s (t.releaseFences p kept) p where
  phase := h.phase
  ledger := h.ledger
  fences q hq key hs := by
    have ht := h.fences q hq key hs
    simp [Runs.releaseFences, ht, hq]

theorem Moves.stop (h : Moves s t p) : Moves s (t.stop p) p :=
  (h.releaseLedger.releaseFences none).enter .idle

theorem Moves.takeLedger {s : Runs D} (hfree : s.ledger = none) (p : ℕ) :
    Moves s { s with ledger := some p } p where
  phase _ _ := rfl
  ledger q _ hs := by
    rw [hfree] at hs
    cases hs
  fences _ _ _ hs := hs

@[simp] theorem enter_phase (s : Runs D) (p : ℕ) (phase : Phase D) :
    (s.enter p phase).phase p = phase :=
  Function.update_self _ _ _

@[simp] theorem stop_phase (s : Runs D) (p : ℕ) : (s.stop p).phase p = .idle :=
  Function.update_self _ _ _

@[simp] theorem stop_files (s : Runs D) (p : ℕ) : (s.stop p).files = s.files := rfl

@[simp] theorem stop_seen (s : Runs D) (p : ℕ) : (s.stop p).seen = s.seen := rfl

theorem Moves.finishAppend (h : Moves s t p) (frame : Frame D) :
    Moves s (finishAppend t p frame) p := by
  unfold Dot.finishAppend
  split
  · exact h.stop
  · exact (h.releaseLedger.releaseFences _).enter _

theorem finishAppend_rest (s : Runs D) (p : ℕ) (frame : Frame D) :
    (finishAppend s p frame).files = s.files ∧ (finishAppend s p frame).seen = s.seen ∧
      ((finishAppend s p frame).phase p = .idle ∨ ∃ expected receipt,
        (finishAppend s p frame).phase p = .declineReadback expected receipt) := by
  unfold finishAppend
  split
  · exact ⟨rfl, rfl, .inl (stop_phase s p)⟩
  · exact ⟨rfl, rfl, .inr ⟨_, _, enter_phase _ p _⟩⟩

/-- A fence is taken when it is free or held already; a binding that does not parse ends the call. -/
theorem takeFence_cases {host : Host D} {binding : Option FrontDeskExecutionBinding}
    {next : Phase D} (h : takeFence host s p binding next = some t) :
    Moves s t p ∧ t.files = s.files ∧ t.seen = s.seen ∧
      (t.phase p = .idle ∨ t.phase p = next ∧ t.ledger = s.ledger ∧
        ∀ b, binding = some b → t.fences b.workItemId = some p) := by
  unfold takeFence at h
  split at h
  · obtain rfl := Option.some.inj h
    exact ⟨(Moves.refl s p).enter next, rfl, rfl, .inr ⟨enter_phase s p next, rfl, nofun⟩⟩
  · rename_i b
    split at h
    · split at h
      · rename_i hfree
        obtain rfl := Option.some.inj h
        refine ⟨⟨fun q hq => Function.update_of_ne hq _ _, fun _ _ hs => hs, fun q hq key hs => ?_⟩,
          rfl, rfl, .inr ⟨enter_phase _ p next, rfl, fun b' hb => ?_⟩⟩
        · refine (Function.update_of_ne ?_ _ _).trans hs
          rintro rfl
          rw [hfree] at hs
          cases hs
        · obtain rfl := Option.some.inj hb
          exact Function.update_self _ _ _
      · rename_i holder hheld
        obtain ⟨rfl, rfl⟩ := Option.ite_some_none_eq_some.mp h
        refine ⟨(Moves.refl s holder).enter next, rfl, rfl, .inr ⟨enter_phase s holder next, rfl, ?_⟩⟩
        intro b' hb
        obtain rfl := Option.some.inj hb
        exact hheld
    · obtain rfl := Option.some.inj h
      exact ⟨(Moves.refl s p).stop, rfl, rfl, .inl (stop_phase s p)⟩

end Steps

section Invariant

variable [DecidableEq D] (host : Host D) (dotId actionRef : String) (binding : FrontDeskExecutionBinding)

def Ours (record : DotActionRecord D) : Prop :=
  record.dotId = dotId ∧ record.actionRef = actionRef

def CarriesReceipt (files : Ledger D) : Prop :=
  ∃ r, Current host files dotId actionRef r ∧ r.recoveryReceipt.isSome = true

/-- The action has no row, or a current record without a receipt. -/
def Unrecovered (files : Ledger D) : Prop :=
  currentRow files dotId actionRef = none ∨
    ∃ r, Current host files dotId actionRef r ∧ r.recoveryReceipt = none

/-- What a receipt may be written over: the record it names, parked and without a work item. -/
def Recoverable (files : Ledger D) (receipt : RecoveryReceipt D) : Prop :=
  ∃ latest, Current host files dotId actionRef latest ∧ latest.status = .parked ∧
    present latest.workItemId = none ∧ host.dotActionRecordHash latest = receipt.actionHash

/-- A record of the action on its way: its receipt is current, or it declines the current record. -/
structure FrameOk (files : Ledger D) (frame : Frame D) : Prop where
  bound : frame.record.frontDeskExecution = some binding
  stale : frame.recovering = none → frame.record.recoveryReceipt.isSome = true →
    CarriesReceipt host dotId actionRef files
  recovering : ∀ expected receipt, frame.recovering = some (expected, receipt) →
    frame.record.recoveryReceipt = some receipt ∧ Recoverable host dotId actionRef files receipt

def HoldsFence (s : Runs D) (p : ℕ) : Prop :=
  s.fences binding.workItemId = some p

def PhaseOk (s : Runs D) (p : ℕ) : Phase D → Prop
  | .append frame => Ours dotId actionRef frame.record →
      FrameOk host dotId actionRef binding s.files frame ∧
        (frame.recovering.isSome = true → HoldsFence binding s p)
  | .fenced frame => Ours dotId actionRef frame.record →
      FrameOk host dotId actionRef binding s.files frame ∧ HoldsFence binding s p
  | .locked frame => s.ledger = some p ∧ (Ours dotId actionRef frame.record →
      FrameOk host dotId actionRef binding s.files frame ∧ HoldsFence binding s p)
  | .scopedAppend frame _ => s.ledger = some p ∧ (Ours dotId actionRef frame.record →
      FrameOk host dotId actionRef binding s.files frame ∧ HoldsFence binding s p ∧
        Unrecovered host dotId actionRef s.files)
  | .indexAppend frame row => s.ledger = some p ∧ rowKey row = rowKey frame.record ∧
      (Ours dotId actionRef frame.record →
        FrameOk host dotId actionRef binding s.files frame ∧ HoldsFence binding s p ∧
          Unrecovered host dotId actionRef s.files)
  | .decline expected _ => Ours dotId actionRef expected →
      expected.frontDeskExecution = some binding
  | .declineFenced expected _ => Ours dotId actionRef expected →
      expected.frontDeskExecution = some binding ∧ HoldsFence binding s p
  | .migrating charter rest done _ => s.ledger = some p ∧
      ∃ processed, s.files.rows = processed ++ rest ∧
        done = processed.map (migratedRow host charter)
  | .idle | .declineReadback _ _ | .migrate _ => True

structure Inv (s : Runs D) : Prop where
  phases : ∀ p, PhaseOk host dotId actionRef binding s p (s.phase p)
  seen : ∀ r, (dotId, r) ∈ s.seen → r.actionRef = actionRef → r.recoveryReceipt.isSome = true →
    CarriesReceipt host dotId actionRef s.files

/-- The invariant after a step, and a current record with a receipt still current. -/
structure Advances (s t : Runs D) : Prop where
  inv : Inv host dotId actionRef binding t
  stays : ∀ r, Current host s.files dotId actionRef r → r.recoveryReceipt.isSome = true →
    Current host t.files dotId actionRef r

variable {host dotId actionRef binding} {s t : Runs D} {p : ℕ} {files files' : Ledger D}
  {frame : Frame D} {a : Label D}

theorem Unrecovered.not_carries (h : Unrecovered host dotId actionRef files) :
    ¬ CarriesReceipt host dotId actionRef files := by
  rintro ⟨r, hr, hreceipt⟩
  rcases h with hnone | ⟨r', hr', hnone⟩
  · obtain ⟨row, -, hrow, -⟩ := hr
    rw [hnone] at hrow
    cases hrow
  · rw [hr.unique hr', hnone] at hreceipt
    cases hreceipt

/-- Whatever is current stays current. -/
def Keeps (host : Host D) (dotId actionRef : String) (files files' : Ledger D) : Prop :=
  ∀ r, Current host files dotId actionRef r → Current host files' dotId actionRef r

theorem Keeps.frameOk (hk : Keeps host dotId actionRef files files')
    (h : FrameOk host dotId actionRef binding files frame) :
    FrameOk host dotId actionRef binding files' frame where
  bound := h.bound
  stale hnone hreceipt := by
    obtain ⟨r, hr, hsome⟩ := h.stale hnone hreceipt
    exact ⟨r, hk r hr, hsome⟩
  recovering expected receipt heq := by
    obtain ⟨hreceipt, latest, hlatest, hrest⟩ := h.recovering expected receipt heq
    exact ⟨hreceipt, latest, hk latest hlatest, hrest⟩

/-- A process that does not move. -/
theorem PhaseOk.keep {q : ℕ} {phase : Phase D}
    (h : PhaseOk host dotId actionRef binding s q phase)
    (hledger : s.ledger = some q → t.ledger = some q ∧ t.files = s.files)
    (hfence : HoldsFence binding s q → HoldsFence binding t q)
    (hframe : ∀ frame, FrameOk host dotId actionRef binding s.files frame →
      (frame.recovering.isSome = true → HoldsFence binding s q) →
      FrameOk host dotId actionRef binding t.files frame) :
    PhaseOk host dotId actionRef binding t q phase := by
  cases phase with
  | idle => trivial
  | append frame =>
      intro hours
      obtain ⟨hok, hheld⟩ := h hours
      exact ⟨hframe frame hok hheld, fun hsome => hfence (hheld hsome)⟩
  | fenced frame =>
      intro hours
      obtain ⟨hok, hheld⟩ := h hours
      exact ⟨hframe frame hok fun _ => hheld, hfence hheld⟩
  | locked frame =>
      refine ⟨(hledger h.1).1, fun hours => ?_⟩
      obtain ⟨hok, hheld⟩ := h.2 hours
      exact ⟨hframe frame hok fun _ => hheld, hfence hheld⟩
  | scopedAppend frame file =>
      refine ⟨(hledger h.1).1, fun hours => ?_⟩
      obtain ⟨hok, hheld, hclear⟩ := h.2 hours
      exact ⟨hframe frame hok fun _ => hheld, hfence hheld, (hledger h.1).2 ▸ hclear⟩
  | indexAppend frame row =>
      refine ⟨(hledger h.1).1, h.2.1, fun hours => ?_⟩
      obtain ⟨hok, hheld, hclear⟩ := h.2.2 hours
      exact ⟨hframe frame hok fun _ => hheld, hfence hheld, (hledger h.1).2 ▸ hclear⟩
  | decline expected receipt => exact h
  | declineFenced expected receipt => exact fun hours => ⟨(h hours).1, hfence (h hours).2⟩
  | declineReadback expected receipt => trivial
  | migrate charter => trivial
  | migrating charter rest done migrated =>
      refine ⟨(hledger h.1).1, ?_⟩
      rw [(hledger h.1).2]
      exact h.2

/-- A step that leaves current records current. -/
theorem Inv.advances (h : Inv host dotId actionRef binding s) (hm : Moves s t p)
    (hfiles : t.files = s.files ∨ s.ledger = some p)
    (hk : Keeps host dotId actionRef s.files t.files) (hseen : t.seen = s.seen)
    (hown : PhaseOk host dotId actionRef binding t p (t.phase p)) :
    Advances host dotId actionRef binding s t where
  inv := by
    constructor
    · intro q
      by_cases hq : q = p
      · exact hq ▸ hown
      · rw [hm.phase q hq]
        refine (h.phases q).keep (fun hledger => ⟨hm.ledger q hq hledger, ?_⟩)
          (hm.fences q hq _) fun frame hok _ => hk.frameOk hok
        refine hfiles.resolve_right fun hp => hq ?_
        exact Option.some.inj (hledger.symm.trans hp)
    · intro r hr href hreceipt
      rw [hseen] at hr
      obtain ⟨r', hr', hsome⟩ := h.seen r hr href hreceipt
      exact ⟨r', hk r' hr', hsome⟩
  stays r hr _ := hk r hr

/-- A step that touches no file. -/
theorem Inv.quiet (h : Inv host dotId actionRef binding s) (hm : Moves s t p)
    (hfiles : t.files = s.files) (hseen : t.seen = s.seen)
    (hown : PhaseOk host dotId actionRef binding t p (t.phase p)) :
    Advances host dotId actionRef binding s t :=
  h.advances hm (.inl hfiles) (fun _ hr => hfiles ▸ hr) hseen hown

/-- A row of the action written while no receipt is current, by the holder of its fence. -/
theorem Inv.overwritten (h : Inv host dotId actionRef binding s) (hm : Moves s t p)
    (hledger : s.ledger = some p) (hfence : HoldsFence binding s p)
    (hclear : Unrecovered host dotId actionRef s.files) (hseen : t.seen = s.seen)
    (hown : PhaseOk host dotId actionRef binding t p (t.phase p)) :
    Advances host dotId actionRef binding s t where
  inv := by
    constructor
    · intro q
      by_cases hq : q = p
      · exact hq ▸ hown
      · rw [hm.phase q hq]
        refine (h.phases q).keep (fun hq' => absurd (Option.some.inj (hq'.symm.trans hledger)) hq)
          (hm.fences q hq _) fun frame hok hheld => ⟨hok.bound, ?_, ?_⟩
        · exact fun hnone hreceipt => absurd (hok.stale hnone hreceipt) hclear.not_carries
        · intro expected receipt heq
          have hsame := (hheld (by rw [heq]; rfl)).symm.trans hfence
          exact absurd (Option.some.inj hsame) hq
    · intro _ hr href hreceipt
      rw [hseen] at hr
      exact absurd (h.seen _ hr href hreceipt) hclear.not_carries
  stays _ hr hreceipt := absurd ⟨_, hr, hreceipt⟩ hclear.not_carries

/-- What a writer that may write has read: the action is not recovered. -/
theorem appendStep_unrecovered {nhi : Option String} {record : DotActionRecord D}
    {step : AppendStep D} (h : appendStep host nhi files record = .ok step)
    (hours : Ours dotId actionRef record) (hbound : record.frontDeskExecution = some binding)
    (hstep : ∀ current, step ≠ .returned current) : Unrecovered host dotId actionRef files := by
  obtain ⟨rfl, rfl⟩ := hours
  unfold appendStep at h
  obtain ⟨current, hcurrent, h⟩ := Js.except_bind_ok h
  simp only [currentForWrite, hbound] at hcurrent
  obtain ⟨actions, hactions, hcurrent⟩ := Js.except_bind_ok hcurrent
  obtain rfl := Except.ok.inj hcurrent
  have hfind := currentDotActions_find hactions record.actionRef
  split at h
  · cases h
    exact absurd rfl (hstep _)
  · rename_i hnone
    cases hrow : actions.find? fun row => row.actionRef = record.actionRef with
    | none =>
        rw [hrow] at hfind
        exact .inl hfind
    | some row =>
        rw [hrow] at hfind hnone
        refine .inr ⟨row, hfind, ?_⟩
        simpa using hnone

/-- What a decline appends: the current record, parked, with the receipt that names it. -/
theorem declineStep_append {nhi : Option String} {expected record : DotActionRecord D}
    {receipt : RecoveryReceipt D} {request : FrontDeskRequest D}
    (h : declineStep host nhi files expected receipt request = .ok (.append record)) :
    ∃ latest, record = recoveredRecord latest receipt ∧
      Current host files expected.dotId expected.actionRef latest ∧
      latest.actionRef = expected.actionRef ∧ latest.status = .parked ∧
      present latest.workItemId = none ∧
      host.dotActionRecordHash latest = receipt.actionHash ∧
      host.dotActionRecordHash expected = receipt.actionHash := by
  unfold declineStep at h
  obtain ⟨-, h⟩ := Js.throwIf_eq_ok.mp h
  obtain ⟨rows, hrows, h⟩ := Js.except_bind_ok h
  cases hlast : (rows.filter fun row => row.actionRef = expected.actionRef).getLast? with
  | none => rw [hlast] at h; cases h
  | some latest =>
      have hmem := List.mem_of_getLast? hlast
      simp only [List.mem_filter, decide_eq_true_eq] at hmem
      simp only [hlast] at h
      split at h
      · cases h
      · simp only [Js.throwIf_eq_ok] at h
        obtain ⟨hchecks, -, h⟩ := h
        obtain ⟨-, -, h⟩ := Js.except_bind_ok h
        cases h
        simp only [not_or, ne_eq, not_not, Bool.not_eq_true, Option.isSome_eq_false_iff,
          Option.isNone_iff_eq_none] at hchecks
        exact ⟨latest, rfl, readDotActionLedgerStrict_last hrows hlast, hmem.2, hchecks.1,
          hchecks.2.1, hchecks.2.2.1, hchecks.2.2.2⟩

/-- A scoped row leaves what is current. -/
theorem keeps_appendScoped (files : Ledger D) (file : String) (row : DotActionRecord D) :
    Keeps host dotId actionRef files (files.appendScoped file row) :=
  fun _ hr => hr.mono (extends_appendScoped files file row) rfl

theorem Unrecovered.appendScoped (h : Unrecovered host dotId actionRef files) (file : String)
    (row : DotActionRecord D) : Unrecovered host dotId actionRef (files.appendScoped file row) := by
  rcases h with hnone | ⟨r, hr, hreceipt⟩
  · exact .inl hnone
  · exact .inr ⟨r, keeps_appendScoped files file row r hr, hreceipt⟩

theorem carriesBinding_append {record : DotActionRecord D}
    (hok : carriesBinding dotId actionRef binding s (.append p record) = true)
    (hours : Ours dotId actionRef record) :
    record.frontDeskExecution = some binding ∧ (record.recoveryReceipt = none ∨
      ∃ known, (dotId, known) ∈ s.seen ∧ known.actionRef = actionRef ∧
        known.recoveryReceipt = record.recoveryReceipt) := by
  obtain ⟨hdot, href⟩ := hours
  simp only [carriesBinding, hdot, href, decide_true, Bool.and_self, Bool.not_true, Bool.false_or,
    Bool.and_eq_true, decide_eq_true_eq, Bool.or_eq_true, Option.isNone_iff_eq_none,
    List.any_eq_true] at hok
  refine hok.imp_right (Or.imp_right ?_)
  rintro ⟨⟨asked, known⟩, hknown, ⟨hasked, href⟩, heq⟩
  exact ⟨known, hasked ▸ hknown, href, heq⟩

section Labels

variable (h : Inv host dotId actionRef binding s)

include h

theorem Inv.stop (p : ℕ) : Advances host dotId actionRef binding s (s.stop p) :=
  h.quiet (Moves.refl s p).stop rfl rfl (by rw [stop_phase]; trivial)

theorem Inv.stay : Advances host dotId actionRef binding s s :=
  ⟨h, fun _ hr _ => hr⟩

theorem Inv.enter {phase : Phase D} (hown : PhaseOk host dotId actionRef binding s p phase) :
    Advances host dotId actionRef binding s (s.enter p phase) := by
  refine h.quiet ((Moves.refl s p).enter phase) rfl rfl ?_
  rw [enter_phase]
  exact hown.keep (fun hledger => ⟨hledger, rfl⟩) id fun _ hok _ => hok

theorem Inv.finishAppend (frame : Frame D) :
    Advances host dotId actionRef binding s (finishAppend s p frame) := by
  obtain ⟨hfiles, hseen, hphase⟩ := finishAppend_rest s p frame
  refine h.quiet ((Moves.refl s p).finishAppend frame) hfiles hseen ?_
  rcases hphase with heq | ⟨expected, receipt, heq⟩ <;> rw [heq] <;> trivial

/-- A call of `appendActionRecord` starts. -/
theorem Inv.startAppend {record : DotActionRecord D}
    (hok : carriesBinding dotId actionRef binding s (.append p record) = true) :
    Advances host dotId actionRef binding s (s.enter p (.append { record := record })) := by
  refine h.enter fun hours => ?_
  obtain ⟨hbound, hreceipt⟩ := carriesBinding_append hok hours
  refine ⟨⟨hbound, fun _ hsome => ?_, by simp⟩, by simp⟩
  rcases hreceipt with hnone | ⟨known, hknown, href, heq⟩
  · rw [hnone] at hsome
    cases hsome
  · rw [← heq] at hsome
    exact h.seen known hknown href hsome

theorem Inv.fence (hstep : step host s (.fence p) = some t) :
    Advances host dotId actionRef binding s t := by
  have hp := h.phases p
  simp only [Dot.step] at hstep
  split at hstep
  · rename_i frame hphase
    rw [hphase] at hp
    obtain ⟨hm, hfiles, hseen, hidle | ⟨hnext, -, hheld⟩⟩ := takeFence_cases hstep
    · exact h.quiet hm hfiles hseen (by rw [hidle]; trivial)
    · refine h.quiet hm hfiles hseen ?_
      rw [hnext]
      intro hours
      obtain ⟨hframe, -⟩ := hp hours
      rw [hfiles]
      exact ⟨hframe, hheld binding hframe.bound⟩
  · rename_i expected receipt hphase
    rw [hphase] at hp
    obtain ⟨hm, hfiles, hseen, hidle | ⟨hnext, -, hheld⟩⟩ := takeFence_cases hstep
    · exact h.quiet hm hfiles hseen (by rw [hidle]; trivial)
    · refine h.quiet hm hfiles hseen ?_
      rw [hnext]
      exact fun hours => ⟨hp hours, hheld binding (hp hours)⟩
  · cases hstep

theorem Inv.lock (hstep : step host s (.lock p) = some t) :
    Advances host dotId actionRef binding s t := by
  have hp := h.phases p
  simp only [Dot.step, Dot.takeLedger] at hstep
  split at hstep
  · rename_i frame hphase
    rw [hphase] at hp
    obtain ⟨hfree, rfl⟩ := Option.ite_some_none_eq_some.mp hstep
    refine h.quiet ((Moves.takeLedger hfree p).enter _) rfl rfl ?_
    rw [enter_phase]
    exact ⟨rfl, hp⟩
  · rename_i charter hphase
    obtain ⟨hfree, heq⟩ := Option.ite_some_none_eq_some.mp hstep
    split at heq
    · subst heq
      refine h.quiet ((Moves.takeLedger hfree p).enter _) rfl rfl ?_
      rw [enter_phase]
      exact ⟨rfl, [], rfl, rfl⟩
    · subst heq
      exact h.quiet (Moves.takeLedger hfree p).stop rfl rfl (by rw [stop_phase]; trivial)
  · cases hstep

/-- What a decline found of the action holds while its fence does. -/
theorem Inv.check {nhi : Option String} {request : FrontDeskRequest D}
    (hhash : ∀ r r' : DotActionRecord D, host.dotActionRecordHash r = host.dotActionRecordHash r' →
      r.dotId = r'.dotId ∧ r.frontDeskExecution = r'.frontDeskExecution)
    (hstep : step host s (.check p nhi request) = some t) :
    Advances host dotId actionRef binding s t := by
  have hp := h.phases p
  simp only [Dot.step] at hstep
  split at hstep
  · rename_i expected receipt hphase
    rw [hphase] at hp
    split at hstep
    · rename_i record hdecline
      obtain rfl := Option.some.inj hstep
      obtain ⟨latest, rfl, hcurrent, href, hparked, hitem, hlatest, hexpected⟩ :=
        declineStep_append hdecline
      obtain ⟨hdot, hbinding⟩ := hhash latest expected (hlatest.trans hexpected.symm)
      refine h.enter fun hours => ?_
      -- the record is the current one of the action that was asked for
      obtain ⟨rfl, rfl⟩ : expected.dotId = dotId ∧ expected.actionRef = actionRef :=
        ⟨hdot.symm.trans hours.1, href.symm.trans hours.2⟩
      obtain ⟨hbound, hheld⟩ := hp ⟨rfl, rfl⟩
      refine ⟨⟨hbinding.trans hbound, by simp, fun _ _ heq => ?_⟩, fun _ => hheld⟩
      obtain ⟨rfl, rfl⟩ := Prod.mk.inj (Option.some.inj heq)
      exact ⟨rfl, latest, hcurrent, hparked, hitem, hlatest⟩
    · obtain rfl := Option.some.inj hstep
      exact h.stop p
  · cases hstep

theorem Inv.guard {nhi : Option String} (hstep : step host s (.guard p nhi) = some t) :
    Advances host dotId actionRef binding s t := by
  have hp := h.phases p
  simp only [Dot.step] at hstep
  split at hstep
  · rename_i frame hphase
    rw [hphase] at hp
    obtain ⟨hledger, hours⟩ := hp
    split at hstep
    · obtain rfl := Option.some.inj hstep
      exact h.finishAppend frame
    · rename_i file happend
      obtain rfl := Option.some.inj hstep
      refine h.enter ⟨hledger, fun hour => ?_⟩
      obtain ⟨hframe, hheld⟩ := hours hour
      exact ⟨hframe, hheld, appendStep_unrecovered happend hour hframe.bound (by simp)⟩
    · rename_i happend
      obtain rfl := Option.some.inj hstep
      refine h.enter ⟨hledger, rfl, fun hour => ?_⟩
      obtain ⟨hframe, hheld⟩ := hours hour
      exact ⟨hframe, hheld, appendStep_unrecovered happend hour hframe.bound (by simp)⟩
    · obtain rfl := Option.some.inj hstep
      exact h.stop p
  · cases hstep

theorem Inv.scopedAppend (hstep : step host s (.scopedAppend p) = some t) :
    Advances host dotId actionRef binding s t := by
  have hp := h.phases p
  simp only [Dot.step] at hstep
  split at hstep
  · rename_i frame file hphase
    rw [hphase] at hp
    obtain ⟨hledger, hours⟩ := hp
    obtain rfl := Option.some.inj hstep
    have hkeeps : Keeps host dotId actionRef s.files (s.files.appendScoped file frame.record) :=
      keeps_appendScoped s.files file frame.record
    refine h.advances (t := Runs.enter _ p _) ⟨fun q hq => Function.update_of_ne hq _ _,
      fun _ _ hs => hs, fun _ _ _ hs => hs⟩ (.inr hledger) hkeeps rfl ?_
    rw [enter_phase]
    refine ⟨hledger, rfl, fun hour => ?_⟩
    obtain ⟨hframe, hheld, hclear⟩ := hours hour
    exact ⟨hkeeps.frameOk hframe, hheld, hclear.appendScoped file frame.record⟩
  · cases hstep

theorem Inv.indexAppend (hstep : step host s (.indexAppend p) = some t) :
    Advances host dotId actionRef binding s t := by
  have hp := h.phases p
  simp only [Dot.step] at hstep
  split at hstep
  · rename_i frame row hphase
    rw [hphase] at hp
    obtain ⟨hledger, hrow, hours⟩ := hp
    obtain rfl := Option.some.inj hstep
    obtain ⟨hfiles, hseen, hphase'⟩ :=
      finishAppend_rest { s with files := s.files.appendIndex row } p frame
    have hm : Moves s (Dot.finishAppend { s with files := s.files.appendIndex row } p frame) p :=
      Moves.finishAppend (s := s) (t := { s with files := s.files.appendIndex row })
        ⟨fun _ _ => rfl, fun _ _ hs => hs, fun _ _ _ hs => hs⟩ frame
    have hown : PhaseOk host dotId actionRef binding
        (Dot.finishAppend { s with files := s.files.appendIndex row } p frame) p
        ((Dot.finishAppend { s with files := s.files.appendIndex row } p frame).phase p) := by
      rcases hphase' with heq | ⟨expected, receipt, heq⟩ <;> rw [heq] <;> trivial
    by_cases hour : Ours dotId actionRef frame.record
    · obtain ⟨-, hheld, hclear⟩ := hours hour
      exact h.overwritten hm hledger hheld hclear hseen hown
    · have hother : ¬ (row.dotId = dotId ∧ row.actionRef = actionRef) := fun hrow' => by
        have hkey := Prod.mk.inj (Option.some.inj hrow)
        exact hour ⟨hkey.1.symm.trans hrow'.1, hkey.2.symm.trans hrow'.2⟩
      have hext : Extends s.files (s.files.appendIndex row) := Extends.refl s.files
      have hkeeps : Keeps host dotId actionRef s.files (s.files.appendIndex row) := fun _ hr =>
        hr.mono hext (currentRow_appendIndex_of_ne hother)
      refine h.advances hm (.inr hledger) ?_ hseen hown
      rw [hfiles]
      exact hkeeps
  · cases hstep

theorem Inv.migrateRow (hstep : step host s (.migrateRow p) = some t) :
    Advances host dotId actionRef binding s t := by
  have hp := h.phases p
  simp only [Dot.step] at hstep
  split at hstep
  · rename_i charter row rest done migrated hphase
    rw [hphase] at hp
    obtain ⟨hledger, processed, hrows, rfl⟩ := hp
    have hsnoc : s.files.rows = (processed ++ [row]) ++ rest := by
      rw [hrows, List.append_assoc, List.singleton_append]
    split at hstep
    · rename_i hkept
      obtain rfl := Option.some.inj hstep
      refine h.enter ⟨hledger, processed ++ [row], hsnoc, ?_⟩
      have hsame : migratedRow host charter row = row := by
        unfold migratedRow
        rw [hkept]
      rw [List.map_append, List.map_singleton, hsame]
    · rename_i file full hmigrated
      obtain rfl := Option.some.inj hstep
      refine h.advances (t := Runs.enter _ p _) ⟨fun q hq => Function.update_of_ne hq _ _,
        fun _ _ hs => hs, fun _ _ _ hs => hs⟩ (.inr hledger)
        (keeps_appendScoped s.files file full) rfl ?_
      rw [enter_phase]
      refine ⟨hledger, processed ++ [row], hsnoc, ?_⟩
      rw [List.map_append, List.map_singleton]
    · obtain rfl := Option.some.inj hstep
      exact h.stop p
  · cases hstep

theorem Inv.migrateWrite (hstep : step host s (.migrateWrite p) = some t) :
    Advances host dotId actionRef binding s t := by
  have hp := h.phases p
  simp only [Dot.step] at hstep
  split at hstep
  · rename_i charter done migrated hphase
    rw [hphase] at hp
    obtain ⟨hledger, processed, hrows, rfl⟩ := hp
    rw [List.append_nil] at hrows
    obtain rfl := Option.some.inj hstep
    split
    · have hkeeps : Keeps host dotId actionRef s.files { s.files with
          index := (processed.map (migratedRow host charter)).map some } := by
        intro r hr
        have hrows' : Ledger.rows { s.files with
            index := (processed.map (migratedRow host charter)).map some } =
              s.files.rows.map (migratedRow host charter) := by
          rw [hrows, Ledger.rows, List.filterMap_map]
          simp
        exact hr.migrated hrows' rfl
      exact h.advances (Moves.stop ⟨fun _ _ => rfl, fun _ _ hs => hs, fun _ _ _ hs => hs⟩)
        (.inr hledger) hkeeps rfl (by rw [stop_phase]; trivial)
    · exact h.stop p
  · cases hstep

theorem Inv.read {nhi : Option String} {asked : String}
    (hstep : step host s (.read nhi asked) = some t) :
    Advances host dotId actionRef binding s t := by
  simp only [Dot.step] at hstep
  split at hstep
  · rename_i actions hactions
    obtain rfl := Option.some.inj hstep
    refine ⟨⟨fun q => ?_, fun r hr href hreceipt => ?_⟩, fun _ hr _ => hr⟩
    · exact (h.phases q).keep (fun hledger => ⟨hledger, rfl⟩) id fun _ hok _ => hok
    · rcases List.mem_append.mp hr with hold | hnew
      · exact h.seen r hold href hreceipt
      · obtain ⟨row, hrow, heq⟩ := List.mem_map.mp hnew
        obtain ⟨rfl, rfl⟩ := Prod.mk.inj heq
        subst href
        exact ⟨row, current_of_mem hactions hrow, hreceipt⟩
  · obtain rfl := Option.some.inj hstep
    exact h.stay

/-- The invariant and a current receipt survive every step, where the hash tells records of different
dots or bindings apart. -/
theorem Inv.step (hhash : ∀ r r' : DotActionRecord D,
      host.dotActionRecordHash r = host.dotActionRecordHash r' →
        r.dotId = r'.dotId ∧ r.frontDeskExecution = r'.frontDeskExecution)
    (hok : carriesBinding dotId actionRef binding s a = true)
    (hstep : Dot.step host s a = some t) : Advances host dotId actionRef binding s t := by
  cases a with
  | append p record =>
      simp only [Dot.step] at hstep
      split at hstep
      · obtain rfl := Option.some.inj hstep
        split
        · exact h.startAppend hok
        · exact h.stay
      · cases hstep
  | decline p expected receipt =>
      simp only [Dot.step] at hstep
      split at hstep
      · obtain rfl := Option.some.inj hstep
        split
        · refine h.enter fun hours => ?_
          obtain ⟨hdot, href⟩ := hours
          simpa [carriesBinding, hdot, href] using hok
        · exact h.stay
      · cases hstep
  | migrate p charter authorized =>
      simp only [Dot.step] at hstep
      split at hstep
      · obtain rfl := Option.some.inj hstep
        split
        · exact h.enter trivial
        · exact h.stay
      · cases hstep
  | fence p => exact h.fence hstep
  | lock p => exact h.lock hstep
  | check p nhi request => exact h.check hhash hstep
  | guard p nhi => exact h.guard hstep
  | scopedAppend p => exact h.scopedAppend hstep
  | indexAppend p => exact h.indexAppend hstep
  | migrateRow p => exact h.migrateRow hstep
  | migrateWrite p => exact h.migrateWrite hstep
  | readback p =>
      simp only [Dot.step] at hstep
      split at hstep
      · obtain rfl := Option.some.inj hstep
        exact h.stop p
      · cases hstep
  | read nhi asked => exact h.read hstep
  | crash p =>
      obtain rfl := Option.some.inj hstep
      exact h.stop p

end Labels

section Runs

variable (hhash : ∀ r r' : DotActionRecord D,
  host.dotActionRecordHash r = host.dotActionRecordHash r' →
    r.dotId = r'.dotId ∧ r.frontDeskExecution = r'.frontDeskExecution)

include hhash

theorem inv_reach (hs : (actionRuns host).Reach
    (fun s a => carriesBinding dotId actionRef binding s a = true) s) :
    Inv host dotId actionRef binding s := by
  refine hs.invariant (I := Inv host dotId actionRef binding) (fun s hinit => ?_)
    fun s a t h hok hstep => (h.step hhash hok hstep).inv
  obtain ⟨-, -, hphase, hseen⟩ := hinit
  constructor
  · intro p
    rw [hphase p]
    trivial
  · intro r hr
    rw [hseen] at hr
    cases hr

/-- Once the current record of an action carries a recovery receipt it is current for good, and a
receipt is written only over the parked record without a work item that it names. -/
theorem recovered_action_terminal (hs : (actionRuns host).Reach
    (fun s a => carriesBinding dotId actionRef binding s a = true) s) :
    (∀ r, Current host s.files dotId actionRef r → r.recoveryReceipt.isSome = true →
      ∀ t, (actionRuns host).Leads
        (fun s a => carriesBinding dotId actionRef binding s a = true) s t →
        ∀ r', Current host t.files dotId actionRef r' ↔ r' = r) ∧
    ∀ p frame receipt, frame.record.dotId = dotId → frame.record.actionRef = actionRef →
      frame.record.recoveryReceipt = some receipt →
      ((∃ file, s.phase p = .scopedAppend frame file) ∨
        ∃ row, s.phase p = .indexAppend frame row) →
      Recoverable host dotId actionRef s.files receipt := by
  refine ⟨fun r hr hreceipt t ht r' => ?_, fun p frame receipt hdot href hreceipt hphase => ?_⟩
  · have hstays : Current host t.files dotId actionRef r :=
      Transition.System.Leads.preserves (R := fun s t : Runs D =>
          Current host s.files dotId actionRef r → Current host t.files dotId actionRef r)
        (fun _ => id) (fun _ _ _ h h' hr => h' (h hr))
        (fun s a t hs hok hstep hr => ((inv_reach hhash hs).step hhash hok hstep).stays r hr hreceipt)
        hs ht hr
    exact ⟨fun h => h.unique hstays, fun h => h ▸ hstays⟩
  · have hp := (inv_reach hhash hs).phases p
    obtain ⟨hok, hclear⟩ : FrameOk host dotId actionRef binding s.files frame ∧
        Unrecovered host dotId actionRef s.files := by
      rcases hphase with ⟨file, hphase⟩ | ⟨row, hphase⟩
      · rw [hphase] at hp
        obtain ⟨hok, -, hclear⟩ := hp.2 ⟨hdot, href⟩
        exact ⟨hok, hclear⟩
      · rw [hphase] at hp
        obtain ⟨hok, -, hclear⟩ := hp.2.2 ⟨hdot, href⟩
        exact ⟨hok, hclear⟩
    cases hrecovering : frame.recovering with
    | none =>
        -- the receipt of a stale record would be current
        refine absurd (hok.stale hrecovering ?_) hclear.not_carries
        rw [hreceipt]
        rfl
    | some call =>
        obtain ⟨hsame, hrecoverable⟩ := hok.recovering call.1 call.2 hrecovering
        rw [hreceipt] at hsame
        exact Option.some.inj hsame ▸ hrecoverable

end Runs

/-- A hash that keeps the dot, the binding and the status of a record. -/
def plainHash : Evidence (String × Option FrontDeskExecutionBinding × Bool) →
    String × Option FrontDeskExecutionBinding × Bool
  | .action record => (record.dotId, record.frontDeskExecution, record.status = .parked)
  | .binding binding => ("binding", some binding, true)
  | .receipt receipt => ("receipt", some receipt.binding, true)

def plainHost : Host (String × Option FrontDeskExecutionBinding × Bool) where
  recoveryEvidenceHash := plainHash
  dotStatePath := fun _ => .ok "action-ledger.jsonl"
  parseBinding := fun _ => true
  parseReceipt := fun _ => true
  assertDotActionJudgmentBinding := fun _ => .ok ()
  validRow := fun _ => true

def deskBinding : FrontDeskExecutionBinding :=
  { mappingId := "m", configDigest := "c", conversationKey := "k", requestId := "r", revision := 1
    requestDigest := "d", workItemId := "w" }

def parkedAction : DotActionRecord (String × Option FrontDeskExecutionBinding × Bool) :=
  { scope := some { tier := .confidential, tenantSlug := some "acme" }
    frontDeskExecution := some deskBinding, actionRef := "a", dotId := "d", actorId := "dot:d"
    actionId := "x", title := "t", objective := "o", workShape := .pipeline, status := .parked
    proposalHash := "p", requestId := some "q", at_ := "2026-01-01" }

def deskReceipt : RecoveryReceipt (String × Option FrontDeskExecutionBinding × Bool) :=
  { binding := deskBinding, actionRef := "a", approvalRequestId := "q"
    approvalHash := ("", none, true), actionHash := plainHost.dotActionRecordHash parkedAction
    displayDigest := ("", none, true), actorId := "user:u", memberId := "m"
    browserSessionId := "s", terminatedAt := "2026-01-02" }

/-- An action is parked, recovered, and then written by a stale process. -/
theorem recovered_stays_declined :
    ∃ s t : Runs (String × Option FrontDeskExecutionBinding × Bool), ∃ r,
      r.recoveryReceipt.isSome = true ∧ Current plainHost s.files "d" "a" r ∧
        (t.phase 2 matches .idle) = true ∧ ∀ r', Current plainHost t.files "d" "a" r' ↔ r' = r := by
  obtain ⟨s, t, hs, ht, hread, hphase⟩ := (actionRuns plainHost).exists_leads_of_execOk
    (carriesBinding "d" "a" deskBinding) (s := { files := ⟨[], fun _ => []⟩ })
    [.append 0 parkedAction, .fence 0, .lock 0, .guard 0 none, .scopedAppend 0, .indexAppend 0,
      .decline 1 parkedAction deskReceipt, .fence 1, .check 1 none ⟨true, some deskReceipt, true⟩,
      .fence 1, .lock 1, .guard 1 none, .scopedAppend 1, .indexAppend 1, .readback 1]
    [.append 2 { parkedAction with status := .dispatched }, .fence 2, .lock 2, .guard 2 none]
    (fun s t => ((currentDotActions plainHost none s.files "d").toOption.any fun actions =>
        actions.any fun r => r.recoveryReceipt.isSome && r.actionRef = "a") = true ∧
      (t.phase 2 matches .idle) = true)
    ⟨rfl, fun _ => rfl, fun _ => rfl, rfl⟩ (by decide +kernel)
  cases hactions : currentDotActions plainHost none s.files "d" with
  | error e =>
      rw [hactions] at hread
      cases hread
  | ok actions =>
      rw [hactions] at hread
      obtain ⟨r, hr, hmatch⟩ := List.any_eq_true.mp hread
      simp only [Bool.and_eq_true, decide_eq_true_eq] at hmatch
      have hcurrent : Current plainHost s.files "d" "a" r := hmatch.2 ▸ current_of_mem hactions hr
      have hterminal := recovered_action_terminal (fun r r' h => by
        obtain ⟨hdot, h⟩ := Prod.mk.inj h
        exact ⟨hdot, (Prod.mk.inj h).1⟩) hs
      exact ⟨s, t, r, hmatch.1, hcurrent, hphase, hterminal.1 r hcurrent hmatch.1 t ht⟩

end Invariant

end Kyberion.Dot
