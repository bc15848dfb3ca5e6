import Kyberion.Dot.CurrentAction
import Mathlib.Data.List.Infix

/-!
What a status view is shown of a dot's actions. The strict reader refuses the
whole set on a single bad row; the observer counts the bad row and goes on. A
scope that cannot be read has no path here.
-/

namespace Kyberion.Dot

open Js (Json)

inductive DotActionLedgerIntegrity
  | complete
  | partial_
  | integrityError
  deriving DecidableEq

structure DotActionAnomalies where
  malformedRows : ℕ := 0
  missingEvidence : ℕ := 0
  notVisible : ℕ := 0
  deriving DecidableEq

def DotActionAnomalies.total (counts : DotActionAnomalies) : ℕ :=
  counts.malformedRows + counts.missingEvidence + counts.notVisible

structure DotActionObservation (D : Type) where
  integrity : DotActionLedgerIntegrity
  actions : List (DotActionRecord D)
  indexOnly : List (DotActionRecord D)
  /-- None when the index could not be read. -/
  anomalies : Option DotActionAnomalies
  repair : List String

/-- `text.includes(part)` -/
def includes (text part : String) : Bool :=
  decide (part.toList <:+: text.toList)

inductive RefusalKind
  | malformed
  | missingEvidence
  | notVisible

/-- Why a row could not be hydrated, told by the text of the error. -/
def hydrateRefusalKind (message : String) : RefusalKind :=
  if includes message "invalid private content identity" ||
      includes message "invalid private index scope" then .malformed
  else if includes message "missing or changed" then .missingEvidence
  else .notVisible

def DotActionAnomalies.add (counts : DotActionAnomalies) : RefusalKind → DotActionAnomalies
  | .malformed => { counts with malformedRows := counts.malformedRows + 1 }
  | .missingEvidence => { counts with missingEvidence := counts.missingEvidence + 1 }
  | .notVisible => { counts with notVisible := counts.notVisible + 1 }

def DotActionAnomalies.integrity (counts : DotActionAnomalies) : DotActionLedgerIntegrity :=
  if 0 < counts.malformedRows ∨ 0 < counts.missingEvidence then .integrityError
  else if 0 < counts.notVisible then .partial_
  else .complete

def DotActionAnomalies.repair (counts : DotActionAnomalies) : List String :=
  (if 0 < counts.malformedRows then
    ["the shared action index has malformed rows; have an authorized operator review the owning " ++
      "scope — pnpm kyberion dot migrate-state <dot_id> --legacy-tier <tier> --apply adopts " ++
      "legacy records only after review"] else []) ++
  (if 0 < counts.missingEvidence then
    ["scoped action evidence is missing or changed; restore it inside the owning scope or have " ++
      "the owner confirm a decline — the shared index must never be executed"] else []) ++
  (if 0 < counts.notVisible then
    ["some of this dot's rows live outside this process scope; inspect them under the owning " ++
      "tenant/owner identity — status never widens permissions to read them"] else [])

/-- The observation of an index that could not be read. -/
def unreadableObservation {D : Type} : DotActionObservation D where
  integrity := .integrityError
  actions := []
  indexOnly := []
  anomalies := none
  repair :=
    ["the shared action index could not be read, so even row counts are unknown — check this " ++
      "process's scope, then re-run status under an identity that may read it"]

/-- The maps and the counts of an observation in progress. -/
structure Observed (D : Type) where
  latest : List (String × DotActionRecord D) := []
  indexOnly : List (String × DotActionRecord D) := []
  counts : DotActionAnomalies := {}

section Observe

variable {D : Type} [DecidableEq D] (host : Host D) (nhi : Option String) (files : Ledger D)
  (dotId : String)

/-- `Map.delete` -/
def deleteEntry (key : String) (entries : List (String × DotActionRecord D)) :
    List (String × DotActionRecord D) :=
  entries.filter fun entry => entry.1 ≠ key

/-- The index rows that stay known without their evidence. -/
def refusedIndex (seen : Observed D) (index : DotActionRecord D) (key : String) :
    RefusalKind → List (String × DotActionRecord D)
  | .missingEvidence =>
      if (Keyed.find Prod.fst key seen.latest).isSome then seen.indexOnly
      else setEntry key index seen.indexOnly
  | .malformed | .notVisible => deleteEntry key seen.indexOnly

def observeLine (seen : Observed D) : Option (DotActionRecord D) → Observed D
  | none => { seen with counts := seen.counts.add .malformed }
  | some row =>
      if row.dotId ≠ dotId then seen
      else
        let index := indexedRow host row
        match hydratePrivateAction host nhi files index with
        | .ok full =>
            { seen with
              latest := setEntry row.actionRef full seen.latest
              indexOnly := deleteEntry row.actionRef seen.indexOnly }
        | .error message =>
            let kind := hydrateRefusalKind message
            { seen with
              indexOnly := refusedIndex seen index row.actionRef kind
              counts := seen.counts.add kind }

/-- `files` is none when the index cannot be read. -/
def observeDotActions (files : Option (Ledger D)) : DotActionObservation D :=
  match files with
  | none => unreadableObservation
  | some ledger =>
      let seen := ledger.index.foldl (observeLine host nhi ledger dotId) {}
      { integrity := seen.counts.integrity
        actions := seen.latest.map Prod.snd
        indexOnly := seen.indexOnly.map Prod.snd
        anomalies := some seen.counts
        repair := seen.counts.repair }

end Observe

section Counts

@[simp] theorem DotActionAnomalies.total_add (counts : DotActionAnomalies) (kind : RefusalKind) :
    (counts.add kind).total = counts.total + 1 := by
  cases kind <;> simp only [DotActionAnomalies.add, DotActionAnomalies.total] <;> omega

theorem DotActionAnomalies.complete_iff (counts : DotActionAnomalies) :
    counts.integrity = .complete ↔ counts.total = 0 := by
  unfold DotActionAnomalies.integrity DotActionAnomalies.total
  split_ifs <;> simp only [reduceCtorEq, false_iff, true_iff] <;> omega

end Counts

section Folds

variable {D : Type} [DecidableEq D] {host : Host D} {nhi : Option String} {files : Ledger D}
  {dotId : String} {seen : Observed D} {row full : DotActionRecord D}

theorem observeLine_other (h : row.dotId ≠ dotId) :
    observeLine host nhi files dotId seen (some row) = seen :=
  if_pos h

theorem observeLine_hydrated (hdot : row.dotId = dotId)
    (h : hydratePrivateAction host nhi files (indexedRow host row) = .ok full) :
    observeLine host nhi files dotId seen (some row) =
      { seen with
        latest := setEntry row.actionRef full seen.latest
        indexOnly := deleteEntry row.actionRef seen.indexOnly } := by
  simp only [observeLine, hdot, ne_eq, not_true_eq_false, if_false, h]

theorem observeLine_refused {e : String} (hdot : row.dotId = dotId)
    (h : hydratePrivateAction host nhi files (indexedRow host row) = .error e) :
    (observeLine host nhi files dotId seen (some row)).counts.total = seen.counts.total + 1 := by
  simp only [observeLine, hdot, ne_eq, not_true_eq_false, if_false, h,
    DotActionAnomalies.total_add]

theorem total_observeLine_le (line : Option (DotActionRecord D)) :
    seen.counts.total ≤ (observeLine host nhi files dotId seen line).counts.total := by
  cases line with
  | none => simp [observeLine]
  | some row =>
      by_cases hdot : row.dotId = dotId
      · cases h : hydratePrivateAction host nhi files (indexedRow host row) with
        | ok full => exact Nat.le_of_eq (congrArg (·.counts.total) (observeLine_hydrated hdot h)).symm
        | error e =>
            rw [observeLine_refused hdot h]
            omega
      · exact Nat.le_of_eq (congrArg (·.counts.total) (observeLine_other hdot)).symm

/-- What was counted stays counted. -/
theorem total_foldl_le (lines : List (Option (DotActionRecord D))) :
    seen.counts.total ≤ (lines.foldl (observeLine host nhi files dotId) seen).counts.total := by
  induction lines generalizing seen with
  | nil => exact Nat.le_refl _
  | cons line lines ih => exact Nat.le_trans (total_observeLine_le line) ih

/-- A row of the dot that cannot be hydrated is counted. -/
theorem total_foldl_pos {lines : List (Option (DotActionRecord D))} {e : String}
    (hrow : some row ∈ lines) (hdot : row.dotId = dotId)
    (h : hydratePrivateAction host nhi files (indexedRow host row) = .error e) :
    0 < (lines.foldl (observeLine host nhi files dotId) seen).counts.total := by
  obtain ⟨front, rest, rfl⟩ := List.append_of_mem hrow
  rw [List.foldl_append, List.foldl_cons]
  refine Nat.lt_of_lt_of_le ?_ (total_foldl_le rest)
  rw [observeLine_refused hdot h]
  omega

end Folds

/-- What the ledger relies on: executable evidence does not hold a content hash, and the hash of a
record tells whether it holds one. -/
structure Host.Guards {D : Type} (host : Host D) : Prop where
  binding : ∀ record, record.privateContentHash ≠ none →
    ∃ e, host.assertDotActionJudgmentBinding record = .error e
  hash : ∀ a b, host.dotActionRecordHash a = host.dotActionRecordHash b →
    a.privateContentHash = none → b.privateContentHash = none

section Agreement

variable {D : Type} [DecidableEq D] {host : Host D} {nhi : Option String} {files : Ledger D}
  {dotId : String} {row full : DotActionRecord D} {latest : List (String × DotActionRecord D)}

/-- What is read passed the check of executable evidence. -/
theorem hydratePrivateAction_bound (h : hydratePrivateAction host nhi files row = .ok full) :
    host.assertDotActionJudgmentBinding full = .ok () := by
  unfold hydratePrivateAction at h
  obtain ⟨-, -, h⟩ := Js.except_bind_ok h
  split at h
  · obtain ⟨_, hbound, h⟩ := Js.except_bind_ok h
    obtain rfl := Except.ok.inj h
    exact hbound
  · split at h
    · cases h
    · simp only [Js.throwIf_eq_ok] at h
      obtain ⟨-, -, h⟩ := h
      obtain ⟨file, -, h⟩ := Js.except_bind_ok h
      split at h
      · cases h
      · simp only [Js.throwIf_eq_ok] at h
        obtain ⟨_, hbound, h⟩ := Js.except_bind_ok h.2
        obtain rfl := Except.ok.inj h
        exact hbound
  · cases h

omit [DecidableEq D] in
theorem asserted_of_none (h : row.privateContentHash = none) :
    assertPrivateIndexHasNoJudgmentBody row = .ok () :=
  Js.throwIf_neg fun hbody => by simp [h] at hbody

/-- A row that is read through its index keeps no private body beside a hash. -/
theorem asserted_of_hydrated (guards : host.Guards)
    (h : hydratePrivateAction host nhi files (indexedRow host row) = .ok full) :
    assertPrivateIndexHasNoJudgmentBody row = .ok () := by
  by_cases hnone : row.privateContentHash = none
  · exact asserted_of_none hnone
  by_cases hself : indexedRow host row = row
  · rw [hself] at h
    obtain ⟨_, hasserted, -⟩ := Js.except_bind_ok h
    exact hasserted
  -- the index of the row is made from it: what its hash finds holds a hash itself
  exfalso
  have hindex : indexedRow host row = actionIndex host row := by
    cases hscope : row.scope with
    | none => simp only [indexedRow, hscope]
    | some scope =>
        by_cases hcarries : (scope.tier ≠ .public_ && !row.carriesHash) = true
        · simp only [indexedRow, hscope, if_pos hcarries]
        · refine absurd ?_ hself
          simp only [indexedRow, hscope, if_neg hcarries]
  rw [hindex] at h
  cases hydratePrivateAction_reads h with
  | inline hhash => cases hhash
  | hydrated hhash hscope hfile hfound =>
      obtain rfl := ContentHash.digest.inj (Option.some.inj hhash)
      have hsame := List.find?_some hfound
      simp only [Bool.and_eq_true, decide_eq_true_eq] at hsame
      refine hnone (guards.hash full row hsame.2 ?_)
      by_contra hheld
      obtain ⟨e, he⟩ := guards.binding full hheld
      cases he.symm.trans (hydratePrivateAction_bound h)

/-- The strict reader looks at the rows of every dot. -/
theorem asserted_of_latest {rows : List (DotActionRecord D)}
    {result : List (String × DotActionRecord D)}
    (h : rows.foldlM (latestEntry host nhi files dotId) latest = .ok result) :
    ∀ row ∈ rows, assertPrivateIndexHasNoJudgmentBody row = .ok () := by
  induction rows generalizing latest with
  | nil => exact fun row hrow => absurd hrow List.not_mem_nil
  | cons first rows ih =>
      rw [List.foldlM_cons] at h
      obtain ⟨next, hnext, hrest⟩ := Js.except_bind_ok h
      obtain ⟨_, hasserted, -⟩ := Js.except_bind_ok hnext
      intro row hrow
      rcases List.mem_cons.mp hrow with rfl | hrow
      · exact hasserted
      · exact ih hrest row hrow

/-- The two folds agree while nothing is counted and the rows of other dots keep no body. -/
theorem latest_of_uncounted (guards : host.Guards) {lines : List (Option (DotActionRecord D))}
    {seen : Observed D}
    (hcounts : (lines.foldl (observeLine host nhi files dotId) seen).counts.total = 0)
    (hothers : ∀ row ∈ lines.filterMap id, row.dotId ≠ dotId →
      assertPrivateIndexHasNoJudgmentBody row = .ok ()) :
    (lines.filterMap id).foldlM (latestEntry host nhi files dotId) seen.latest =
      .ok (lines.foldl (observeLine host nhi files dotId) seen).latest := by
  induction lines generalizing seen with
  | nil => rfl
  | cons line lines ih =>
      rw [List.foldl_cons] at hcounts ⊢
      have hstep : (observeLine host nhi files dotId seen line).counts.total ≤
          (lines.foldl (observeLine host nhi files dotId)
            (observeLine host nhi files dotId seen line)).counts.total := total_foldl_le lines
      cases line with
      | none =>
          have hcounted : (observeLine host nhi files dotId seen none).counts.total =
              seen.counts.total + 1 := DotActionAnomalies.total_add _ _
          omega
      | some row =>
          have hrest : ∀ other ∈ lines.filterMap id, other.dotId ≠ dotId →
              assertPrivateIndexHasNoJudgmentBody other = .ok () :=
            fun other hother => hothers other (List.mem_cons_of_mem row hother)
          have hnext := ih hcounts hrest
          have hcons : (some row :: lines).filterMap id = row :: lines.filterMap id := rfl
          rw [hcons, List.foldlM_cons]
          by_cases hdot : row.dotId = dotId
          · cases hread : hydratePrivateAction host nhi files (indexedRow host row) with
            | error e =>
                rw [observeLine_refused hdot hread] at hstep
                omega
            | ok full =>
                have hentry : latestEntry host nhi files dotId seen.latest row =
                    .ok (setEntry row.actionRef full seen.latest) := by
                  rw [latestEntry, asserted_of_hydrated guards hread, Js.except_ok_bind,
                    if_pos hdot, hread, Js.except_ok_bind]
                rw [hentry, Js.except_ok_bind]
                rw [observeLine_hydrated hdot hread] at hnext ⊢
                exact hnext
          · have hentry : latestEntry host nhi files dotId seen.latest row = .ok seen.latest := by
              rw [latestEntry, hothers row List.mem_cons_self hdot, Js.except_ok_bind,
                if_neg hdot]
            rw [hentry, Js.except_ok_bind]
            rw [observeLine_other hdot] at hnext ⊢
            exact hnext

end Agreement

section Observation

variable {D : Type} [DecidableEq D] (host : Host D) (nhi : Option String) (dotId : String)

/-- Where an observation is complete, the strict reader returns what was observed, as long as no
row of another dot keeps a private body beside its hash. Every row of the dot that cannot be
hydrated, its newest one included, is counted. -/
theorem observation_complete_reads (guards : host.Guards) (files : Option (Ledger D)) :
    ((observeDotActions host nhi dotId files).integrity = .complete → ∃ ledger,
      files = some ledger ∧
      (currentDotActions host nhi ledger dotId =
          .ok (observeDotActions host nhi dotId files).actions ↔
        ∀ row ∈ ledger.rows, row.dotId ≠ dotId →
          assertPrivateIndexHasNoJudgmentBody row = .ok ())) ∧
    ∀ ledger, files = some ledger → ∀ row ∈ ledger.rows, row.dotId = dotId →
      (∀ full, hydratePrivateAction host nhi ledger (indexedRow host row) ≠ .ok full) →
      ∃ counts, (observeDotActions host nhi dotId files).anomalies = some counts ∧
        0 < counts.total := by
  refine ⟨fun hcomplete => ?_, ?_⟩
  · cases files with
    | none => cases hcomplete
    | some ledger =>
        have hcounts := (DotActionAnomalies.complete_iff _).mp hcomplete
        refine ⟨ledger, rfl, fun hread row hrow _ => ?_, fun hothers => ?_⟩
        · obtain ⟨latest, hlatest, -⟩ := Js.except_bind_ok hread
          exact asserted_of_latest hlatest row hrow
        · rw [currentDotActions, Ledger.rows, latest_of_uncounted guards hcounts hothers]
          rfl
  · rintro ledger rfl row hrow hdot hrefused
    refine ⟨_, rfl, ?_⟩
    obtain ⟨line, hline, hsome⟩ := List.mem_filterMap.mp hrow
    obtain rfl : line = some row := hsome
    cases hread : hydratePrivateAction host nhi ledger (indexedRow host row) with
    | ok full => exact absurd hread (hrefused full)
    | error e => exact total_foldl_pos hline hdot hread

/-- Hashes tell whether a record holds one; records that do are not executable. -/
def guardedHost : Host Bool where
  recoveryEvidenceHash
    | .action record => record.privateContentHash.isSome
    | _ => false
  dotStatePath := fun _ => .ok "action-ledger.jsonl"
  parseBinding := fun _ => true
  parseReceipt := fun _ => true
  assertDotActionJudgmentBinding record :=
    if record.privateContentHash.isSome then .error "shared index" else .ok ()
  validRow := fun _ => true

theorem guardedHost_guards : guardedHost.Guards where
  binding record hheld := ⟨_, if_pos (Option.isSome_iff_ne_none.mpr hheld)⟩
  hash a b hsame hnone := by
    have hsame : a.privateContentHash.isSome = b.privateContentHash.isSome := hsame
    rw [hnone] at hsame
    exact Option.isNone_iff_eq_none.mp (Option.isSome_eq_false_iff.mp hsame.symm)

def publicAction (dotId : String) : DotActionRecord Bool :=
  { scope := some { tier := .public_ }, actionRef := "a", dotId := dotId, actorId := "dot:d"
    actionId := "x", title := "t", objective := "o", workShape := .pipeline, status := .parked
    proposalHash := "p", at_ := "2026-01-01" }

/-- An index row with a hash that still has the body of the record. -/
def bodiedRow (dotId : String) : DotActionRecord Bool :=
  { publicAction dotId with
    scope := some { tier := .confidential }, privateContentHash := some (.digest true)
    admission := some .null }

/-- One public row of a dot, and one row of another. -/
def sharedIndex (other : DotActionRecord Bool) : Ledger Bool :=
  ⟨[some (publicAction "d"), some other], fun _ => []⟩

theorem observation_complete_reads_public :
    currentDotActions guardedHost none (sharedIndex (publicAction "e")) "d" =
      .ok (observeDotActions guardedHost none "d"
        (some (sharedIndex (publicAction "e")))).actions := by
  obtain ⟨ledger, hledger, hreads⟩ := (observation_complete_reads guardedHost none "d"
    guardedHost_guards (some (sharedIndex (publicAction "e")))).1 (by decide)
  obtain rfl := Option.some.inj hledger
  refine hreads.mpr fun row hrow _ => ?_
  simp only [Ledger.rows, sharedIndex, List.filterMap_cons, id, List.filterMap_nil, List.mem_cons,
    List.not_mem_nil, or_false] at hrow
  rcases hrow with rfl | rfl <;> exact asserted_of_none rfl

/-- A private body in a row of another dot stops the strict reader, and is not observed. -/
theorem body_of_another_dot_unobserved :
    ¬ ∀ (host : Host Bool) (nhi : Option String) (dotId : String) (ledger : Ledger Bool),
      host.Guards → (observeDotActions host nhi dotId (some ledger)).integrity = .complete →
      currentDotActions host nhi ledger dotId =
        .ok (observeDotActions host nhi dotId (some ledger)).actions := by
  intro h
  have hread := h guardedHost none "d" (sharedIndex (bodiedRow "e")) guardedHost_guards (by decide)
  cases hread

end Observation

end Kyberion.Dot
