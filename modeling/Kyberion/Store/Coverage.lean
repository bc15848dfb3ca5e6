import Kyberion.Store.Conservation
import Kyberion.Store.Reader

/-!
What a reader across compaction is sure to see. Kept copies, then the copies
not yet published, then the live file are in append order, and publication
keeps the newest line per key. A round whose live read meets no unpublished
copy parked after its listing therefore yields every key at least as new as
when the traversal began.
-/

namespace Kyberion.Store

open Transition

universe u v

variable {β : Type u} {κ : Type v}

/-- The rows of the running rewrite that a publication has not yet moved to the live file. -/
def State.active (s : State (Row β)) : List (Row β) :=
  (if s.liveRestored then [] else linesOf s.copies) ++ s.live.getD []

/-- Where a rewrite stands in which nothing throws. -/
def CalmPc (s : State (Row β)) : Prop :=
  match s.pc with
  | .idle | .start | .parkInitial => s.copies = []
  | .copyWrite _ _ | .copyUnlink => False
  | .restoreLook inCatch | .restorePark inCatch | .restoreIndex inCatch | .restoreWrite inCatch
  | .restoreMove inCatch _ => inCatch = false
  | .clean n => n = 0
  | _ => True

/-- A compaction by key without archive, on a file system with hard links. -/
structure Calm [DecidableEq κ] (fmt : Format β κ) (s : State (Row β)) : Prop where
  pc : CalmPc s
  options : s.pc ≠ .idle → s.options = {}
  filter : s.pc ≠ .idle → s.filter = fmt.onRows.compactFilter

theorem Calm.next [DecidableEq κ] {fmt : Format β κ} {s t : State (Row β)} (h : Calm fmt s) (hbusy : s.pc ≠ .idle)
    (hpc : CalmPc t) (hoptions : t.options = s.options) (hfilter : t.filter = s.filter) :
    Calm fmt t :=
  ⟨hpc, fun _ => hoptions.trans (h.options hbusy), fun _ => hfilter.trans (h.filter hbusy)⟩

/-- What one operation of a calm rewrite can do to the files. -/
inductive Effect (fmt : Format β κ) (s t : State (Row β)) : Prop
  | quiet (h : Keeps s t) (hnext : t.nextPark = s.nextPark)
  | empty (hcopies : s.copies = []) (hlive : t.live = s.live) (hkept : t.kept = s.kept)
      (hcopies' : t.copies = s.copies) (hnext : t.nextPark = s.nextPark)
      (hpublished : t.liveRestored = true)
  | park (lines : List (Row β)) (hlive : s.live = some lines) (hlive' : t.live = none)
      (hkept : t.kept = s.kept) (hcopies : t.copies = s.copies ++ [⟨s.nextPark, lines⟩])
      (hnext : t.nextPark = s.nextPark + 1) (hopen : s.liveRestored = false)
      (hopen' : t.liveRestored = false)
  | publish (content : List (Row β)) (hlive : s.live = none) (hlive' : t.live = some content)
      (hkept : t.kept = s.kept) (hcopies : t.copies = s.copies) (hnext : t.nextPark = s.nextPark)
      (hopen : s.liveRestored = false) (hpublished : t.liveRestored = true)
      (hsub : content.Sublist (linesOf s.copies))
      (hcovers : InOrder Row.stamp (linesOf s.copies) →
        Covers fmt.onRows.rowKey Row.stamp (linesOf s.copies) content)
  | clean (hlive : t.live = s.live) (hkept : t.kept = s.kept) (hcopies : t.copies = s.copies.tail)
      (hnext : t.nextPark = s.nextPark) (hpublished : s.liveRestored = true)
      (hpublished' : t.liveRestored = true)

theorem effect_goto (fmt : Format β κ) (s : State (Row β)) (pc : Pc (Row β)) :
    Effect fmt s (s.goto pc) :=
  .quiet (keeps_goto s pc) rfl

theorem effect_park (fmt : Format β κ) {s : State (Row β)} {lines : List (Row β)}
    (hlive : s.live = some lines) (hopen : s.liveRestored = false) (pc : Pc (Row β)) :
    Effect fmt s ((s.park lines).goto pc) :=
  .park lines hlive rfl rfl rfl rfl hopen hopen

section Calm

variable [DecidableEq κ]

theorem effect_retry {fmt : Format β κ} {s : State (Row β)} (hcalm : Calm fmt s)
    (hbusy : s.pc ≠ .idle) (i : ℕ) : Effect fmt s (s.retry i) ∧ Calm fmt (s.retry i) := by
  unfold State.retry
  split
  · exact ⟨effect_goto fmt s _, hcalm.next hbusy rfl rfl rfl⟩
  · exact ⟨effect_goto fmt s _, hcalm.next hbusy trivial rfl rfl⟩

theorem effect_publishLive {fmt : Format β κ} {s : State (Row β)} (hcalm : Calm fmt s)
    (hbusy : s.pc ≠ .idle) (hlive : s.live = none) (hopen : s.liveRestored = false)
    (drops : List (Row β)) :
    Effect fmt s (s.publishLive (s.filter.survivors (s.copies.map (·.lines))) drops) := by
  refine .publish _ hlive rfl rfl rfl rfl hopen rfl (s.filter.survivors_sublist _) ?_
  rw [hcalm.filter hbusy]
  exact fmt.onRows.covers_survivors

/-- One operation of a calm rewrite, case by case over the program counter. -/
theorem effect_tick {fmt : Format β κ} {s t : State (Row β)} (hpc : PcOk s) (hcalm : Calm fmt s)
    (hok : replacesNothing s (.tick false []) = true) (htick : s.tick false [] = some t) :
    Effect fmt s t ∧ Calm fmt t := by
  have hbusy : s.pc ≠ .idle := by
    intro hidle
    simp [State.tick, hidle] at htick
  have hcalmPc := hcalm.pc
  unfold State.tick at htick
  cases hpc' : s.pc with
  | idle => exact absurd hpc' hbusy
  | start =>
      simp only [CalmPc, hpc', Bool.false_eq_true, if_false] at hcalmPc htick
      obtain rfl := Option.some.inj htick
      split <;> exact ⟨effect_goto fmt s _, hcalm.next hbusy hcalmPc rfl rfl⟩
  | parkInitial =>
      simp only [PcOk, CalmPc, hpc', Bool.false_eq_true, if_false] at hpc hcalmPc htick
      split at htick
      · obtain rfl := Option.some.inj htick
        exact ⟨effect_goto fmt s _, hcalm.next hbusy hcalmPc rfl rfl⟩
      · rename_i hlive
        obtain rfl := Option.some.inj htick
        exact ⟨effect_park fmt hlive hpc _, hcalm.next hbusy trivial rfl rfl⟩
  | indexInitial =>
      simp only [hpc', Bool.false_eq_true, if_false] at htick
      obtain rfl := Option.some.inj htick
      exact ⟨effect_goto fmt s _, hcalm.next hbusy trivial rfl rfl⟩
  | look i =>
      simp only [hpc', Bool.false_eq_true, if_false] at htick
      obtain rfl := Option.some.inj htick
      split
      · exact effect_retry hcalm hbusy i
      · exact ⟨effect_goto fmt s _, hcalm.next hbusy trivial rfl rfl⟩
  | write i =>
      simp only [hpc', Bool.false_eq_true, if_false] at htick
      obtain rfl := Option.some.inj htick
      exact ⟨effect_goto fmt s _, hcalm.next hbusy trivial rfl rfl⟩
  | publish i content drops =>
      simp only [PcOk, hpc', Bool.false_eq_true, if_false] at hpc htick
      obtain ⟨hopen, rfl, -⟩ := hpc
      split at htick
      · obtain rfl := Option.some.inj htick
        exact effect_retry hcalm hbusy i
      · rename_i hlive
        rw [hcalm.options hbusy] at htick
        obtain rfl := Option.some.inj htick
        exact ⟨effect_publishLive hcalm hbusy hlive hopen drops,
          hcalm.next hbusy trivial rfl rfl⟩
  | copyWrite content drops => simp [CalmPc, hpc'] at hcalmPc
  | copyUnlink => simp [CalmPc, hpc'] at hcalmPc
  | parkMerge i =>
      simp only [PcOk, hpc', Bool.false_eq_true, if_false] at hpc htick
      split at htick
      · obtain rfl := Option.some.inj htick
        exact ⟨effect_goto fmt s _, hcalm.next hbusy trivial rfl rfl⟩
      · rename_i hlive
        obtain rfl := Option.some.inj htick
        exact ⟨effect_park fmt hlive hpc _, hcalm.next hbusy trivial rfl rfl⟩
  | indexMerge i =>
      simp only [hpc', Bool.false_eq_true, if_false] at htick
      obtain rfl := Option.some.inj htick
      exact ⟨effect_goto fmt s _, hcalm.next hbusy trivial rfl rfl⟩
  | restoreLook inCatch =>
      simp only [CalmPc, hpc', Bool.false_eq_true, if_false] at hcalmPc htick
      obtain rfl := Option.some.inj htick
      split <;> exact ⟨effect_goto fmt s _, hcalm.next hbusy hcalmPc rfl rfl⟩
  | restorePark inCatch =>
      simp only [PcOk, CalmPc, hpc', Bool.false_eq_true, if_false] at hpc hcalmPc htick
      split at htick
      · obtain rfl := Option.some.inj htick
        exact ⟨effect_goto fmt s _, hcalm.next hbusy hcalmPc rfl rfl⟩
      · rename_i hlive
        obtain rfl := Option.some.inj htick
        exact ⟨effect_park fmt hlive hpc _, hcalm.next hbusy hcalmPc rfl rfl⟩
  | restoreIndex inCatch =>
      simp only [CalmPc, hpc', Bool.false_eq_true, if_false] at hcalmPc htick
      obtain rfl := Option.some.inj htick
      exact ⟨effect_goto fmt s _, hcalm.next hbusy hcalmPc rfl rfl⟩
  | restoreWrite inCatch =>
      simp only [CalmPc, hpc', Bool.false_eq_true, if_false] at hcalmPc htick
      subst hcalmPc
      split at htick
      · rename_i hnone
        obtain rfl := Option.some.inj htick
        exact ⟨.empty (List.isEmpty_iff.mp hnone) rfl rfl rfl rfl rfl,
          hcalm.next hbusy trivial rfl rfl⟩
      · obtain rfl := Option.some.inj htick
        exact ⟨effect_goto fmt s _, hcalm.next hbusy rfl rfl rfl⟩
  | restoreMove inCatch content =>
      simp only [PcOk, CalmPc, replacesNothing, hpc', Bool.false_eq_true, if_false,
        Bool.false_or] at hpc hcalmPc hok htick
      obtain ⟨hopen, rfl⟩ := hpc
      subst hcalmPc
      obtain rfl := Option.some.inj htick
      refine ⟨.publish (linesOf s.copies) (Option.isNone_iff_eq_none.mp hok) rfl rfl rfl rfl hopen
        rfl (List.Sublist.refl _) fun _ => .of_subset fun _ => id,
        hcalm.next hbusy trivial rfl rfl⟩
  | archive =>
      simp only [hpc', hcalm.options hbusy, Bool.not_false, if_true] at htick
      obtain rfl := Option.some.inj htick
      exact ⟨effect_goto fmt s _, hcalm.next hbusy rfl rfl rfl⟩
  | clean n =>
      simp only [PcOk, CalmPc, hpc', Bool.false_eq_true, if_false] at hpc hcalmPc htick
      subst hcalmPc
      split at htick
      · obtain rfl := Option.some.inj htick
        refine ⟨.clean rfl rfl (List.eraseIdx_zero) rfl hpc hpc, hcalm.next hbusy ?_ rfl rfl⟩
        simp only [CalmPc]
      · rename_i hlen
        obtain rfl := Option.some.inj htick
        refine ⟨effect_goto fmt s _, hcalm.next hbusy ?_ rfl rfl⟩
        simpa [CalmPc, State.goto] using hlen

end Calm

/-- Append order of everything on disk that still counts. -/
structure Ordered (fmt : Format β κ) (s : State (Row β)) (clock : ℕ) : Prop where
  names : s.staging.Pairwise fun a b => a.name < b.name
  next : ∀ copy ∈ s.staging, copy.name < s.nextPark
  order : InOrder Row.stamp (linesOf s.kept ++ s.active)
  clock : ∀ r ∈ linesOf s.kept ++ s.active, r.stamp < clock
  published : s.liveRestored = true →
    Covers fmt.onRows.rowKey Row.stamp (linesOf s.copies) (s.live.getD [])

/-- What a step leaves of the rows that count: the kept copies, and every key as new. -/
structure Retains (fmt : Format β κ) (s t : State (Row β)) : Prop where
  kept : t.kept = s.kept
  active : Covers fmt.onRows.rowKey Row.stamp s.active t.active

theorem Retains.of_active {fmt : Format β κ} {s t : State (Row β)} (hkept : t.kept = s.kept)
    (h : t.active = s.active) : Retains fmt s t :=
  ⟨hkept, h ▸ .of_subset fun _ => id⟩

/-- The rows of a copy still on disk count for the active part. -/
theorem Ordered.copies_covered {fmt : Format β κ} {s : State (Row β)} {clock : ℕ}
    (h : Ordered fmt s clock) :
    Covers fmt.onRows.rowKey Row.stamp (linesOf s.copies) s.active := by
  unfold State.active
  cases hpub : s.liveRestored with
  | false => exact .of_subset (by simp)
  | true => simpa using h.published hpub

theorem linesOf_sublist {xs ys : List (Parked (Row β))} (h : xs.Sublist ys) :
    (linesOf xs).Sublist (linesOf ys) := by
  induction h with
  | slnil => exact List.Sublist.refl _
  | cons copy _ ih => exact ih.trans (List.sublist_append_right _ _)
  | cons_cons copy _ ih => exact (List.Sublist.refl _).append ih

theorem Effect.ordered {fmt : Format β κ} {s t : State (Row β)} {clock : ℕ}
    (h : Ordered fmt s clock) (heffect : Effect fmt s t) :
    Ordered fmt t clock ∧ Retains fmt s t := by
  obtain ⟨hnames, hnext, horder, hclock, hpublished⟩ := h
  cases heffect with
  | quiet hkeeps hpark =>
      have hactive : t.active = s.active := by
        simp only [State.active, hkeeps.live, hkeeps.copies, hkeeps.liveRestored]
      refine ⟨⟨?_, ?_, ?_, ?_, ?_⟩, .of_active hkeeps.kept hactive⟩
      · simpa only [State.staging, hkeeps.kept, hkeeps.copies] using hnames
      · simpa only [State.staging, hkeeps.kept, hkeeps.copies, hpark] using hnext
      · rwa [hactive, hkeeps.kept]
      · rwa [hactive, hkeeps.kept]
      · rwa [hkeeps.liveRestored, hkeeps.copies, hkeeps.live]
  | empty hcopies hlive hkept hcopies' hpark hpub =>
      have hactive : t.active = s.active := by
        simp [State.active, hcopies', hcopies, hlive]
      refine ⟨⟨?_, ?_, ?_, ?_, ?_⟩, .of_active hkept hactive⟩
      · simpa only [State.staging, hkept, hcopies'] using hnames
      · simpa only [State.staging, hkept, hcopies', hpark] using hnext
      · rwa [hactive, hkept]
      · rwa [hactive, hkept]
      · intro _
        rw [hcopies', hcopies]
        exact .of_subset (by simp)
  | park lines hlive hlive' hkept hcopies hpark hopen hopen' =>
      have hactive : t.active = s.active := by
        simp [State.active, hopen, hopen', hcopies, hlive, hlive', linesOf_append]
      refine ⟨⟨?_, ?_, ?_, ?_, ?_⟩, .of_active hkept hactive⟩
      · rw [State.staging, hkept, hcopies, ← List.append_assoc]
        refine List.pairwise_append.mpr ⟨hnames, List.pairwise_singleton _ _, ?_⟩
        intro a ha b hb
        obtain rfl := List.mem_singleton.mp hb
        exact hnext a ha
      · rw [State.staging, hkept, hcopies, ← List.append_assoc, hpark]
        intro copy hcopy
        rcases List.mem_append.mp hcopy with hold | hnew
        · exact Nat.lt_succ_of_lt (hnext copy hold)
        · obtain rfl := List.mem_singleton.mp hnew
          exact Nat.lt_succ_self _
      · rwa [hactive, hkept]
      · rwa [hactive, hkept]
      · simp [hopen']
  | publish content hlive hlive' hkept hcopies hpark hopen hpub hsub hcovers =>
      have hold : s.active = linesOf s.copies := by
        simp [State.active, hopen, hlive]
      have hnew : t.active = content := by
        simp [State.active, hpub, hlive']
      have hlog : (linesOf t.kept ++ t.active).Sublist (linesOf s.kept ++ s.active) := by
        rw [hkept, hnew, hold]
        exact (List.Sublist.refl _).append hsub
      have hsorted : InOrder Row.stamp (linesOf s.copies) := by
        have hright := (List.pairwise_append.mp horder).2.1
        rwa [hold] at hright
      refine ⟨⟨?_, ?_, horder.sublist hlog, fun r hr => hclock r (hlog.subset hr), ?_⟩,
        hkept, ?_⟩
      · simpa only [State.staging, hkept, hcopies] using hnames
      · simpa only [State.staging, hkept, hcopies, hpark] using hnext
      · intro _
        rw [hcopies, hlive']
        exact hcovers hsorted
      · rw [hold, hnew]
        exact hcovers hsorted
  | clean hlive hkept hcopies hpark hpub hpub' =>
      have hactive : t.active = s.active := by
        simp [State.active, hpub, hpub', hlive]
      have hstaging : t.staging.Sublist s.staging := by
        rw [State.staging, State.staging, hkept, hcopies]
        exact (List.Sublist.refl _).append (List.tail_sublist _)
      refine ⟨⟨hnames.sublist hstaging, ?_, ?_, ?_, ?_⟩, .of_active hkept hactive⟩
      · intro copy hcopy
        rw [hpark]
        exact hnext copy (hstaging.subset hcopy)
      · rwa [hactive, hkept]
      · rwa [hactive, hkept]
      · intro _
        rw [hcopies, hlive]
        refine Covers.trans (.of_subset ?_) (hpublished hpub)
        exact (linesOf_sublist (List.tail_sublist _)).subset

theorem ordered_append {fmt : Format β κ} {s : State (Row β)} {clock : ℕ}
    (h : Ordered fmt s clock) (line : β) :
    Ordered fmt (s.append ⟨clock, line⟩) (clock + 1) ∧
      Retains fmt s (s.append ⟨clock, line⟩) := by
  have hactive : (s.append ⟨clock, line⟩).active = s.active ++ [⟨clock, line⟩] := by
    cases hpub : s.liveRestored <;> simp [State.active, State.append, hpub]
  refine ⟨⟨h.names, h.next, ?_, ?_, ?_⟩, rfl, ?_⟩
  · rw [hactive, ← List.append_assoc]
    refine List.pairwise_append.mpr ⟨h.order, List.pairwise_singleton _ _, ?_⟩
    intro a ha b hb
    obtain rfl := List.mem_singleton.mp hb
    exact h.clock a ha
  · rw [hactive, ← List.append_assoc]
    intro r hr
    rcases List.mem_append.mp hr with hold | hnew
    · exact Nat.lt_succ_of_lt (h.clock r hold)
    · obtain rfl := List.mem_singleton.mp hnew
      exact Nat.lt_succ_self _
  · intro hpub
    exact (h.published hpub).mono_right (by simp [State.append])
  · rw [hactive]
    exact .of_subset (by simp)

/-- A new rewrite starts from a store without copies of its own. -/
theorem ordered_begin {fmt : Format β κ} {s : State (Row β)} {clock : ℕ} (h : Ordered fmt s clock)
    (hcopies : s.copies = []) (filter : LineFilter (Row β)) (options : Options) :
    Ordered fmt (s.begin filter options) clock ∧ Retains fmt s (s.begin filter options) := by
  have hactive : (s.begin filter options).active = s.active := by
    simp [State.active, State.begin, hcopies]
  have hkept : (s.begin filter options).kept = s.kept := by
    simp [State.begin, hcopies]
  have hstaging : (s.begin filter options).staging = s.staging := by
    simp [State.staging, State.begin, hcopies]
  refine ⟨⟨?_, ?_, ?_, ?_, ?_⟩, .of_active hkept hactive⟩
  · rw [hstaging]
    exact h.names
  · rw [hstaging]
    exact h.next
  · rw [hkept, hactive]
    exact h.order
  · rw [hkept, hactive]
    exact h.clock
  · simp [State.begin]

end Kyberion.Store
