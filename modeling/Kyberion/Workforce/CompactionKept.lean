import Kyberion.Workforce.CompactionPairs

/-!
What a compaction keeps of a transcript. The contents change only at unpinned tool results, so that
the pairs depend on the summary alone.
-/

namespace Kyberion.Workforce

open Js

section Elision

variable (messages : List WorkerContextMessage) (keepRecent : ℤ)

theorem elidable_of_mem_indexes {index : ℕ} {message : WorkerContextMessage}
    (hindex : index ∈ elidableToolResultIndexes messages keepRecent)
    (hmessage : (message, index) ∈ messages.zipIdx) : message.elidable := by
  obtain ⟨⟨other, i⟩, hother, hi⟩ := List.mem_map.mp (List.mem_of_mem_take hindex)
  obtain rfl : i = index := hi
  obtain ⟨hother, helidable⟩ := List.mem_filter.mp hother
  rw [List.mem_zipIdx_iff_getElem?] at hmessage hother
  have hsame : other = message := Option.some.inj (hother.symm.trans hmessage)
  exact hsame ▸ helidable

@[simp] theorem microcompact_shape :
    (microcompact messages keepRecent).map (·.shape) = messages.map (·.shape) := by
  unfold microcompact
  rw [List.map_map]
  refine .trans (List.map_congr_left fun entry _ => ?_)
    ((List.map_map (f := Prod.fst)).symm.trans (congrArg _ (List.zipIdx_map_fst 0 messages)))
  dsimp only [Function.comp_apply]
  split <;> rfl

theorem microcompact_filter_pinned :
    (microcompact messages keepRecent).filter (·.pinned) = messages.filter (·.pinned) := by
  have hentry (entry : WorkerContextMessage × ℕ) (hmem : entry ∈ messages.zipIdx)
      (hpinned : entry.1.pinned) :
      ¬ (entry.2 ∈ elidableToolResultIndexes messages keepRecent) := by
    intro hindex
    have := elidable_of_mem_indexes messages keepRecent hindex hmem
    simp [WorkerContextMessage.elidable, hpinned] at this
  unfold microcompact
  dsimp only
  conv_rhs => rw [← List.zipIdx_map_fst 0 messages]
  rw [List.filter_map, List.filter_map]
  have hpins : messages.zipIdx.filter ((fun message : WorkerContextMessage => message.pinned) ∘
      fun entry => if entry.2 ∉ elidableToolResultIndexes messages keepRecent ∨
          utf16Length entry.1.content ≤ ELIDE_MIN_CHARS then entry.1
        else { entry.1 with content := elisionNote entry.1.content }) =
      messages.zipIdx.filter ((fun message => message.pinned) ∘ Prod.fst) := by
    refine List.filter_congr fun entry _ => ?_
    dsimp only [Function.comp_apply]
    split <;> rfl
  rw [hpins]
  refine List.map_congr_left fun entry hmem => ?_
  obtain ⟨hmem, hpinned⟩ := List.mem_filter.mp hmem
  exact if_pos (.inl (hentry entry hmem hpinned))

end Elision

section Conditions

variable (messages : List WorkerContextMessage) (options : CompactWorkerContextOptions)
  (attempt : CompactionAttempt)

/-- The pinned messages, which a summary moves to the front. -/
def pinnedMessages : List WorkerContextMessage :=
  (microcompacted messages options).filter (·.pinned)

def unpinnedMessages : List WorkerContextMessage :=
  (microcompacted messages options).filter fun message => !message.pinned

/-- The messages that a summary leaves as they are. -/
def keptMessages : List WorkerContextMessage :=
  keptTail (summaryTailBudget (thresholdTokens options)) (unpinnedMessages messages options)

/-- The messages that a summary replaces. -/
def replacedMessages : List WorkerContextMessage :=
  (unpinnedMessages messages options).take
    ((unpinnedMessages messages options).length - (keptMessages messages options).length)

/-- The world lets the attempt put a handoff note in place of the older messages. -/
def HandsOff : Prop :=
  attempt.canCommit .handoff = true ∧ attempt.archive.isSome ∧ attempt.canCommit .archived = true

/-- The attempt has a message to put in place of the older ones. -/
def Answered : Prop :=
  if options.forceDeterministicHandoff then HandsOff attempt
  else
    match attempt.summary with
    | .ok _ => attempt.canCommit .summarized = true
    | .error (kind, _) =>
        attempt.canCommit .failed = true ∧ kind = .timeout ∧
          options.deterministicHandoffOnTimeout = true ∧ HandsOff attempt

/-- The older messages give way. -/
def Summarizes : Prop :=
  thresholdTokens options < contentTokens (microcompacted messages options) ∧
    (options.summarize ∨ options.forceDeterministicHandoff) ∧
    replacedMessages messages options ≠ [] ∧ Answered options attempt

/-- The attempt runs and publishes its outcome. -/
def Publishes : Prop :=
  attempt.canCommit .entry = true ∧
    (options.force = true ∨
      thresholdTokens options < ((tokenEstimate messages options).tokens : ℚ)) ∧
    attempt.canCommit .hooks = true ∧ attempt.canCommit .staged = true ∧
    (options.durability = true → attempt.canCommit .purged = true ∧
      attempt.snapshotRecorded = true ∧ attempt.canCommit .snapshot = true) ∧
    attempt.canCommit .ended = true

end Conditions

section Stages

variable {messages : List WorkerContextMessage} {options : CompactWorkerContextOptions}
  {attempt : CompactionAttempt}

theorem summarySplit_tail :
    (summarySplit messages options).tail = keptMessages messages options :=
  drop_pairSafeTailStart _

theorem summarySplit_head :
    (summarySplit messages options).head = replacedMessages messages options := by
  unfold replacedMessages
  rw [← summarySplit_tail]
  simp only [summarySplit, unpinnedMessages, List.length_drop, List.take_eq_take_iff]
  omega

theorem replaced_append_kept :
    replacedMessages messages options ++ keptMessages messages options =
      unpinnedMessages messages options := by
  rw [← summarySplit_head, ← summarySplit_tail]
  exact List.take_append_drop _ _

theorem handoffMessage_unpaired (archive : String) (tail : List WorkerContextMessage) :
    (handoffMessage archive tail).Unpaired :=
  fun _ => ⟨rfl, rfl⟩

theorem summaryMessage_unpaired (summary : String) (artifact : Option String)
    (tail : List WorkerContextMessage) : (summaryMessage summary artifact tail).Unpaired :=
  fun _ => ⟨rfl, rfl⟩

/-- The older messages have given way to one message. -/
def ReplacesHead (messages : List WorkerContextMessage) (options : CompactWorkerContextOptions)
    (draft : CompactionDraft) : Prop :=
  ∃ message : WorkerContextMessage, message.Unpaired ∧
    draft.messages = pinnedMessages messages options ++ message :: keptMessages messages options

theorem replacesHead {draft : CompactionDraft} {message : WorkerContextMessage}
    (hmessage : message.Unpaired)
    (h : draft.messages = (summarySplit messages options).replaceHead message) :
    ReplacesHead messages options draft := by
  refine ⟨message, hmessage, h.trans ?_⟩
  rw [← summarySplit_tail]
  rfl

variable (messages options attempt) in
theorem deterministicHandoff_cases (draft : CompactionDraft) :
    (HandsOff attempt ∧ ∃ handedOff, deterministicHandoff messages options attempt draft =
        some handedOff ∧ ReplacesHead messages options handedOff) ∨
      (¬ HandsOff attempt ∧ deterministicHandoff messages options attempt draft = none) := by
  unfold deterministicHandoff HandsOff
  cases attempt.canCommit .handoff with
  | false => exact .inr ⟨by simp, rfl⟩
  | true =>
      cases attempt.archive with
      | none => exact .inr ⟨by simp, rfl⟩
      | some archive =>
          cases attempt.canCommit .archived with
          | false => exact .inr ⟨by simp, rfl⟩
          | true =>
              exact .inl ⟨⟨rfl, rfl, rfl⟩, _, rfl,
                replacesHead (handoffMessage_unpaired archive _) rfl⟩

variable (messages options attempt) in
theorem summaryStage_cases (draft : CompactionDraft) :
    (Answered options attempt ∧ ∃ answered, summaryStage messages options attempt draft =
        some answered ∧ ReplacesHead messages options answered) ∨
      (¬ Answered options attempt ∧ ∀ answered, summaryStage messages options attempt draft =
        some answered → answered.messages = draft.messages) := by
  unfold summaryStage Answered
  split
  · obtain ⟨hhand, handedOff, heq, hreplaces⟩ | ⟨hhand, heq⟩ :=
      deterministicHandoff_cases messages options attempt
        draft
    · exact .inl ⟨hhand, handedOff, by simp [heq], hreplaces⟩
    · refine .inr ⟨hhand, fun answered hsome => ?_⟩
      simp only [heq, Option.getD_none, Option.some.injEq] at hsome
      exact hsome ▸ rfl
  · cases attempt.summary with
    | ok summary =>
        dsimp only
        split
        · rename_i hcommit
          exact .inl ⟨hcommit, _, rfl, replacesHead (summaryMessage_unpaired _ _ _) rfl⟩
        · rename_i hcommit
          exact .inr ⟨hcommit, fun _ => nofun⟩
    | error failure =>
        dsimp only
        by_cases hcommit : attempt.canCommit .failed = true
        · by_cases htimeout : failure.1 = .timeout ∧ options.deterministicHandoffOnTimeout = true
          · obtain ⟨hhand, handedOff, heq, hreplaces⟩ | ⟨hhand, heq⟩ :=
              deterministicHandoff_cases messages options attempt { draft with summaryError := some failure }
            · refine .inl ⟨⟨hcommit, htimeout.1, htimeout.2, hhand⟩, handedOff, ?_, hreplaces⟩
              rw [if_pos hcommit, if_pos htimeout, heq, Option.getD_some]
            · refine .inr ⟨fun h => hhand h.2.2.2, fun answered hsome => ?_⟩
              rw [if_pos hcommit, if_pos htimeout, heq, Option.getD_none] at hsome
              exact Option.some.inj hsome ▸ rfl
          · refine .inr ⟨fun h => htimeout ⟨h.2.1, h.2.2.1⟩, fun answered hsome => ?_⟩
            rw [if_pos hcommit, if_neg htimeout] at hsome
            exact Option.some.inj hsome ▸ rfl
        · refine .inr ⟨fun h => hcommit h.1, fun answered hsome => ?_⟩
          rw [if_neg hcommit] at hsome
          cases hsome

variable (messages options attempt) in
theorem compactionStages_cases :
    (Summarizes messages options attempt ∧ ∃ draft, compactionStages messages options attempt =
        some draft ∧ ReplacesHead messages options draft) ∨
      (¬ Summarizes messages options attempt ∧ ∀ draft, compactionStages messages options attempt =
        some draft → draft.messages = microcompacted messages options) := by
  unfold compactionStages Summarizes
  dsimp only
  split
  · rename_i hneeded
    rw [summarySplit_head]
    by_cases hhead : replacedMessages messages options = []
    · refine .inr ⟨fun h => h.2.2.1 hhead, fun draft hsome => ?_⟩
      rw [if_pos hhead] at hsome
      exact Option.some.inj hsome ▸ rfl
    · rw [if_neg hhead]
      obtain ⟨hanswered, answered⟩ | ⟨hanswered, hsame⟩ :=
        summaryStage_cases messages options attempt
          { messages := microcompacted messages options
            retainedTail := (summarySplit messages options).tail }
      · exact .inl ⟨⟨hneeded.1, hneeded.2, hhead, hanswered⟩, answered⟩
      · exact .inr ⟨fun h => hanswered h.2.2.2, hsame⟩
  · rename_i hneeded
    refine .inr ⟨fun h => hneeded ⟨h.1, h.2.1⟩, fun draft hsome => ?_⟩
    exact Option.some.inj hsome ▸ rfl

variable (messages options attempt) in
/-- What an attempt returns. -/
theorem compactWorkerContext_cases :
    (Publishes messages options attempt ∧ ∃ draft, compactionStages messages options attempt =
        some draft ∧ (compactWorkerContext messages options attempt).messages =
          addCarryover options draft.messages) ∨
      ((Publishes messages options attempt → compactionStages messages options attempt = none) ∧
        (compactWorkerContext messages options attempt).messages = messages) := by
  unfold compactWorkerContext
  dsimp only
  split
  · rename_i hentry
    exact .inr ⟨fun h => absurd h.1 (by simp [hentry]), rfl⟩
  rename_i hentry
  split
  · rename_i hsmall
    refine .inr ⟨fun h => absurd h.2.1 ?_, rfl⟩
    simpa [hsmall.1] using hsmall.2
  rename_i hneeded
  split
  · rename_i hhooks
    exact .inr ⟨fun h => absurd h.2.2.1 (by simp [hhooks]), rfl⟩
  rename_i hhooks
  cases hstages : compactionStages messages options attempt with
  | none => exact .inr ⟨fun _ => rfl, rfl⟩
  | some draft =>
      dsimp only
      split
      · rename_i hstaged
        unfold publish
        dsimp only
        split
        · rename_i hpurged
          refine .inr ⟨fun h => absurd (h.2.2.2.2.1 hpurged.1).1 (by simp [hpurged.2]), rfl⟩
        rename_i hpurged
        split
        · rename_i hsnapshot
          refine .inr ⟨fun h => absurd (h.2.2.2.2.1 hsnapshot.1).2 ?_, rfl⟩
          simpa using hsnapshot.2
        rename_i hsnapshot
        split
        · rename_i hended
          refine .inl ⟨⟨?_, ?_, ?_, hstaged, fun hdurable => ?_, hended⟩, draft, rfl, rfl⟩
          · simpa using hentry
          · by_contra h
            simp only [not_or, not_lt, Bool.not_eq_true] at h
            exact hneeded h
          · simpa using hhooks
          · simp only [hdurable, true_and, Bool.not_eq_false, Bool.and_eq_true] at hpurged hsnapshot
            exact ⟨hpurged, hsnapshot⟩
        · rename_i hended
          exact .inr ⟨fun h => absurd h.2.2.2.2.2 hended, rfl⟩
      · rename_i hstaged
        exact .inr ⟨fun h => absurd h.2.2.2.1 hstaged, rfl⟩

/-- An attempt that publishes a summary. -/
theorem compactWorkerContext_summarized (hpublishes : Publishes messages options attempt)
    (hsummarizes : Summarizes messages options attempt) :
    ∃ draft, ReplacesHead messages options draft ∧
      (compactWorkerContext messages options attempt).messages =
        addCarryover options draft.messages := by
  obtain ⟨-, replaced, hsome, hreplaces⟩ | ⟨hkept, -⟩ :=
    compactionStages_cases messages options attempt
  · obtain ⟨-, draft, hstages, hmessages⟩ | ⟨hstages, -⟩ :=
      compactWorkerContext_cases messages options attempt
    · obtain rfl := Option.some.inj (hsome.symm.trans hstages)
      exact ⟨replaced, hreplaces, hmessages⟩
    · cases (hstages hpublishes).symm.trans hsome
  · exact absurd hsummarizes hkept

variable (options) in
/-- The pairs of a transcript are those of its microcompacted messages. -/
theorem pairsKept_microcompacted (compacted : List WorkerContextMessage) :
    PairsKept (microcompacted messages options) compacted ↔ PairsKept messages compacted := by
  have hresults (pair : String) :
      (microcompacted messages options).countP (·.isResult pair) =
        messages.countP (·.isResult pair) :=
    (countP_of_shape (microcompact_shape messages _) pair).2
  have hpinned : (microcompacted messages options).filter (·.pinned) = messages.filter (·.pinned) :=
    microcompact_filter_pinned messages _
  constructor
  · intro h
    exact ⟨h.results, fun pair use hmem huse => (h.uses pair use hmem huse).trans (hresults pair),
      hpinned ▸ h.pinned⟩
  · intro h
    exact ⟨h.results,
      fun pair use hmem huse => (h.uses pair use hmem huse).trans (hresults pair).symm,
      hpinned ▸ h.pinned⟩

theorem pairsKept_addCarryover {compacted : List WorkerContextMessage}
    (hpinned : (messages.filter (·.pinned)).Sublist compacted) :
    PairsKept messages (addCarryover options compacted) ↔ PairsKept messages compacted := by
  refine pairsKept_append (fun message hmem => ?_) hpinned
  obtain ⟨block, -, rfl⟩ := Option.map_eq_some_iff.mp (Option.mem_toList.mp hmem)
  exact fun _ => ⟨rfl, rfl⟩

/-- A compaction keeps the pairs and the pinned messages exactly when the older messages stay, or
the place where the tail begins splits no pair. -/
theorem compaction_keeps_pairs (h : WellPaired messages) :
    PairsKept messages (compactWorkerContext messages options attempt).messages ↔
      (Publishes messages options attempt → Summarizes messages options attempt →
        Unsplit (pinnedMessages messages options) (replacedMessages messages options)
          (keptMessages messages options)) := by
  have hmicro : WellPaired (microcompacted messages options) :=
    h.of_shape (microcompact_shape messages _)
  obtain ⟨hpublishes, draft, hstages, hmessages⟩ | ⟨hstages, hmessages⟩ :=
    compactWorkerContext_cases messages options attempt
  · rw [hmessages]
    obtain ⟨hsummarizes, replaced, hsome, message, hmessage, hreplaced⟩ | ⟨hkept, hdraft⟩ :=
      compactionStages_cases messages options attempt
    · obtain rfl := Option.some.inj (hsome.symm.trans hstages)
      have hpinned : (messages.filter (·.pinned)).Sublist replaced.messages := by
        rw [hreplaced, pinnedMessages, microcompacted, microcompact_filter_pinned]
        exact List.sublist_append_left _ _
      rw [pairsKept_addCarryover hpinned, ← pairsKept_microcompacted options,
        hreplaced]
      exact (pairsKept_summary_iff hmicro hmessage rfl replaced_append_kept.symm).trans
        ⟨fun hunsplit _ _ => hunsplit, fun hunsplit => hunsplit hpublishes hsummarizes⟩
    · have hpairs : PairsKept messages draft.messages := by
        rw [hdraft draft hstages]
        exact h.pairsKept (microcompact_shape messages _) (microcompact_filter_pinned messages _)
      rw [pairsKept_addCarryover hpairs.pinned]
      exact ⟨fun _ _ hsummarizes => absurd hsummarizes hkept, fun _ => hpairs⟩
  · rw [hmessages]
    refine ⟨fun _ hpublishes hsummarizes => ?_, fun _ => h.pairsKept rfl rfl⟩
    obtain ⟨-, draft, hsome, -⟩ | ⟨hkept, -⟩ :=
      compactionStages_cases messages options attempt
    · cases (hstages hpublishes).symm.trans hsome
    · exact absurd hsummarizes hkept

end Stages

section Runs

/-- A small window whose summarizer answers. -/
def smallWindow : CompactWorkerContextOptions where
  profile := { contextWindowTokens := 0 }
  summarize := true

def summarizer : CompactionAttempt where
  summary := .ok "done so far"

def sized (role : WorkerContextRole) (pair : Option String) (size : ℕ) :
    WorkerContextMessage where
  role
  content := String.ofList (List.replicate size 'x')
  pairId := pair

/-- One call after the other. -/
def serialCalls (first last : ℕ) : List WorkerContextMessage :=
  [sized .toolUse (some "a") first, sized .toolResult (some "a") 3,
    sized .toolUse (some "b") 3, sized .toolResult (some "b") last]

/-- Two calls in one turn. -/
def parallelCalls (first last : ℕ) : List WorkerContextMessage :=
  [sized .toolUse (some "a") first, sized .toolUse (some "b") 3,
    sized .toolResult (some "a") 3, sized .toolResult (some "b") last]

variable {first last : ℕ}

theorem estimateTokens_sized (role : WorkerContextRole) (pair : Option String) (size : ℕ) :
    estimateTokens (sized role pair size).content = (size + 2) / 3 := by
  have hlength : utf16Length (sized role pair size).content = size := by
    unfold utf16Length utf16 sized
    rw [String.toList_ofList, List.length_flatMap, List.map_replicate, List.sum_replicate]
    simp
  rw [estimateTokens, hlength]

/-- The last of four messages is the tail that fits. -/
theorem verbatimTail_sized (hlast : 766 ≤ last) (use next : WorkerContextMessage)
    (role : WorkerContextRole) (pair : Option String) :
    verbatimTail 256 [use, next, sized role pair 3, sized .toolResult (some "b") last] =
      [sized .toolResult (some "b") last] := by
  have hover : ¬ FitsTail 256 [sized role pair 3, sized .toolResult (some "b") last] := by
    have hnone : contentTokens [] = 0 := rfl
    simp only [FitsTail, contentTokens_cons, estimateTokens_sized, List.tail_cons, hnone]
    omega
  exact (verbatimTail_append hover [use, next]).trans (verbatimTail_of_fits (.inr rfl))

theorem summaryTailBudget_smallWindow :
    summaryTailBudget (thresholdTokens smallWindow) = 256 := by
  decide +kernel

theorem keptMessages_serialCalls (hlast : 766 ≤ last) :
    keptMessages (serialCalls first last) smallWindow =
      [sized .toolUse (some "b") 3, sized .toolResult (some "b") last] := by
  have hflow : unpinnedMessages (serialCalls first last) smallWindow = serialCalls first last := rfl
  rw [keptMessages, summaryTailBudget_smallWindow, hflow, keptTail, serialCalls,
    verbatimTail_sized hlast]
  rfl

theorem keptMessages_parallelCalls (hlast : 766 ≤ last) :
    keptMessages (parallelCalls first last) smallWindow =
      [sized .toolUse (some "b") 3, sized .toolResult (some "a") 3,
        sized .toolResult (some "b") last] := by
  have hflow : unpinnedMessages (parallelCalls first last) smallWindow =
      parallelCalls first last := rfl
  rw [keptMessages, summaryTailBudget_smallWindow, hflow, keptTail, parallelCalls,
    verbatimTail_sized hlast]
  rfl

theorem smallWindow_publishes (messages : List WorkerContextMessage)
    (h : 1024 < contentTokens messages) : Publishes messages smallWindow summarizer := by
  have hthreshold : thresholdTokens smallWindow = 1024 := by decide +kernel
  have htokens : (tokenEstimate messages smallWindow).tokens = contentTokens messages := rfl
  refine ⟨rfl, .inr ?_, rfl, rfl, nofun, rfl⟩
  rw [hthreshold, htokens]
  exact_mod_cast h

theorem compaction_keeps_pairs_serial :
    PairsKept (serialCalls 3100 780)
      (compactWorkerContext (serialCalls 3100 780) smallWindow summarizer).messages := by
  refine (compaction_keeps_pairs (by decide +kernel)).mpr fun _ _ => ?_
  have hreplaced : replacedMessages (serialCalls 3100 780) smallWindow =
      [sized .toolUse (some "a") 3100, sized .toolResult (some "a") 3] := by
    rw [replacedMessages, keptMessages_serialCalls (by omega)]
    rfl
  rw [hreplaced, keptMessages_serialCalls (by omega)]
  decide +kernel

/-- The tail of parallel calls begins behind the first use, and its result follows. -/
theorem parallelCalls_split :
    ¬ ∀ (messages : List WorkerContextMessage) (options : CompactWorkerContextOptions)
      (attempt : CompactionAttempt), WellPaired messages →
      PairsKept messages (compactWorkerContext messages options attempt).messages := by
  intro hall
  have hkept := hall (parallelCalls 3100 780) smallWindow summarizer (by decide +kernel)
  have hpublishes := smallWindow_publishes (parallelCalls 3100 780) (by
    simp [parallelCalls, contentTokens, estimateTokens_sized])
  have hsummarizes : Summarizes (parallelCalls 3100 780) smallWindow summarizer := by
    refine ⟨?_, .inl rfl, ?_, rfl⟩
    · have htokens : ((tokenEstimate (parallelCalls 3100 780) smallWindow).tokens : ℚ) =
          contentTokens (microcompacted (parallelCalls 3100 780) smallWindow) := rfl
      rw [← htokens]
      exact hpublishes.2.1.resolve_left nofun
    · rw [replacedMessages, keptMessages_parallelCalls (by omega)]
      exact nofun
  obtain ⟨draft, ⟨message, hmessage, hreplaced⟩, hmessages⟩ :=
    compactWorkerContext_summarized hpublishes hsummarizes
  rw [hmessages, hreplaced, keptMessages_parallelCalls (by omega)] at hkept
  obtain ⟨use, hmem, huse⟩ := hkept.results "a" [message, sized .toolUse (some "b") 3]
    (sized .toolResult (some "a") 3) [sized .toolResult (some "b") 780] rfl rfl
  obtain rfl | hmem := List.mem_cons.mp hmem
  · simp [(hmessage "a").1] at huse
  · obtain rfl := List.mem_singleton.mp hmem
    cases huse

end Runs

end Kyberion.Workforce
