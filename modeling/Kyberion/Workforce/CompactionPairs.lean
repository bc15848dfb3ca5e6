import Kyberion.Workforce.Compaction

/-!
Tool calls and their results through a compaction. A summary pulls the pinned messages in front and
keeps a tail of the others; a pair survives when its two messages are treated alike.
-/

namespace Kyberion.Workforce

section Tail

variable {budget : ℤ}

/-- The tail loop does not stop inside of these messages: they fit the budget, or nothing but
empty messages stands behind the first. -/
def FitsTail (budget : ℤ) (messages : List WorkerContextMessage) : Prop :=
  (contentTokens messages : ℤ) ≤ budget ∨ contentTokens messages.tail = 0

instance (messages : List WorkerContextMessage) : Decidable (FitsTail budget messages) :=
  inferInstanceAs (Decidable (_ ∨ _))

/-- The longest end of a transcript that fits. -/
def verbatimTail (budget : ℤ) : List WorkerContextMessage → List WorkerContextMessage
  | [] => []
  | message :: rest =>
      if FitsTail budget (message :: rest) then message :: rest else verbatimTail budget rest

/-- The longest end that fits, from the use of its first message when that is a result. -/
def keptTail (budget : ℤ) (flow : List WorkerContextMessage) : List WorkerContextMessage :=
  let tail := verbatimTail budget flow
  match leadingResult tail 0 with
  | none => tail
  | some pair =>
      if (flow.take (flow.length - tail.length)).any (·.isUse pair) then
        flow.dropWhile fun message => !message.isUse pair
      else tail

@[simp] theorem contentTokens_cons (message : WorkerContextMessage)
    (messages : List WorkerContextMessage) :
    contentTokens (message :: messages) =
      estimateTokens message.content + contentTokens messages := rfl

theorem FitsTail.of_cons {message : WorkerContextMessage} {messages : List WorkerContextMessage}
    (h : FitsTail budget (message :: messages)) : FitsTail budget messages := by
  unfold FitsTail at *
  cases messages with
  | nil => exact .inr rfl
  | cons next rest =>
      simp only [contentTokens_cons, List.tail_cons] at *
      omega

theorem verbatimTail_of_fits {messages : List WorkerContextMessage}
    (h : FitsTail budget messages) : verbatimTail budget messages = messages := by
  cases messages with
  | nil => rfl
  | cons message rest => exact if_pos h

theorem verbatimTail_append {later : List WorkerContextMessage} {message : WorkerContextMessage}
    (h : ¬ FitsTail budget (message :: later)) (earlier : List WorkerContextMessage) :
    verbatimTail budget (earlier ++ message :: later) = verbatimTail budget later := by
  have hfits (earlier : List WorkerContextMessage) :
      ¬ FitsTail budget (earlier ++ message :: later) := by
    induction earlier with
    | nil => exact h
    | cons first earlier ih => exact fun hfirst => ih hfirst.of_cons
  induction earlier with
  | nil => exact if_neg h
  | cons first earlier ih => exact (if_neg (hfits (first :: earlier))).trans ih

/-- The first loop leaves the longest end that fits. -/
theorem drop_budgetTailStart (earlier later : List WorkerContextMessage)
    (hfits : FitsTail budget later) :
    (earlier ++ later).drop
        (budgetTailStart budget earlier.reverse earlier.length (contentTokens later)) =
      verbatimTail budget (earlier ++ later) := by
  induction earlier using List.reverseRecOn generalizing later with
  | nil => simp [budgetTailStart, verbatimTail_of_fits hfits]
  | append_singleton earlier candidate ih =>
      rw [List.reverse_append, List.length_append, List.append_assoc, List.reverse_singleton,
        List.singleton_append, List.singleton_append, budgetTailStart]
      split
      · rename_i hbreak
        have hover : ¬ FitsTail budget (candidate :: later) := by
          unfold FitsTail
          simp only [contentTokens_cons, List.tail_cons]
          omega
        rw [verbatimTail_append hover, verbatimTail_of_fits hfits, List.length_singleton,
          ← List.singleton_append, ← List.append_assoc]
        exact List.drop_left' (by simp)
      · rename_i hmore
        have hmore : FitsTail budget (candidate :: later) := by
          unfold FitsTail
          simp only [contentTokens_cons, List.tail_cons]
          omega
        have hrest := ih (candidate :: later) hmore
        rw [contentTokens_cons, Nat.add_comm] at hrest
        exact hrest

theorem budgetTailStart_le (candidates : List WorkerContextMessage) (start tokens : ℕ) :
    budgetTailStart budget candidates start tokens ≤ start := by
  induction candidates generalizing start tokens with
  | nil => exact Nat.le_refl _
  | cons candidate candidates ih =>
      rw [budgetTailStart]
      split
      · exact Nat.le_refl _
      · exact (ih _ _).trans (Nat.sub_le _ _)

theorem drop_of_findIdx? {α : Type} {p : α → Bool} {xs : List α} {i : ℕ}
    (h : xs.findIdx? p = some i) : xs.drop i = xs.dropWhile fun x => !p x := by
  induction xs generalizing i with
  | nil => cases h
  | cons x xs ih =>
      rw [List.findIdx?_cons] at h
      split at h
      · rename_i hx
        obtain rfl := Option.some.inj h
        simp [hx]
      · rename_i hx
        obtain ⟨j, hj, rfl⟩ := Option.map_eq_some_iff.mp h
        simpa [List.dropWhile_cons, hx] using ih hj

theorem leadingResult_drop (flow : List WorkerContextMessage) (start : ℕ) :
    leadingResult flow start = leadingResult (flow.drop start) 0 := by
  simp [leadingResult]

/-- A use is no result. -/
theorem leadingResult_of_findIdx? {flow : List WorkerContextMessage} {pair : String} {i : ℕ}
    (h : flow.findIdx? (·.isUse pair) = some i) : leadingResult flow i = none := by
  obtain ⟨hi, huse, -⟩ := List.findIdx?_eq_some_iff_getElem.mp h
  have hrole : flow[i].role ≠ .toolResult := by
    simp only [WorkerContextMessage.isUse, Bool.and_eq_true, decide_eq_true_eq] at huse
    simp [huse.1]
  simp [leadingResult, hi, hrole]

/-- The second loop moves at most once. -/
theorem pairTailStart_eq (flow : List WorkerContextMessage) (start : ℕ) :
    pairTailStart flow start start =
      match leadingResult flow start with
      | none => start
      | some pair => ((flow.take start).findIdx? (·.isUse pair)).getD start := by
  cases start with
  | zero => cases leadingResult flow 0 <;> rfl
  | succ n =>
      rw [pairTailStart]
      cases leadingResult flow (n + 1) with
      | none => rfl
      | some pair =>
          dsimp only
          rw [List.findIdx?_take]
          cases hfind : flow.findIdx? (·.isUse pair) with
          | none => rfl
          | some i =>
              have hstop : pairTailStart flow n i = i := by
                cases n with
                | zero => rfl
                | succ n => rw [pairTailStart, leadingResult_of_findIdx? hfind]
              by_cases hi : n + 1 ≤ i
              · have hout : ¬ i < n + 1 := not_lt.mpr hi
                simp only [if_pos hi, Option.bind_some, Option.guard, hout, decide_false,
                  Bool.false_eq_true, if_false, Option.getD_none]
              · have hin : i < n + 1 := not_le.mp hi
                simp only [if_neg hi, Option.bind_some, Option.guard, hin, decide_true, if_true,
                  Option.getD_some, hstop]

/-- The tail of the summary stage. -/
theorem drop_pairSafeTailStart (flow : List WorkerContextMessage) :
    flow.drop (pairSafeTailStart flow budget) = keptTail budget flow := by
  have hnone : FitsTail budget [] := .inr rfl
  have htail := drop_budgetTailStart flow [] hnone
  have hle : budgetTailStart budget flow.reverse flow.length 0 ≤ flow.length :=
    budgetTailStart_le flow.reverse flow.length 0
  rw [List.append_nil] at htail
  unfold pairSafeTailStart keptTail
  change flow.drop (budgetTailStart budget flow.reverse flow.length 0) = _ at htail
  dsimp only
  generalize budgetTailStart budget flow.reverse flow.length 0 = start at *
  have hstart : flow.length - (flow.drop start).length = start := by
    rw [List.length_drop]
    omega
  rw [← htail, pairTailStart_eq, leadingResult_drop, hstart]
  cases leadingResult (flow.drop start) 0 with
  | none => rfl
  | some pair =>
      dsimp only
      rw [← List.findIdx?_isSome]
      cases hfind : (flow.take start).findIdx? (·.isUse pair) with
      | none => rfl
      | some i =>
          rw [List.findIdx?_take, Option.bind_eq_some_iff] at hfind
          obtain ⟨j, hflow, hguard⟩ := hfind
          obtain ⟨rfl, -⟩ := Option.guard_eq_some_iff.mp hguard
          exact drop_of_findIdx? hflow

end Tail

section Pairs

/-- What compaction leaves of a message, as far as pairs are concerned. -/
def WorkerContextMessage.shape (message : WorkerContextMessage) :
    WorkerContextRole × Option String × Bool :=
  (message.role, message.pairId, message.pinned)

/-- The pair that a message is the result of. -/
def WorkerContextMessage.resultPair (message : WorkerContextMessage) : Option String :=
  if message.role = .toolResult then message.pair else none

theorem WorkerContextMessage.mem_resultPair {message : WorkerContextMessage} {pair : String} :
    pair ∈ message.resultPair ↔ message.isResult pair := by
  unfold resultPair isResult
  by_cases hrole : message.role = .toolResult <;> simp [hrole]

/-- Every result with a pair follows exactly one use of the pair. -/
def WellPaired (messages : List WorkerContextMessage) : Prop :=
  ∀ pair before result after, messages = before ++ result :: after → result.isResult pair →
    before.countP (·.isUse pair) = 1 ∧ after.countP (·.isUse pair) = 0

theorem wellPaired_iff_resultPair {messages : List WorkerContextMessage} :
    WellPaired messages ↔ ∀ i < messages.length, ∀ pair ∈ messages[i]?.bind (·.resultPair),
      (messages.take i).countP (·.isUse pair) = 1 ∧
        (messages.drop (i + 1)).countP (·.isUse pair) = 0 := by
  constructor
  · intro h i hi pair hpair
    rw [List.getElem?_eq_getElem hi, Option.bind_some] at hpair
    refine h pair _ messages[i] _ ?_ (WorkerContextMessage.mem_resultPair.mp hpair)
    rw [List.getElem_cons_drop, List.take_append_drop]
  · intro h pair before result after hsplit hresult
    subst hsplit
    have hplace := h before.length (by simp) pair
      (by simpa using WorkerContextMessage.mem_resultPair.mpr hresult)
    rw [List.take_left, ← List.drop_drop, List.drop_left] at hplace
    exact hplace

instance (messages : List WorkerContextMessage) : Decidable (WellPaired messages) :=
  decidable_of_iff _ wellPaired_iff_resultPair.symm

/-- What a compaction is to keep: every result has its use in front of it, every kept use has the
results that it had, and the pinned messages stand unchanged and in their order. -/
structure PairsKept (messages compacted : List WorkerContextMessage) : Prop where
  results : ∀ pair before result after, compacted = before ++ result :: after →
    result.isResult pair → ∃ use ∈ before, use.isUse pair
  uses : ∀ pair, ∀ use ∈ compacted, use.isUse pair →
    compacted.countP (·.isResult pair) = messages.countP (·.isResult pair)
  pinned : (messages.filter (·.pinned)).Sublist compacted

/-- A message that belongs to no pair. -/
def WorkerContextMessage.Unpaired (message : WorkerContextMessage) : Prop :=
  ∀ pair, message.isUse pair = false ∧ message.isResult pair = false

variable {messages xs ys : List WorkerContextMessage}

theorem countP_of_shape (h : xs.map (·.shape) = ys.map (·.shape)) (pair : String) :
    xs.countP (·.isUse pair) = ys.countP (·.isUse pair) ∧
      xs.countP (·.isResult pair) = ys.countP (·.isResult pair) := by
  have huse (zs : List WorkerContextMessage) : zs.countP (·.isUse pair) =
      (zs.map (·.shape)).countP fun shape =>
        shape.1 = .toolUse && shape.2.1.filter (· ≠ "") = some pair := by
    rw [List.countP_map]
    rfl
  have hresult (zs : List WorkerContextMessage) : zs.countP (·.isResult pair) =
      (zs.map (·.shape)).countP fun shape =>
        shape.1 = .toolResult && shape.2.1.filter (· ≠ "") = some pair := by
    rw [List.countP_map]
    rfl
  rw [huse xs, huse ys, hresult xs, hresult ys, h]
  exact ⟨rfl, rfl⟩

theorem WellPaired.of_shape (h : WellPaired xs) (hshape : ys.map (·.shape) = xs.map (·.shape)) :
    WellPaired ys := by
  intro pair before result after hsplit hresult
  rw [hsplit, List.map_append, List.map_cons] at hshape
  obtain ⟨before', rest, rfl, hbefore, hrest⟩ := List.append_eq_map_iff.mp hshape
  obtain ⟨result', after', rfl, hshape', hafter⟩ := List.map_eq_cons_iff.mp hrest
  have hresult' : result'.isResult pair := by
    have hsame : [result].map (·.shape) = [result'].map (·.shape) := by simp [hshape']
    simpa [List.countP_cons, hresult] using (countP_of_shape hsame pair).2.symm
  obtain ⟨hone, hnone⟩ := h pair before' result' after' rfl hresult'
  rw [(countP_of_shape hbefore.symm pair).1, (countP_of_shape hafter.symm pair).1]
  exact ⟨hone, hnone⟩

theorem WorkerContextMessage.not_isUse_of_isResult {message : WorkerContextMessage} {pair : String}
    (h : message.isResult pair) : message.isUse pair = false := by
  simp only [isResult, Bool.and_eq_true, decide_eq_true_eq] at h
  simp [isUse, h.1]

/-- The uses of a pair that has a result. -/
theorem WellPaired.uses (h : WellPaired xs) {pair : String} {result : WorkerContextMessage}
    (hmem : result ∈ xs) (hresult : result.isResult pair) : xs.countP (·.isUse pair) = 1 := by
  obtain ⟨before, after, rfl⟩ := List.append_of_mem hmem
  obtain ⟨hone, hnone⟩ := h pair before result after rfl hresult
  rw [List.countP_append, List.countP_cons, hone, hnone,
    WorkerContextMessage.not_isUse_of_isResult hresult]
  rfl

/-- A transcript that loses nothing but contents. -/
theorem WellPaired.pairsKept (h : WellPaired messages)
    (hshape : xs.map (·.shape) = messages.map (·.shape))
    (hpinned : xs.filter (·.pinned) = messages.filter (·.pinned)) : PairsKept messages xs where
  results pair before result after hsplit hresult := by
    have hone := (h.of_shape hshape pair before result after hsplit hresult).1
    exact List.countP_pos_iff.mp (by omega)
  uses pair use _ _ := (countP_of_shape hshape pair).2
  pinned := hpinned ▸ List.filter_sublist

/-- A kept result has its use in front of its place. -/
theorem PairsKept.use_of_getElem? {compacted : List WorkerContextMessage}
    (h : PairsKept messages compacted) {pair : String} {i : ℕ}
    (hresult : compacted[i]?.any (·.isResult pair) = true) :
    (compacted.take i).any (·.isUse pair) = true := by
  obtain ⟨result, hi, hresult⟩ := (Option.any_eq_true _ _).mp hresult
  obtain ⟨hlt, rfl⟩ := List.getElem?_eq_some_iff.mp hi
  obtain ⟨use, hmem, huse⟩ := h.results pair (compacted.take i) compacted[i]
    (compacted.drop (i + 1)) (by rw [List.getElem_cons_drop, List.take_append_drop]) hresult
  exact List.any_eq_true.mpr ⟨use, hmem, huse⟩

/-- What is added behind belongs to no pair. -/
theorem pairsKept_append {extra : List WorkerContextMessage}
    (hextra : ∀ message ∈ extra, message.Unpaired)
    (hpinned : (messages.filter (·.pinned)).Sublist xs) :
    PairsKept messages (xs ++ extra) ↔ PairsKept messages xs := by
  have hcount (pair : String) :
      (xs ++ extra).countP (·.isResult pair) = xs.countP (·.isResult pair) := by
    rw [List.countP_append, Nat.add_eq_left, List.countP_eq_zero]
    exact fun message hmem => by simp [(hextra message hmem pair).2]
  constructor
  · intro h
    refine ⟨fun pair before result after hsplit hresult => ?_, fun pair use hmem huse => ?_, hpinned⟩
    · exact h.results pair before result (after ++ extra) (by rw [hsplit]; simp) hresult
    · rw [← hcount]
      exact h.uses pair use (List.mem_append_left _ hmem) huse
  · intro h
    refine ⟨fun pair before result after hsplit hresult => ?_, fun pair use hmem huse => ?_,
      hpinned.trans (List.sublist_append_left _ _)⟩
    · obtain ⟨middle, rfl, hmiddle⟩ | ⟨middle, hmiddle, hrest⟩ :=
        List.append_eq_append_iff.mp hsplit
      · have hmem : result ∈ extra := by simp [hmiddle]
        simp [(hextra result hmem pair).2] at hresult
      · cases middle with
        | nil =>
            have hmem : result ∈ extra := by
              rw [List.nil_append] at hrest
              simp [← hrest]
            simp [(hextra result hmem pair).2] at hresult
        | cons first middle =>
            obtain ⟨rfl, rfl⟩ := List.cons.inj hrest
            exact h.results pair before _ middle hmiddle hresult
    · rw [hcount]
      obtain hmem | hmem := List.mem_append.mp hmem
      · exact h.uses pair use hmem huse
      · simp [(hextra use hmem pair).1] at huse

/-- The results of a part have their uses in a part. -/
def UsesIn (results uses : List WorkerContextMessage) : Prop :=
  ∀ result ∈ results, ∀ pair ∈ result.resultPair, ∃ use ∈ uses, use.isUse pair

/-- The two messages of a pair are both pinned, both summarized or both kept; a pinned use stands in
front of a kept result too. -/
structure Unsplit (pinned head tail : List WorkerContextMessage) : Prop where
  ofPinned : UsesIn pinned pinned
  ofHead : UsesIn head head
  ofTail : UsesIn tail (pinned ++ tail)

instance (results uses : List WorkerContextMessage) : Decidable (UsesIn results uses) :=
  inferInstanceAs (Decidable (∀ result ∈ results, ∀ pair ∈ result.resultPair,
    ∃ use ∈ uses, use.isUse pair))

instance (pinned head tail : List WorkerContextMessage) : Decidable (Unsplit pinned head tail) :=
  decidable_of_iff (UsesIn pinned pinned ∧ UsesIn head head ∧ UsesIn tail (pinned ++ tail))
    ⟨fun h => ⟨h.1, h.2.1, h.2.2⟩, fun h => ⟨h.1, h.2, h.3⟩⟩

theorem UsesIn.use {results uses : List WorkerContextMessage} (h : UsesIn results uses)
    {result : WorkerContextMessage} {pair : String} (hmem : result ∈ results)
    (hresult : result.isResult pair) : ∃ use ∈ uses, use.isUse pair :=
  h result hmem pair (WorkerContextMessage.mem_resultPair.mpr hresult)

/-- A place in a part of a transcript, as a place in the transcript. -/
theorem exists_split_of_filter {α : Type} {p : α → Bool} {xs before after : List α} {x : α}
    (h : xs.filter p = before ++ x :: after) :
    ∃ earlier later, xs = earlier ++ x :: later ∧ earlier.filter p = before ∧
      later.filter p = after := by
  obtain ⟨first, rest, rfl, hfirst, hrest⟩ := List.filter_eq_append_iff.mp h
  obtain ⟨between, later, rfl, hbetween, -, hlater⟩ := List.filter_eq_cons_iff.mp hrest
  refine ⟨first ++ between, later, by simp, ?_, hlater⟩
  rw [List.filter_append, hfirst, List.filter_eq_nil_iff.mpr hbetween, List.append_nil]

/-- The use of a result in its part of the transcript stands in front of it there. -/
theorem WellPaired.use_before (h : WellPaired xs) {p : WorkerContextMessage → Bool} {pair : String}
    {before after : List WorkerContextMessage} {result use : WorkerContextMessage}
    (hsplit : xs.filter p = before ++ result :: after) (hresult : result.isResult pair)
    (hmem : use ∈ xs.filter p) (huse : use.isUse pair) : use ∈ before := by
  obtain ⟨earlier, later, rfl, rfl, rfl⟩ := exists_split_of_filter hsplit
  have hnone := (h pair earlier result later rfl hresult).2
  rw [hsplit] at hmem
  obtain hmem | hmem := List.mem_append.mp hmem
  · exact hmem
  · obtain rfl | hmem := List.mem_cons.mp hmem
    · simp [WorkerContextMessage.not_isUse_of_isResult hresult] at huse
    · exact absurd huse (List.countP_eq_zero.mp hnone use (List.mem_of_mem_filter hmem))

section Summary

variable {pinned head tail : List WorkerContextMessage} {message : WorkerContextMessage}

theorem countP_parts (hpinned : xs.filter (·.pinned) = pinned)
    (hflow : (xs.filter fun message => !message.pinned) = head ++ tail)
    (q : WorkerContextMessage → Bool) :
    xs.countP q = pinned.countP q + head.countP q + tail.countP q := by
  rw [List.countP_eq_countP_filter_add xs q (·.pinned), hpinned, hflow, List.countP_append,
    Nat.add_assoc]

theorem WellPaired.uses_parts (h : WellPaired xs) (hpinned : xs.filter (·.pinned) = pinned)
    (hflow : (xs.filter fun message => !message.pinned) = head ++ tail) {pair : String}
    {result : WorkerContextMessage} (hin : result ∈ pinned ∨ result ∈ head ∨ result ∈ tail)
    (hresult : result.isResult pair) :
    pinned.countP (·.isUse pair) + head.countP (·.isUse pair) + tail.countP (·.isUse pair) = 1 := by
  rw [← countP_parts hpinned hflow]
  refine h.uses ?_ hresult
  obtain hin | hin := hin
  · exact List.mem_of_mem_filter (hpinned ▸ hin)
  · exact List.mem_of_mem_filter (hflow ▸ List.mem_append.mpr hin)

/-- A summary keeps the pairs exactly when it splits none. -/
theorem pairsKept_summary_iff (h : WellPaired xs) (hmessage : message.Unpaired)
    (hpinned : xs.filter (·.pinned) = pinned)
    (hflow : (xs.filter fun message => !message.pinned) = head ++ tail) :
    PairsKept xs (pinned ++ message :: tail) ↔ Unsplit pinned head tail := by
  have hresults (pair : String) : (pinned ++ message :: tail).countP (·.isResult pair) =
      pinned.countP (·.isResult pair) + tail.countP (·.isResult pair) := by
    rw [List.countP_append, List.countP_cons, (hmessage pair).2]
    rfl
  have hxs (pair : String) := countP_parts hpinned hflow (·.isResult pair)
  constructor
  · intro hkept
    refine ⟨fun result hin pair hpair => ?_, fun result hin pair hpair => ?_,
      fun result hin pair hpair => ?_⟩ <;>
      have hresult := WorkerContextMessage.mem_resultPair.mp hpair
    · obtain ⟨before, after, rfl⟩ := List.append_of_mem hin
      obtain ⟨use, huse, hisUse⟩ := hkept.results pair before result (after ++ message :: tail)
        (by simp) hresult
      exact ⟨use, List.mem_append_left _ huse, hisUse⟩
    · -- a use outside of the head is kept, and has lost this result
      have hone := h.uses_parts hpinned hflow (.inr (.inl hin)) hresult
      have hlost : 0 < head.countP (·.isResult pair) :=
        List.countP_pos_iff.mpr ⟨result, hin, hresult⟩
      by_contra hnone
      have hhead : head.countP (·.isUse pair) = 0 :=
        List.countP_eq_zero.mpr fun use hmem huse => hnone ⟨use, hmem, huse⟩
      have hout : 0 < (pinned ++ message :: tail).countP (·.isUse pair) := by
        rw [List.countP_append, List.countP_cons]
        omega
      obtain ⟨use, hmem, huse⟩ := List.countP_pos_iff.mp hout
      have := hkept.uses pair use hmem huse
      have := hresults pair
      have := hxs pair
      omega
    · obtain ⟨before, after, rfl⟩ := List.append_of_mem hin
      obtain ⟨use, huse, hisUse⟩ := hkept.results pair (pinned ++ message :: before) result after
        (by simp) hresult
      refine ⟨use, ?_, hisUse⟩
      obtain hmem | hmem := List.mem_append.mp huse
      · exact List.mem_append_left _ hmem
      · obtain rfl | hmem := List.mem_cons.mp hmem
        · simp [(hmessage pair).1] at hisUse
        · exact List.mem_append_right _ (List.mem_append_left _ hmem)
  · intro hunsplit
    refine ⟨fun pair before result after hsplit hresult => ?_, fun pair use hmem huse => ?_,
      hpinned ▸ List.sublist_append_left _ _⟩
    · obtain ⟨middle, rfl, hmiddle⟩ | ⟨middle, hmiddle, hrest⟩ :=
        List.append_eq_append_iff.mp hsplit
      · -- behind the pinned messages
        cases middle with
        | nil =>
            obtain ⟨rfl, rfl⟩ := List.cons.inj hmiddle
            simp [(hmessage pair).2] at hresult
        | cons first middle =>
            obtain ⟨rfl, rfl⟩ := List.cons.inj hmiddle
            obtain ⟨use, huse, hisUse⟩ := hunsplit.ofTail.use (by simp) hresult
            obtain hmem | hmem := List.mem_append.mp huse
            · exact ⟨use, List.mem_append_left _ hmem, hisUse⟩
            · have hone : _ + _ + (middle ++ result :: after).countP (·.isUse pair) = 1 :=
                h.uses_parts hpinned hflow (.inr (.inr (by simp))) hresult
              have htail : 0 < (middle ++ result :: after).countP (·.isUse pair) :=
                List.countP_pos_iff.mpr ⟨use, hmem, hisUse⟩
              have hbefore : use ∈ head ++ middle :=
                h.use_before (hflow.trans (List.append_assoc head middle (result :: after)).symm)
                  hresult (hflow ▸ List.mem_append_right _ hmem) hisUse
              obtain hhead | hmiddle := List.mem_append.mp hbefore
              · have : 0 < head.countP (·.isUse pair) :=
                  List.countP_pos_iff.mpr ⟨use, hhead, hisUse⟩
                omega
              · exact ⟨use, by simp [hmiddle], hisUse⟩
      · cases middle with
        | nil =>
            obtain ⟨rfl, -⟩ := List.cons.inj hrest
            simp [(hmessage pair).2] at hresult
        | cons first middle =>
            obtain ⟨rfl, rfl⟩ := List.cons.inj hrest
            obtain ⟨use, huse, hisUse⟩ := hunsplit.ofPinned.use (by simp [hmiddle]) hresult
            exact ⟨use, h.use_before (hpinned.trans hmiddle) hresult (hpinned ▸ huse) hisUse, hisUse⟩
    · -- a result in the head would have a second use there
      have hhead : head.countP (·.isResult pair) = 0 := by
        refine List.countP_eq_zero.mpr fun result hin hresult => ?_
        obtain ⟨other, hother, hisUse⟩ := hunsplit.ofHead.use hin hresult
        have hone := h.uses_parts hpinned hflow (.inr (.inl hin)) hresult
        have hpos : 0 < head.countP (·.isUse pair) :=
          List.countP_pos_iff.mpr ⟨other, hother, hisUse⟩
        have hout : 0 < (pinned ++ message :: tail).countP (·.isUse pair) :=
          List.countP_pos_iff.mpr ⟨use, hmem, huse⟩
        rw [List.countP_append, List.countP_cons, (hmessage pair).1] at hout
        simp only [Bool.false_eq_true, if_false] at hout
        omega
      rw [hresults, hxs, hhead, Nat.add_zero]

end Summary

end Pairs

end Kyberion.Workforce
