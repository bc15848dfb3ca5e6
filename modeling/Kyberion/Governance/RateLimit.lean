import Kyberion.Governance.PolicyEngine
import Kyberion.Transition
import Mathlib.Data.List.Dedup
import Mathlib.Tactic.Linarith

/-!
Rate limits over a run of evaluations. The counters of all rules are kept by the agent and the
field of a rule; a rule counts its own calls as long as no other rule shares its counter.
-/

namespace Kyberion.Governance

open Foundation FixedWindowLimiter Transition

variable {Value : Type}

/-- The engine between two calls, with the calls so far. -/
structure PolicyWorld (Value : Type) where
  history : List (PolicyCall Value) := []
  buckets : Buckets := []

section Model

variable (host : PolicyHost Value) (policies : List (Policy Value))

def PolicyWorld.evaluated (world : PolicyWorld Value) (call : PolicyCall Value) :
    PolicyWorld Value where
  history := world.history ++ [call]
  buckets := (evaluate host policies call world.buckets).2

/-- Runs of evaluations with a clock that does not go back. -/
def policyEngine : System (PolicyWorld Value) (PolicyCall Value) where
  init world := world = {}
  step world call :=
    if ∀ earlier ∈ world.history, earlier.now ≤ call.now then
      some (world.evaluated host policies call)
    else none

/-- The limited rules that apply to a call, with their places. -/
def limitedRules (call : PolicyCall Value) : List (PolicyRule Value × ℕ) :=
  (((allRules policies).map Prod.snd).zipIdx).filter fun (rule, _) =>
    rule.appliesTo host call && rule.rateLimit.isSome

/-- No call so far has used a counter of this call for another agent or rule. -/
def OwnCounters (world : PolicyWorld Value) (call : PolicyCall Value) : Prop :=
  ∀ other ∈ world.history ++ [call], ∀ rule ∈ limitedRules host policies call,
    ∀ otherRule ∈ limitedRules host policies other,
      rateKey call.agentId rule.1 = rateKey other.agentId otherRule.1 →
        other.agentId = call.agentId ∧ rule.2 = otherRule.2

/-- The counters that are running, together with those of the call. -/
def countersInUse (world : PolicyWorld Value) (call : PolicyCall Value) : List String :=
  ((sweep policyRateLimiter world.buckets call.now).map Bucket.key ++
    (limitedRules host policies call).map fun rule => rateKey call.agentId rule.1).dedup

/-- The counters of the call are its own, and there is room for them. -/
def countersApart (world : PolicyWorld Value) (call : PolicyCall Value) : Prop :=
  OwnCounters host policies world call ∧
    (countersInUse host policies world call).length ≤ policyRateLimiter.maxKeys

instance (world : PolicyWorld Value) (call : PolicyCall Value) :
    Decidable (countersApart host policies world call) :=
  inferInstanceAs (Decidable ((∀ other ∈ world.history ++ [call],
    ∀ rule ∈ limitedRules host policies call, ∀ otherRule ∈ limitedRules host policies other,
      rateKey call.agentId rule.1 = rateKey other.agentId otherRule.1 →
        other.agentId = call.agentId ∧ rule.2 = otherRule.2) ∧ _ ≤ _))

/-- The agent's calls that the rule applies to, in the window up to the call. -/
def callsInWindow (history : List (PolicyCall Value)) (rule : PolicyRule Value)
    (limit : PolicyRateLimit) (call : PolicyCall Value) : ℕ :=
  history.countP fun earlier => earlier.agentId = call.agentId && rule.appliesTo host earlier &&
    decide (call.now - earlier.now ≤ limit.windowMs)

end Model

section Accounts

variable {host : PolicyHost Value} {policies : List (Policy Value)}
  {history : List (PolicyCall Value)} {call : PolicyCall Value} {bucket : Bucket}

/-- The calls of an agent that a rule applies to, from an instant on. -/
def callsSince (host : PolicyHost Value) (history : List (PolicyCall Value)) (agentId : String)
    (rule : PolicyRule Value) (start : ℚ) : ℕ :=
  history.countP fun earlier => earlier.agentId = agentId && rule.appliesTo host earlier &&
    decide (start ≤ earlier.now)

theorem callsSince_append (agentId : String) (rule : PolicyRule Value) (start : ℚ) :
    callsSince host (history ++ [call]) agentId rule start =
      callsSince host history agentId rule start +
        if call.agentId = agentId && rule.appliesTo host call && decide (start ≤ call.now) then 1
        else 0 := by
  rw [callsSince, List.countP_append, List.countP_singleton]
  rfl

theorem mem_limitedRules {rule : PolicyRule Value} {place : ℕ} :
    (rule, place) ∈ limitedRules host policies call ↔
      ((allRules policies).map Prod.snd)[place]? = some rule ∧ rule.appliesTo host call = true ∧
        rule.rateLimit.isSome = true := by
  rw [limitedRules, List.mem_filter, List.mem_zipIdx_iff_getElem?, Bool.and_eq_true]

/-- A counter holds no more than the calls of one agent that one rule applies to. -/
structure Account (host : PolicyHost Value) (policies : List (Policy Value))
    (history : List (PolicyCall Value)) (bucket : Bucket) (owner : PolicyCall Value)
    (rule : PolicyRule Value) (place : ℕ) (limit : PolicyRateLimit) : Prop where
  owner_mem : owner ∈ history
  rule_mem : (rule, place) ∈ limitedRules host policies owner
  limited : rule.rateLimit = some limit
  key_eq : bucket.key = rateKey owner.agentId rule
  window_eq : bucket.windowMs = limit.windowMs
  start_le : bucket.start ≤ owner.now
  count_le : bucket.count ≤ callsSince host history owner.agentId rule bucket.start

def Accounted (host : PolicyHost Value) (policies : List (Policy Value))
    (history : List (PolicyCall Value)) (bucket : Bucket) : Prop :=
  ∃ owner rule place limit, Account host policies history bucket owner rule place limit

theorem Accounted.snoc (h : Accounted host policies history bucket) (call : PolicyCall Value) :
    Accounted host policies (history ++ [call]) bucket := by
  obtain ⟨owner, rule, place, limit, h⟩ := h
  refine ⟨owner, rule, place, limit, List.mem_append_left _ h.owner_mem, h.rule_mem, h.limited,
    h.key_eq, h.window_eq, h.start_le, h.count_le.trans ?_⟩
  rw [callsSince_append]
  exact Nat.le_add_right _ _

/-- What holds of the counters while the rules of a call are asked; `place` is the next rule. -/
structure Asking (host : PolicyHost Value) (policies : List (Policy Value))
    (world : PolicyWorld Value) (call : PolicyCall Value) (place : ℕ) (buckets : Buckets) :
    Prop where
  distinct : Distinct buckets
  accounted : ∀ bucket ∈ buckets, Accounted host policies world.history bucket ∨
    (Accounted host policies (world.history ++ [call]) bucket ∧
      ∃ rule place', (rule, place') ∈ limitedRules host policies call ∧ place' < place ∧
        bucket.key = rateKey call.agentId rule)
  inUse : (sweep policyRateLimiter buckets call.now).map Bucket.key ⊆
    countersInUse host policies world call

/-- The limit was reached by the agent's own calls of the rule. -/
structure OwnLimitReached (host : PolicyHost Value) (history : List (PolicyCall Value))
    (call : PolicyCall Value) (rule : PolicyRule Value) (limit : PolicyRateLimit) : Prop where
  limited : rule.rateLimit = some limit
  applies : rule.appliesTo host call = true
  reached : limit.max ≤ callsInWindow host history rule limit call

variable {world : PolicyWorld Value} {buckets buckets' : Buckets} {rule : PolicyRule Value}
  {limit : PolicyRateLimit} {place : ℕ}

/-- A counter that this call would add to, in the account of its own rule. -/
theorem Asking.account (h : Asking host policies world call place buckets)
    (hok : OwnCounters host policies world call)
    (hrule : (rule, place) ∈ limitedRules host policies call) (hlimit : rule.rateLimit = some limit)
    (hclock : ∀ earlier ∈ world.history, earlier.now ≤ call.now)
    (hbucket : bucket ∈ buckets) (hkey : bucket.key = rateKey call.agentId rule) :
    bucket.start ≤ call.now ∧
      bucket.count ≤ callsSince host world.history call.agentId rule bucket.start := by
  obtain ⟨owner, other, place', limit', haccount⟩ | ⟨-, other, place', hother, hlt, hkey'⟩ :=
    h.accounted bucket hbucket
  · obtain ⟨hagent, hplace⟩ := hok owner (List.mem_append_left _ haccount.owner_mem) _ hrule _
      haccount.rule_mem (hkey.symm.trans haccount.key_eq)
    obtain rfl : place = place' := hplace
    obtain rfl : rule = other := Option.some.inj
      ((mem_limitedRules.mp hrule).1.symm.trans (mem_limitedRules.mp haccount.rule_mem).1)
    obtain rfl : limit = limit' := Option.some.inj (hlimit.symm.trans haccount.limited)
    exact ⟨haccount.start_le.trans (hclock owner haccount.owner_mem), hagent ▸ haccount.count_le⟩
  · have hplace := (hok call (by simp) _ hrule _ hother (hkey.symm.trans hkey')).2
    omega

/-- There is room for the counters of the call. -/
theorem Asking.room (h : Asking host policies world call place buckets)
    (hok : countersApart host policies world call)
    (hrule : (rule, place) ∈ limitedRules host policies call) {windowMs : ℚ} :
    ¬ NoRoom policyRateLimiter buckets (rateKey call.agentId rule) call.now windowMs buckets' := by
  intro hnone
  have hin : rateKey call.agentId rule ∈ countersInUse host policies world call :=
    List.mem_dedup.mpr (List.mem_append_right _ (List.mem_map_of_mem hrule))
  have hdistinct : Distinct buckets' := hnone.swept ▸ sweep_distinct (dropEnded_distinct h.distinct)
  have hsub : buckets'.map Bucket.key ⊆
      (countersInUse host policies world call).erase (rateKey call.agentId rule) := by
    intro key hkey
    obtain ⟨bucket, hbucket, rfl⟩ := List.mem_map.mp hkey
    rw [hnone.swept] at hbucket
    obtain ⟨hkept, hlive⟩ := List.mem_filter.mp hbucket
    refine (List.mem_erase_of_ne fun heq => ?_).mpr (h.inUse (List.mem_map_of_mem
      (List.mem_filter.mpr ⟨dropEnded_subset hkept, hlive⟩)))
    exact Keyed.find_eq_none.mp hnone.absent (List.mem_map.mpr ⟨bucket, hkept, heq⟩)
  have hlength := (List.subperm_of_subset hdistinct hsub).length_le
  rw [List.length_map, List.length_erase_of_mem hin] at hlength
  have hpos := List.length_pos_of_mem hin
  have := hnone.full
  have := hok.2
  omega

/-- One check of a limit, and what it says of the agent's own calls. -/
theorem Asking.check {limited : Bool} (h : Asking host policies world call place buckets)
    (hok : countersApart host policies world call)
    (hclock : ∀ earlier ∈ world.history, earlier.now ≤ call.now)
    (hrule : (rule, place) ∈ limitedRules host policies call) (hlimit : rule.rateLimit = some limit)
    (hcheck : checkRateLimit buckets call rule limit = .ok (limited, buckets')) :
    Asking host policies world call (place + 1) buckets' ∧
      (limited = true → OwnLimitReached host world.history call rule limit) := by
  have happlies := (mem_limitedRules.mp hrule).2.1
  unfold checkRateLimit at hcheck
  cases htake : take policyRateLimiter buckets (rateKey call.agentId rule) limit.max call.now
      limit.windowMs with
  | error message =>
      rw [htake] at hcheck
      cases hcheck
  | ok result =>
  rw [htake] at hcheck
  obtain ⟨rfl, rfl⟩ := Prod.mk.inj (Except.ok.inj hcheck)
  obtain ⟨-, hnone⟩ | ⟨bucket, hcounted, hallowed⟩ := take_cases h.distinct htake
  · exact absurd hnone (h.room hok hrule)
  have hbucket : bucket.key = rateKey call.agentId rule ∧ bucket.start ≤ call.now ∧
      bucket.count ≤ callsSince host world.history call.agentId rule bucket.start := by
    cases hcounted.opens with
    | fresh => exact ⟨rfl, le_rfl, Nat.zero_le _⟩
    | live hmem hkey _ => exact ⟨hkey, h.account hok.1 hrule hlimit hclock hmem hkey⟩
  obtain ⟨hkey, hstart, hcount⟩ := hbucket
  constructor
  · refine ⟨hcounted.distinct, fun other hother => ?_, fun key hkey' => ?_⟩
    · obtain rfl | ⟨hother, -⟩ := hcounted.others other hother
      · refine .inr ⟨⟨call, rule, place, limit, ?_⟩, rule, place, hrule, Nat.lt_succ_self _, hkey⟩
        refine ⟨by simp, hrule, hlimit, hkey, rfl, hstart, ?_⟩
        rw [callsSince_append]
        simp only [Bucket.hit, happlies, hstart, decide_true, Bool.and_self, if_true]
        omega
      · obtain haccount | ⟨haccount, other', place', hmem, hlt, heq⟩ := h.accounted other hother
        · exact .inl haccount
        · exact .inr ⟨haccount, other', place', hmem, hlt.trans (Nat.lt_succ_self _), heq⟩
    · obtain ⟨other, hother, rfl⟩ := List.mem_map.mp hkey'
      obtain ⟨hother, hlive⟩ := List.mem_filter.mp hother
      obtain rfl | ⟨hother, -⟩ := hcounted.others other hother
      · exact List.mem_dedup.mpr (List.mem_append_right _ (List.mem_map.mpr ⟨_, hrule, hkey.symm⟩))
      · exact h.inUse (List.mem_map_of_mem (List.mem_filter.mpr ⟨hother, hlive⟩))
  · intro hlimited
    refine ⟨hlimit, happlies, ?_⟩
    have hover : ¬ ((Bucket.hit bucket limit.windowMs).count : ℤ) ≤ limit.max := by
      rw [← hallowed]
      simpa using hlimited
    have hmax : limit.max ≤ bucket.count := by
      have := limit.max_safe
      simp only [Bucket.hit] at hover
      omega
    cases hcounted.opens with
    | fresh => exact hmax.trans (Nat.zero_le _)
    | live hmem _ hlive =>
        refine (hmax.trans hcount).trans (List.countP_mono_left fun earlier _ hearlier => ?_)
        have hwindow : call.now - bucket.start ≤ limit.windowMs := by
          simpa [expired, policyRateLimiter] using hlive
        simp only [Bool.and_eq_true, decide_eq_true_eq] at hearlier ⊢
        exact ⟨hearlier.1, by linarith [hearlier.2]⟩

/-- The loop over the rules of a call. -/
theorem Asking.rules {before rest decisions : List (String × PolicyRule Value)}
    (hsplit : allRules policies = before ++ rest)
    (h : Asking host policies world call before.length buckets)
    (hok : countersApart host policies world call)
    (hclock : ∀ earlier ∈ world.history, earlier.now ≤ call.now) :
    (∃ place, Asking host policies world call place
        (evaluateRules host call rest decisions buckets).2) ∧
      ∀ decision, (evaluateRules host call rest decisions buckets).1 = .ok decision →
        decision.rateLimited = true → ∃ rule limit, decision.matchedRule = some rule ∧
          OwnLimitReached host world.history call rule limit := by
  induction rest generalizing before decisions buckets with
  | nil =>
      refine ⟨⟨_, h⟩, fun decision hdecision hlimited => ?_⟩
      obtain rfl := Except.ok.inj hdecision
      unfold resolve at hlimited
      split at hlimited <;> cases hlimited
  | cons entry rest ih =>
      obtain ⟨policy, rule⟩ := entry
      have hsplit' : allRules policies = (before ++ [(policy, rule)]) ++ rest := by
        rw [hsplit, List.append_assoc, List.singleton_append]
      have hlater : Asking host policies world call (before ++ [(policy, rule)]).length buckets := by
        refine ⟨h.distinct, fun bucket hbucket => ?_, h.inUse⟩
        obtain haccount | ⟨haccount, other, place, hmem, hlt, heq⟩ := h.accounted bucket hbucket
        · exact .inl haccount
        · refine .inr ⟨haccount, other, place, hmem, ?_, heq⟩
          rw [List.length_append]
          omega
      rw [evaluateRules]
      split
      · rename_i happlies
        cases hlimit : rule.rateLimit with
        | none => exact ih hsplit' hlater
        | some limit =>
            have hrule : (rule, before.length) ∈ limitedRules host policies call := by
              refine mem_limitedRules.mpr ⟨?_, happlies, by rw [hlimit]; rfl⟩
              rw [hsplit, List.map_append, List.map_cons,
                List.getElem?_append_right (by rw [List.length_map])]
              simp
            dsimp only
            cases hcheck : checkRateLimit buckets call rule limit with
            | error message => exact ⟨⟨_, h⟩, fun _ => nofun⟩
            | ok result =>
                obtain ⟨limited, buckets'⟩ := result
                obtain ⟨hnext, hreached⟩ := h.check hok hclock hrule hlimit hcheck
                cases limited with
                | false =>
                    refine ih hsplit' ?_
                    rw [List.length_append]
                    exact hnext
                | true =>
                    refine ⟨⟨_, hnext⟩, fun decision hdecision _ => ?_⟩
                    obtain rfl := Except.ok.inj hdecision
                    exact ⟨rule, limit, rfl, hreached rfl⟩
      · exact ih hsplit' hlater

end Accounts

section Runs

variable {host : PolicyHost Value} {policies : List (Policy Value)} {world : PolicyWorld Value}

/-- Every counter is accounted for between the calls. -/
structure AllAccounted (host : PolicyHost Value) (policies : List (Policy Value))
    (world : PolicyWorld Value) : Prop where
  distinct : Distinct world.buckets
  accounted : ∀ bucket ∈ world.buckets, Accounted host policies world.history bucket

theorem AllAccounted.asking (h : AllAccounted host policies world) (call : PolicyCall Value) :
    Asking host policies world call 0 world.buckets :=
  ⟨h.distinct, fun bucket hbucket => .inl (h.accounted bucket hbucket),
    fun _ hkey => List.mem_dedup.mpr (List.mem_append_left _ hkey)⟩

theorem AllAccounted.evaluate (h : AllAccounted host policies world) {call : PolicyCall Value}
    (hok : countersApart host policies world call)
    (hclock : ∀ earlier ∈ world.history, earlier.now ≤ call.now) :
    (∃ place, Asking host policies world call place
        (Governance.evaluate host policies call world.buckets).2) ∧
      ∀ decision, (Governance.evaluate host policies call world.buckets).1 = .ok decision →
        decision.rateLimited = true → ∃ rule limit, decision.matchedRule = some rule ∧
          OwnLimitReached host world.history call rule limit := by
  unfold Governance.evaluate
  split
  · refine ⟨⟨0, h.asking call⟩, fun decision hdecision hlimited => ?_⟩
    obtain rfl := Except.ok.inj hdecision
    cases hlimited
  · have hsplit : allRules policies = [] ++ allRules policies := rfl
    exact (h.asking call).rules hsplit hok hclock

theorem allAccounted_of_reach
    (h : (policyEngine host policies).Reach (countersApart host policies) world) :
    AllAccounted host policies world := by
  refine System.Reach.invariant (I := AllAccounted host policies) ?_ ?_ h
  · rintro _ rfl
    exact ⟨List.nodup_nil, nofun⟩
  · intro world call next hworld hok hstep
    simp only [policyEngine] at hstep
    split at hstep
    · rename_i hclock
      obtain rfl := Option.some.inj hstep
      obtain ⟨⟨place, hasking⟩, -⟩ := hworld.evaluate hok hclock
      refine ⟨hasking.distinct, fun bucket hbucket => ?_⟩
      obtain haccount | ⟨haccount, -⟩ := hasking.accounted bucket hbucket
      · exact haccount.snoc call
      · exact haccount
    · cases hstep

/-- A call is refused by a limited rule only after so many calls of the agent that the same rule
applies to, in the window of the rule. -/
theorem limit_counts_own_rule
    (h : (policyEngine host policies).Reach (countersApart host policies) world)
    {call : PolicyCall Value} (hclock : ∀ earlier ∈ world.history, earlier.now ≤ call.now)
    (hok : countersApart host policies world call) {decision : PolicyDecision Value}
    (hdecision : (evaluate host policies call world.buckets).1 = .ok decision)
    (hlimited : decision.rateLimited = true) :
    ∃ rule limit, decision.matchedRule = some rule ∧ rule.rateLimit = some limit ∧
      rule.appliesTo host call = true ∧
      limit.max ≤ callsInWindow host world.history rule limit call := by
  obtain ⟨rule, limit, hrule, hreached⟩ :=
    ((allAccounted_of_reach h).evaluate hok hclock).2 decision hdecision hlimited
  exact ⟨rule, limit, hrule, hreached.limited, hreached.applies, hreached.reached⟩

theorem evaluated_step {call : PolicyCall Value}
    (h : ∀ earlier ∈ world.history, earlier.now ≤ call.now) :
    (policyEngine host policies).step world call = some (world.evaluated host policies call) :=
  if_pos h

end Runs

section Examples

/-- Values that are texts. -/
def textHost : PolicyHost String where
  strictEqual a b := a = b
  number _ := none
  toText := id
  asText := some
  textOrEmpty := id
  elements _ := none
  sameValueZero a b := a = b
  regExp _ _ := none

def limitedRule (operation : String) (max : ℕ) (h : max ≤ MAX_SAFE_INTEGER) :
    PolicyRule String where
  field := "operation"
  operator := .eq
  value := operation
  conditionValue := ""
  action := .allow
  priority := 1
  rateLimit := some ⟨max, 60, none, h, by decide +kernel⟩

def operationCall (operation : String) (now : ℚ) : PolicyCall String where
  agentId := "agent"
  field _ := operation
  now

/-- Reads and writes are limited apart, by rules on one field. -/
def sharedField : List (Policy String) :=
  [⟨"limits", [limitedRule "read" 5 (by decide), limitedRule "write" 2 (by decide)]⟩]

def oneWrite : List (Policy String) :=
  [⟨"limits", [limitedRule "write" 1 (by decide)]⟩]

theorem exists_decision {p : PolicyDecision String → Bool}
    {x : Except String (PolicyDecision String)} (h : x.toOption.any p = true) :
    ∃ decision, x = .ok decision ∧ p decision = true := by
  cases x with
  | error message => cases h
  | ok decision => exact ⟨decision, rfl, h⟩

theorem limit_counts_own_rule_twice :
    ∃ rule limit, rule.rateLimit = some limit ∧
      limit.max ≤ callsInWindow textHost [operationCall "write" 0] rule limit
        (operationCall "write" 1) := by
  have hreach : (policyEngine textHost oneWrite).Reach (countersApart textHost oneWrite)
      (({} : PolicyWorld String).evaluated textHost oneWrite (operationCall "write" 0)) :=
    .next (.start rfl) (by decide +kernel) (evaluated_step nofun)
  have hrefused : ((evaluate textHost oneWrite (operationCall "write" 1) (({} :
      PolicyWorld String).evaluated textHost oneWrite (operationCall "write" 0)).buckets
      ).1.toOption.any (·.rateLimited)) = true := by decide +kernel
  obtain ⟨decision, hdecision, hlimited⟩ := exists_decision hrefused
  obtain ⟨rule, limit, -, hlimit, -, hcount⟩ := limit_counts_own_rule hreach
    (by decide +kernel) (by decide +kernel) hdecision hlimited
  exact ⟨rule, limit, hlimit, hcount⟩

/-- Two reads and then a write. -/
def afterReads : PolicyWorld String :=
  (({} : PolicyWorld String).evaluated textHost sharedField (operationCall "read" 0)).evaluated
    textHost sharedField (operationCall "read" 1)

/-- A write is refused for the reads before it. -/
theorem sharedField_refuses :
    ¬ ∀ (policies : List (Policy String)) (world : PolicyWorld String),
      (policyEngine textHost policies).Reachable world →
      ∀ (call : PolicyCall String) (decision : PolicyDecision String),
        (∀ earlier ∈ world.history, earlier.now ≤ call.now) →
        (evaluate textHost policies call world.buckets).1 = .ok decision →
        decision.rateLimited = true →
        ∃ rule limit, decision.matchedRule = some rule ∧ rule.rateLimit = some limit ∧
          rule.appliesTo textHost call = true ∧
          limit.max ≤ callsInWindow textHost (world.history ++ [call]) rule limit call := by
  intro hall
  have hreach : (policyEngine textHost sharedField).Reachable afterReads :=
    .next (.next (.start rfl) trivial (evaluated_step nofun)) trivial
      (evaluated_step (by decide +kernel))
  have hrefused : ((evaluate textHost sharedField (operationCall "write" 2)
      afterReads.buckets).1.toOption.any fun decision => decision.rateLimited &&
        decision.matchedRule.all fun rule => rule.rateLimit.all fun limit =>
          decide (callsInWindow textHost (afterReads.history ++ [operationCall "write" 2]) rule
            limit (operationCall "write" 2) < limit.max)) = true := by decide +kernel
  obtain ⟨decision, hdecision, htest⟩ := exists_decision hrefused
  obtain ⟨hlimited, htest⟩ := Bool.and_eq_true_iff.mp htest
  obtain ⟨rule, limit, hrule, hlimit, -, hcount⟩ := hall sharedField afterReads hreach
    (operationCall "write" 2) decision (by decide +kernel) hdecision hlimited
  rw [hrule, Option.all_some, hlimit, Option.all_some, decide_eq_true_iff] at htest
  omega

end Examples

end Kyberion.Governance
