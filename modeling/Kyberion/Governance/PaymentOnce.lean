import Kyberion.Governance.Payment

/-!
A payment identity over every run: the provider is asked to execute it once, and its reservation
is released once, when the durable status is final. One call at a time holds the claim, and
whoever holds it has not been overtaken by an attempt.
-/

namespace Kyberion.Governance

open Js Transition

/-- The claim in the hands of a call: before the decision, or on the way to the provider. -/
inductive Hold
  | owning | submitting
  deriving DecidableEq

def PaymentCall.hold : PaymentCall → Option Hold
  | .gating _ | .deciding _ _ => some .owning
  | .submitting _ => some .submitting
  | _ => none

namespace PaymentStore

def status (s : PaymentStore) : Option CharterPaymentStatus :=
  s.log.getLast?.map (·.status)

def hold (s : PaymentStore) (call : ℕ) : Option Hold :=
  (s.calls call).bind PaymentCall.hold

/-- The durable status is not_executed or compensated. -/
def Final (s : PaymentStore) : Prop :=
  ∃ last, s.log.getLast? = some last ∧ last.status.releases.isSome = true

theorem status_append (s : PaymentStore) (state : CharterPaymentState) (call : ℕ)
    (phase : Option PaymentCall) :
    ((s.append state).goTo call phase).status = some state.status := by
  simp [status, append, goTo]

theorem hold_goTo (s : PaymentStore) (call call' : ℕ) (phase : Option PaymentCall) :
    (s.goTo call phase).hold call' =
      if call' = call then phase.bind PaymentCall.hold else s.hold call' := by
  change (Function.update s.calls call phase call').bind PaymentCall.hold = _
  by_cases h : call' = call
  · rw [if_pos h, h, Function.update_self]
  · rw [if_neg h, Function.update_of_ne h]
    rfl

theorem hold_of_calls {s : PaymentStore} {call : ℕ} {c : PaymentCall}
    (h : s.calls call = some c) : s.hold call = c.hold := by
  rw [hold, h, Option.bind_some]

end PaymentStore

section Holding

/-- Before the decision nothing has been submitted, and the payment is not blocked. -/
def CharterPaymentStatus.isOpen : CharterPaymentStatus → Bool
  | .authorizing | .resolved _ => true
  | _ => false

def CharterPaymentStatus.isAttempted : CharterPaymentStatus → Bool
  | .executing | .resolved _ => true
  | _ => false

structure Holding (s : PaymentStore) : Prop where
  unique : ∀ p q, (s.hold p).isSome → (s.hold q).isSome → p = q
  owning : ∀ p, s.hold p = some .owning →
    s.executed = 0 ∧ s.status.any (·.isOpen) = true
  submitting : ∀ p, s.hold p = some .submitting →
    s.executed = 0 ∧ s.status.any (·.isAttempted) = true
  atMostOnce : s.executed ≤ 1
  executed : s.executed ≠ 0 → (∀ p, s.hold p = none) ∧ s.status.any (·.isAttempted) = true

theorem holding_start : Holding {} where
  unique _ _ h := nomatch h
  owning _ h := nomatch h
  submitting _ h := nomatch h
  atMostOnce := Nat.zero_le 1
  executed h := absurd rfl h

/-- No new hold, and the status stays or is resolved. -/
theorem Holding.keep {s t : PaymentStore} (h : Holding s) (hexecuted : t.executed = s.executed)
    (hstatus : t.status = s.status ∨ ∃ resolution, t.status = some (.resolved resolution))
    (hhold : ∀ p k, t.hold p = some k → s.hold p = some k) : Holding t := by
  have hopen (hs : s.status.any (·.isOpen) = true) : t.status.any (·.isOpen) = true := by
    rcases hstatus with heq | ⟨resolution, heq⟩
    · rwa [heq]
    · rw [heq]
      rfl
  have hattempted (hs : s.status.any (·.isAttempted) = true) :
      t.status.any (·.isAttempted) = true := by
    rcases hstatus with heq | ⟨resolution, heq⟩
    · rwa [heq]
    · rw [heq]
      rfl
  have hsome (p : ℕ) (hp : (t.hold p).isSome) : (s.hold p).isSome := by
    obtain ⟨k, hk⟩ := Option.isSome_iff_exists.mp hp
    exact Option.isSome_iff_exists.mpr ⟨k, hhold p k hk⟩
  refine ⟨fun p q hp hq => h.unique p q (hsome p hp) (hsome q hq), ?_, ?_, ?_, ?_⟩
  · intro p hp
    obtain ⟨hzero, hs⟩ := h.owning p (hhold p _ hp)
    exact ⟨hexecuted.trans hzero, hopen hs⟩
  · intro p hp
    obtain ⟨hzero, hs⟩ := h.submitting p (hhold p _ hp)
    exact ⟨hexecuted.trans hzero, hattempted hs⟩
  · rw [hexecuted]
    exact h.atMostOnce
  · intro hne
    rw [hexecuted] at hne
    obtain ⟨hnone, hs⟩ := h.executed hne
    refine ⟨fun p => ?_, hattempted hs⟩
    cases hp : t.hold p with
    | none => rfl
    | some k => exact absurd (hhold p k hp) (by rw [hnone p]; exact nofun)

/-- Nothing is held, and nothing was executed, before a claim. -/
theorem Holding.idle {s : PaymentStore} (h : Holding s)
    (hstatus : s.status = none ∨ s.status = some .blocked) :
    s.executed = 0 ∧ ∀ p, s.hold p = none := by
  have hclosed : s.status.any (·.isOpen) = false ∧ s.status.any (·.isAttempted) = false := by
    rcases hstatus with heq | heq <;> rw [heq] <;> exact ⟨rfl, rfl⟩
  refine ⟨?_, fun p => ?_⟩
  · by_contra hne
    have hs := (h.executed hne).2
    rw [hclosed.2] at hs
    cases hs
  · cases hp : s.hold p with
    | none => rfl
    | some k =>
        cases k with
        | owning =>
            have hs := (h.owning p hp).2
            rw [hclosed.1] at hs
            cases hs
        | submitting =>
            have hs := (h.submitting p hp).2
            rw [hclosed.2] at hs
            cases hs

/-- One call holds the claim, in front of a first submission. -/
theorem holding_of_single {t : PaymentStore} (call : ℕ) (k : Hold) (hexecuted : t.executed = 0)
    (hstatus : t.status.any (match k with
      | .owning => CharterPaymentStatus.isOpen
      | .submitting => CharterPaymentStatus.isAttempted) = true)
    (hhold : ∀ p, t.hold p = if p = call then some k else none) : Holding t := by
  have hcall (p : ℕ) (hp : (t.hold p).isSome) : p = call := by
    by_contra hne
    rw [hhold p, if_neg hne] at hp
    cases hp
  have hkind (p : ℕ) (k' : Hold) (hp : t.hold p = some k') : k' = k := by
    have hp' := hp
    rw [hhold p, if_pos (hcall p (by rw [hp]; rfl))] at hp'
    exact (Option.some.inj hp').symm
  refine ⟨fun p q hp hq => (hcall p hp).trans (hcall q hq).symm, ?_, ?_, by omega,
    fun hne => absurd hexecuted hne⟩
  · intro p hp
    obtain rfl := hkind p _ hp
    exact ⟨hexecuted, hstatus⟩
  · intro p hp
    obtain rfl := hkind p _ hp
    exact ⟨hexecuted, hstatus⟩

theorem holding_of_none {t : PaymentStore} (hexecuted : t.executed = 0)
    (hhold : ∀ p, t.hold p = none) : Holding t where
  unique p _ hp := by
    rw [hhold p] at hp
    cases hp
  owning p hp := by
    rw [hhold p] at hp
    cases hp
  submitting p hp := by
    rw [hhold p] at hp
    cases hp
  atMostOnce := by omega
  executed hne := absurd hexecuted hne

theorem Holding.others {s : PaymentStore} (h : Holding s) {call p : ℕ}
    (hcall : (s.hold call).isSome) (hne : p ≠ call) : s.hold p = none := by
  cases hp : s.hold p with
  | none => rfl
  | some k => exact absurd (h.unique p call (by rw [hp]; rfl) hcall) hne

end Holding

section Releases

variable (identity : PaymentIdentity)

/-- A reservation of the payment is released under the charter. -/
def PaymentStore.ReleasedUnder (s : PaymentStore) (charterId : String) : Prop :=
  ∃ entry ∈ s.ledger charterId, entry.isReleaseOf identity.idempotencyKey = true

/-- The state that a call before its decision goes on from. -/
def PaymentCall.owned : PaymentCall → Option CharterPaymentState
  | .gating state | .deciding state _ => some state
  | _ => none

/-- A call that releases under a final status has read the last entry. -/
def PaymentCall.Reads (log : List CharterPaymentState) : PaymentCall → Prop
  | .releasing state _ => state.status.releases.isSome = true → log.getLast? = some state
  | _ => True

structure Releases (s : PaymentStore) : Prop where
  keyed : ∀ entry ∈ s.log, entry.payment.idempotencyKey = identity.idempotencyKey
  owned : ∀ p c state, s.calls p = some c → c.owned = some state →
    state.payment.idempotencyKey = identity.idempotencyKey
  reads : ∀ p c, s.calls p = some c → c.Reads s.log
  released : ∀ charterId, s.ReleasedUnder identity charterId →
    ∃ last, s.log.getLast? = some last ∧ last.status.releases.isSome = true ∧
      last.charterId = charterId
  once : ∀ charterId,
    (s.ledger charterId).countP (·.isReleaseOf identity.idempotencyKey) ≤ 1

variable {identity}
variable {s : PaymentStore} {call : ℕ}

theorem releases_start : Releases identity {} where
  keyed _ h := nomatch h
  owned _ _ _ h := nomatch h
  reads _ _ h := nomatch h
  released _ h := by
    obtain ⟨entry, hmem, -⟩ := h
    cases hmem
  once _ := Nat.zero_le 1

theorem calls_goTo {phase : Option PaymentCall} {p : ℕ} {c : PaymentCall}
    (h : (s.goTo call phase).calls p = some c) :
    p = call ∧ phase = some c ∨ s.calls p = some c := by
  change Function.update s.calls call phase p = some c at h
  by_cases hp : p = call
  · rw [hp, Function.update_self] at h
    exact .inl ⟨hp, h⟩
  · rw [Function.update_of_ne hp] at h
    exact .inr h

/-- A call goes on, and nothing durable changes. -/
theorem Releases.goTo (h : Releases identity s) {phase : Option PaymentCall}
    (howned : ∀ c state, phase = some c → c.owned = some state →
      state.payment.idempotencyKey = identity.idempotencyKey)
    (hreads : ∀ c, phase = some c → c.Reads s.log) : Releases identity (s.goTo call phase) where
  keyed := h.keyed
  owned p c state hc hstate := by
    rcases calls_goTo hc with ⟨-, hphase⟩ | hold
    · exact howned c state hphase hstate
    · exact h.owned p c state hold hstate
  reads p c hc := by
    rcases calls_goTo hc with ⟨-, hphase⟩ | hold
    · exact hreads c hphase
    · exact h.reads p c hold
  released := h.released
  once := h.once

/-- An entry goes behind one that is not final: nothing is released yet. -/
theorem Releases.append (h : Releases identity s) (hlast : ¬ s.Final)
    {state : CharterPaymentState} (hkey : state.payment.idempotencyKey = identity.idempotencyKey)
    : Releases identity (s.append state) where
  keyed entry hmem := by
    rcases List.mem_append.mp hmem with hold | hnew
    · exact h.keyed entry hold
    · exact (List.mem_singleton.mp hnew) ▸ hkey
  owned := h.owned
  reads p c hc := by
    have hread := h.reads p c hc
    cases c with
    | releasing state executing =>
        intro hfinal
        exact absurd ⟨state, hread hfinal, hfinal⟩ hlast
    | _ => trivial
  released charterId hrel := by
    obtain ⟨last, hsome, hfinal, -⟩ := h.released charterId hrel
    exact absurd ⟨last, hsome, hfinal⟩ hlast
  once := h.once

/-- A charter's ledger grows by what is no release of the payment, or by a release under the
final status. -/
theorem Releases.record (h : Releases identity s) {charterId : String}
    {entries : List LedgerEntry}
    (honce : entries.countP (·.isReleaseOf identity.idempotencyKey) ≤ 1)
    (hreleased : (∃ entry ∈ entries, entry.isReleaseOf identity.idempotencyKey = true) →
      s.ReleasedUnder identity charterId ∨
        ∃ last, s.log.getLast? = some last ∧ last.status.releases.isSome = true ∧
          last.charterId = charterId) :
    Releases identity { s with ledger := Function.update s.ledger charterId entries } where
  keyed := h.keyed
  owned := h.owned
  reads := h.reads
  released charterId' hrel := by
    obtain ⟨entry, hmem, hentry⟩ := hrel
    change entry ∈ Function.update s.ledger charterId entries charterId' at hmem
    by_cases heq : charterId' = charterId
    · rw [heq, Function.update_self] at hmem
      rw [heq]
      exact (hreleased ⟨entry, hmem, hentry⟩).elim (h.released charterId) id
    · rw [Function.update_of_ne heq] at hmem
      exact h.released charterId' ⟨entry, hmem, hentry⟩
  once charterId' := by
    change (Function.update s.ledger charterId entries charterId').countP _ ≤ 1
    by_cases heq : charterId' = charterId
    · rw [heq, Function.update_self]
      exact honce
    · rw [Function.update_of_ne heq]
      exact h.once charterId'

theorem read_eq_last {log : List CharterPaymentState} {last : Option CharterPaymentState}
    (h : readCharterPayment identity log = some last) : log.getLast? = last := by
  unfold readCharterPayment at h
  split at h
  · exact Option.some.inj h
  · cases h

theorem not_final_of_last {last : CharterPaymentState} (h : s.log.getLast? = some last)
    (hopen : last.status.releases = none) : ¬ s.Final := by
  rintro ⟨last', hsome, hfinal⟩
  rw [h] at hsome
  obtain rfl := Option.some.inj hsome
  rw [hopen] at hfinal
  cases hfinal

theorem status_of_last {last : CharterPaymentState} (h : s.log.getLast? = some last) :
    s.status = some last.status := by
  rw [PaymentStore.status, h, Option.map_some]

end Releases

/-- A run keeps the claim in one hand and the release under the final status. -/
structure PaymentInv (identity : PaymentIdentity) (s : PaymentStore) : Prop where
  holding : Holding s
  releases : Releases identity s

section Steps

variable {identity : PaymentIdentity} {s : PaymentStore} {call : ℕ}

/-- A call goes to a phase in which it holds nothing. -/
theorem PaymentInv.rest (h : PaymentInv identity s) {phase : Option PaymentCall}
    (hhold : phase.bind PaymentCall.hold = none) (howned : phase.bind PaymentCall.owned = none)
    (hreads : ∀ c, phase = some c → c.Reads s.log) : PaymentInv identity (s.goTo call phase) where
  holding := by
    refine h.holding.keep rfl (.inl rfl) ?_
    intro p k hp
    rw [PaymentStore.hold_goTo] at hp
    split at hp
    · rw [hhold] at hp
      cases hp
    · exact hp
  releases := by
    refine h.releases.goTo ?_ hreads
    intro c state hc hstate
    rw [hc, Option.bind_some, hstate] at howned
    cases howned

theorem PaymentInv.stop (h : PaymentInv identity s) : PaymentInv identity (s.goTo call none) :=
  h.rest rfl rfl fun _ hc => nomatch hc

theorem PaymentInv.fail (h : PaymentInv identity s) (executing : Bool) :
    PaymentInv identity (s.fail call executing) := by
  unfold PaymentStore.fail
  cases executing with
  | false => exact h.stop
  | true =>
      refine h.rest rfl rfl fun c hc => ?_
      obtain rfl := Option.some.inj hc
      trivial

/-- A call releases under the last entry. -/
theorem PaymentInv.toRelease (h : PaymentInv identity s) {last : CharterPaymentState}
    (hlast : s.log.getLast? = some last) (executing : Bool) :
    PaymentInv identity (s.goTo call (some (.releasing last executing))) := by
  refine h.rest rfl rfl fun c hc => ?_
  obtain rfl := Option.some.inj hc
  exact fun _ => hlast

theorem mem_of_last {last : CharterPaymentState} (hlast : s.log.getLast? = some last) :
    last ∈ s.log :=
  List.mem_of_getLast? hlast

/-- A resolution is appended behind an entry that is not final. -/
theorem PaymentInv.resolve (h : PaymentInv identity s) (hlast : ¬ s.Final)
    (state : CharterPaymentState) {resolution : CharterPaymentResolution}
    (hstatus : state.status = .resolved resolution)
    (hkey : state.payment.idempotencyKey = identity.idempotencyKey) :
    PaymentInv identity (s.append state) where
  holding := by
    refine h.holding.keep rfl (.inr ⟨resolution, ?_⟩) fun p k hp => hp
    rw [← hstatus]
    exact PaymentStore.status_append s state 0 none
  releases := h.releases.append hlast hkey

theorem append_last (state : CharterPaymentState) :
    (s.append state).log.getLast? = some state :=
  List.getLast?_concat

/-- A claim is taken where none is held: on a new payment, or on one that was blocked. -/
theorem PaymentInv.own (h : PaymentInv identity s)
    (hstatus : s.status = none ∨ s.status = some .blocked) {state : CharterPaymentState}
    (hopen : state.status = .authorizing)
    (hkey : state.payment.idempotencyKey = identity.idempotencyKey) :
    PaymentInv identity ((s.append state).goTo call (some (.gating state))) := by
  obtain ⟨hexecuted, hnone⟩ := h.holding.idle hstatus
  have hlast : ¬ s.Final := by
    rintro ⟨last, hsome, hfinal⟩
    rw [status_of_last hsome] at hstatus
    rcases hstatus with heq | heq
    · cases heq
    · rw [Option.some.inj heq] at hfinal
      cases hfinal
  refine ⟨holding_of_single call .owning hexecuted ?_ ?_, ?_⟩
  · rw [PaymentStore.status_append, hopen]
    rfl
  · intro p
    rw [PaymentStore.hold_goTo]
    split
    · rfl
    · exact hnone p
  · refine (h.releases.append hlast hkey).goTo ?_ ?_
    · intro c state' hc hstate
      obtain rfl := Option.some.inj hc
      obtain rfl := Option.some.inj hstate
      exact hkey
    · intro c hc
      obtain rfl := Option.some.inj hc
      trivial

theorem PaymentInv.claim (h : PaymentInv identity s) (input : ExecuteCharterPaymentInput)
    (active : Option String) : PaymentInv identity (s.claim identity call input active) := by
  unfold PaymentStore.claim
  split
  · exact h.stop
  · rename_i existing hread
    have hlast := read_eq_last hread
    split
    · exact h.stop
    · split
      · rename_i amended hamended
        have hblocked : existing.status = .blocked := by
          by_contra hne
          rw [if_neg hne] at hamended
          cases hamended
        refine h.own (.inr ?_) rfl ?_
        · rw [status_of_last hlast, hblocked]
        · exact h.releases.keyed existing (mem_of_last hlast)
      · exact h.toRelease hlast false
  · rename_i hread
    have hlast := read_eq_last hread
    split
    · exact h.stop
    · refine h.own (.inl ?_) rfl rfl
      rw [PaymentStore.status, hlast, Option.map_none]

theorem PaymentInv.gate (h : PaymentInv identity s) {state : CharterPaymentState}
    (hcall : s.calls call = some (.gating state)) (outcome : GateOutcome)
    (reservation : Consumption) :
    PaymentInv identity (s.gate identity call state outcome reservation) := by
  have hkey := h.releases.owned call _ state hcall rfl
  have hrecord (entries : List LedgerEntry)
      (hcount : entries.countP (·.isReleaseOf identity.idempotencyKey) =
        (s.ledger state.charterId).countP (·.isReleaseOf identity.idempotencyKey)) :
      Releases identity { s with ledger := Function.update s.ledger state.charterId entries } := by
    refine h.releases.record (by rw [hcount]; exact h.releases.once state.charterId) ?_
    rintro ⟨entry, hmem, hentry⟩
    have hpos : 0 < (s.ledger state.charterId).countP
        (·.isReleaseOf identity.idempotencyKey) := by
      rw [← hcount]
      exact List.countP_pos_iff.mpr ⟨entry, hmem, hentry⟩
    obtain ⟨old, hold, holdEntry⟩ := List.countP_pos_iff.mp hpos
    exact .inl ⟨old, hold, holdEntry⟩
  unfold PaymentStore.gate
  constructor
  · refine h.holding.keep rfl (.inl rfl) ?_
    intro p k hp
    rw [PaymentStore.hold_goTo] at hp
    split at hp
    · rename_i heq
      rw [heq, PaymentStore.hold_of_calls hcall]
      exact hp
    · exact hp
  · refine Releases.goTo (hrecord _ ?_) ?_ ?_
    · split
      · exact recordCharterConsumption_releases _
      · rfl
    · intro c state' hc hstate
      obtain rfl := Option.some.inj hc
      obtain rfl := Option.some.inj hstate
      exact hkey
    · intro c hc
      obtain rfl := Option.some.inj hc
      trivial

theorem PaymentInv.decide (h : PaymentInv identity s) {state : CharterPaymentState}
    {outcome : GateOutcome} (hcall : s.calls call = some (.deciding state outcome)) :
    PaymentInv identity (s.decide identity call state outcome) := by
  have hhold : s.hold call = some .owning := PaymentStore.hold_of_calls hcall
  have hkey := h.releases.owned call _ state hcall rfl
  obtain ⟨hexecuted, hopen⟩ := h.holding.owning call hhold
  unfold PaymentStore.decide
  split
  · rename_i current hread
    have hlast := read_eq_last hread
    rw [status_of_last hlast, Option.any_some] at hopen
    split
    · -- another call has resolved the payment; it was not submitted before this decision
      have hne : current.status ≠ .executing := by
        intro heq
        rw [heq] at hopen
        cases hopen
      rw [if_neg hne]
      exact h.toRelease hlast true
    · rename_i hauthorizing
      have hnot : ¬ s.Final := not_final_of_last hlast (by rw [not_not.mp hauthorizing]; rfl)
      let next : CharterPaymentState :=
        { state with
          status := if outcome = .allow then .executing else .blocked
          reason := some outcome.reason }
      have hreleases : Releases identity (s.append next) := h.releases.append hnot hkey
      change PaymentInv identity ((s.append next).goTo call (some
        (if next.status = .executing then .submitting next else .releasing next true)))
      have hothers (p : ℕ) (hne : p ≠ call) : s.hold p = none :=
        h.holding.others (by rw [hhold]; rfl) hne
      by_cases hallow : outcome = .allow
      · have hstatus : next.status = .executing := if_pos hallow
        rw [if_pos hstatus]
        refine ⟨holding_of_single call .submitting hexecuted ?_ ?_, ?_⟩
        · rw [PaymentStore.status_append, hstatus]
          rfl
        · intro p
          rw [PaymentStore.hold_goTo]
          split
          · rfl
          · exact hothers p ‹_›
        · refine hreleases.goTo ?_ ?_
          · intro c state' hc hstate
            obtain rfl := Option.some.inj hc
            cases hstate
          · intro c hc
            obtain rfl := Option.some.inj hc
            trivial
      · have hstatus : next.status = .blocked := if_neg hallow
        rw [if_neg (by rw [hstatus]; decide)]
        refine ⟨holding_of_none hexecuted ?_, ?_⟩
        · intro p
          rw [PaymentStore.hold_goTo]
          split
          · rfl
          · exact hothers p ‹_›
        · refine hreleases.goTo ?_ ?_
          · intro c state' hc hstate
            obtain rfl := Option.some.inj hc
            cases hstate
          · intro c hc
            obtain rfl := Option.some.inj hc
            intro hfinal
            rw [hstatus] at hfinal
            cases hfinal
  · exact h.fail true

theorem PaymentInv.submit (h : PaymentInv identity s) {state : CharterPaymentState}
    (hcall : s.calls call = some (.submitting state)) :
    PaymentInv identity
      ({ s with executed := s.executed + 1 }.goTo call (some (.awaiting state true))) := by
  have hhold : s.hold call = some .submitting := PaymentStore.hold_of_calls hcall
  obtain ⟨hexecuted, hattempted⟩ := h.holding.submitting call hhold
  have hnone (p : ℕ) : (({ s with executed := s.executed + 1 } : PaymentStore).goTo call
      (some (.awaiting state true))).hold p = none := by
    rw [PaymentStore.hold_goTo]
    split
    · rfl
    · exact h.holding.others (by rw [hhold]; rfl) ‹_›
  have hreleases : Releases identity { s with executed := s.executed + 1 } :=
    ⟨h.releases.keyed, h.releases.owned, h.releases.reads, h.releases.released, h.releases.once⟩
  refine ⟨⟨?_, ?_, ?_, ?_, fun _ => ⟨hnone, hattempted⟩⟩, hreleases.goTo ?_ ?_⟩
  · intro p _ hp
    rw [hnone p] at hp
    cases hp
  · intro p hp
    rw [hnone p] at hp
    cases hp
  · intro p hp
    rw [hnone p] at hp
    cases hp
  · change s.executed + 1 ≤ 1
    omega
  · intro c state' hc hstate
    obtain rfl := Option.some.inj hc
    cases hstate
  · intro c hc
    obtain rfl := Option.some.inj hc
    trivial

theorem PaymentInv.settle (h : PaymentInv identity s) (resolution : CharterPaymentResolution)
    (evidence : String) (executing : Bool) :
    PaymentInv identity (s.settle identity call resolution evidence executing) := by
  unfold PaymentStore.settle
  split
  · rename_i current hread
    have hlast := read_eq_last hread
    split
    · exact h.toRelease hlast executing
    · rename_i hkeeps
      have hnot : ¬ s.Final := by
        refine not_final_of_last hlast ?_
        cases hstatus : current.status with
        | authorizing | executing | blocked => rfl
        | resolved r =>
            rw [hstatus] at hkeeps
            cases r with
            | succeeded | partially | unknown => rfl
            | notExecuted | compensated => exact absurd rfl hkeeps
      have hkey := h.releases.keyed current (mem_of_last hlast)
      have hresolved := h.resolve hnot { current with
        status := .resolved resolution, evidenceRef := some evidence } rfl hkey
      exact hresolved.toRelease (append_last _) executing
  · exact h.fail executing

theorem PaymentInv.release (h : PaymentInv identity s) {state : CharterPaymentState}
    {executing : Bool} (hcall : s.calls call = some (.releasing state executing))
    (charterFound : Bool) (now : ℤ) :
    PaymentInv identity (s.release call state executing charterFound now) := by
  unfold PaymentStore.release
  split
  · exact h.stop
  · rename_i resolution hresolution
    have hfinal : state.status.releases.isSome = true := by rw [hresolution]; rfl
    have hlast : s.log.getLast? = some state := h.releases.reads call _ hcall hfinal
    have hkey := h.releases.keyed state (mem_of_last hlast)
    split
    · exact h.fail executing
    · rw [hkey]
      have hrecord : PaymentInv identity { s with
          ledger := Function.update s.ledger state.charterId (releaseCharterPaymentReservation
            (s.ledger state.charterId) identity.idempotencyKey resolution
            (state.evidenceRef.getD "") now) } := by
        refine ⟨h.holding.keep rfl (.inl rfl) fun p k hp => hp, h.releases.record ?_ ?_⟩
        · exact release_releases_le_one (h.releases.once state.charterId) _ _ _
        · exact fun _ => .inr ⟨state, hlast, hfinal, rfl⟩
      exact hrecord.stop

theorem PaymentInv.recover (h : PaymentInv identity s) :
    PaymentInv identity (s.recover identity call) := by
  unfold PaymentStore.recover
  split
  · rename_i current hread
    have hlast := read_eq_last hread
    split
    · rename_i hopen
      have hnot : ¬ s.Final := by
        refine not_final_of_last hlast ?_
        rcases hopen with heq | heq <;> rw [heq] <;> rfl
      have hkey := h.releases.keyed current (mem_of_last hlast)
      have hresolved := h.resolve hnot { current with
        status := .resolved .unknown
        reason := some "authorization/execution outcome requires authoritative reconciliation"
      } rfl hkey
      exact hresolved.stop
    · exact h.stop
  · exact h.stop

theorem PaymentInv.query (h : PaymentInv identity s) (adapterId : String) :
    PaymentInv identity (s.query identity call adapterId) := by
  unfold PaymentStore.query
  split
  · rename_i state hread
    split
    · exact h.stop
    · split
      · exact h.toRelease (read_eq_last hread) false
      · refine h.rest rfl rfl fun c hc => ?_
        obtain rfl := Option.some.inj hc
        trivial
  · exact h.stop

theorem PaymentInv.recordOther (h : PaymentInv identity s) {charterId : String}
    {entry : LedgerEntry} (hentry : entry.isReleaseOf identity.idempotencyKey = false) :
    PaymentInv identity { s with
      ledger := Function.update s.ledger charterId (s.ledger charterId ++ [entry]) } := by
  refine ⟨h.holding.keep rfl (.inl rfl) fun p k hp => hp, h.releases.record ?_ ?_⟩
  · rw [List.countP_append, List.countP_singleton, hentry]
    exact h.releases.once charterId
  · rintro ⟨other, hmem, hother⟩
    rcases List.mem_append.mp hmem with hold | hnew
    · exact .inl ⟨other, hold, hother⟩
    · rw [List.mem_singleton.mp hnew, hentry] at hother
      cases hother

theorem PaymentInv.next {t : PaymentStore} {a : PaymentStep} (h : PaymentInv identity s)
    (hstep : s.next identity a = some t) : PaymentInv identity t := by
  cases a with
  | execute call input | reconcile call adapterId =>
      simp only [PaymentStore.next] at hstep
      split at hstep
      · obtain rfl := Option.some.inj hstep
        refine h.rest rfl rfl fun c hc => ?_
        obtain rfl := Option.some.inj hc
        trivial
      · cases hstep
  | claim call active =>
      simp only [PaymentStore.next] at hstep
      split at hstep
      · obtain rfl := Option.some.inj hstep
        exact h.claim _ active
      · cases hstep
  | gate call outcome reservation =>
      simp only [PaymentStore.next] at hstep
      split at hstep
      · rename_i state hcall
        obtain rfl := Option.some.inj hstep
        exact h.gate hcall outcome reservation
      · cases hstep
  | decide call =>
      simp only [PaymentStore.next] at hstep
      split at hstep
      · rename_i state outcome hcall
        obtain rfl := Option.some.inj hstep
        exact h.decide hcall
      · cases hstep
  | submit call =>
      simp only [PaymentStore.next] at hstep
      split at hstep
      · rename_i state hcall
        obtain rfl := Option.some.inj hstep
        exact h.submit hcall
      · cases hstep
  | receipt call receipt =>
      simp only [PaymentStore.next] at hstep
      split at hstep
      · split at hstep
        · obtain rfl := Option.some.inj hstep
          exact h.fail _
        · obtain rfl := Option.some.inj hstep
          refine h.rest rfl rfl fun c hc => ?_
          obtain rfl := Option.some.inj hc
          trivial
      · cases hstep
  | settle call =>
      simp only [PaymentStore.next] at hstep
      split at hstep
      · obtain rfl := Option.some.inj hstep
        exact h.settle _ _ _
      · cases hstep
  | release call charterFound now =>
      simp only [PaymentStore.next] at hstep
      split at hstep
      · rename_i state executing hcall
        obtain rfl := Option.some.inj hstep
        exact h.release hcall charterFound now
      · cases hstep
  | throws call =>
      simp only [PaymentStore.next] at hstep
      split at hstep
      all_goals first
        | (obtain rfl := Option.some.inj hstep
           first | exact h.fail _ | exact h.stop)
        | cases hstep
  | recover call =>
      simp only [PaymentStore.next] at hstep
      split at hstep
      · obtain rfl := Option.some.inj hstep
        exact h.recover
      · cases hstep
  | query call =>
      simp only [PaymentStore.next] at hstep
      split at hstep
      · obtain rfl := Option.some.inj hstep
        exact h.query _
      · cases hstep
  | crash call =>
      obtain rfl := Option.some.inj hstep
      exact h.stop
  | record charterId entry =>
      simp only [PaymentStore.next] at hstep
      split at hstep
      · cases hstep
      · rename_i hentry
        obtain rfl := Option.some.inj hstep
        exact h.recordOther (Bool.eq_false_iff.mpr hentry)

end Steps

section Final

variable {identity : PaymentIdentity} {s t : PaymentStore} {call : ℕ}

theorem fail_log (executing : Bool) : (s.fail call executing).log = s.log := rfl

/-- Nothing is written behind a final entry. -/
theorem next_log_of_final (hfinal : s.Final) {a : PaymentStep}
    (hstep : s.next identity a = some t) : t.log = s.log := by
  obtain ⟨last, hlast, hreleases⟩ := hfinal
  have hread {entry : CharterPaymentState}
      (h : readCharterPayment identity s.log = some (some entry)) : entry = last := by
    have heq := read_eq_last h
    rw [hlast] at heq
    exact (Option.some.inj heq).symm
  have hstatus : last.status = .resolved .notExecuted ∨ last.status = .resolved .compensated := by
    cases h : last.status with
    | authorizing | executing | blocked =>
        rw [h] at hreleases
        cases hreleases
    | resolved resolution =>
        rw [h] at hreleases
        cases resolution with
        | notExecuted => exact .inl rfl
        | compensated => exact .inr rfl
        | succeeded | partially | unknown => cases hreleases
  cases a with
  | claim call active =>
      simp only [PaymentStore.next] at hstep
      split at hstep
      · obtain rfl := Option.some.inj hstep
        unfold PaymentStore.claim
        split
        · rfl
        · rename_i existing h
          obtain rfl := hread h
          have hblocked : existing.status ≠ .blocked := by
            rcases hstatus with heq | heq <;> rw [heq] <;> decide
          rw [if_neg hblocked]
          split <;> rfl
        · rename_i h
          have heq := read_eq_last h
          rw [hlast] at heq
          cases heq
      · cases hstep
  | decide call =>
      simp only [PaymentStore.next] at hstep
      split at hstep
      · obtain rfl := Option.some.inj hstep
        unfold PaymentStore.decide
        split
        · rename_i current h
          obtain rfl := hread h
          have hne : current.status ≠ .authorizing := by
            rcases hstatus with heq | heq <;> rw [heq] <;> decide
          rw [if_pos hne]
          rfl
        · rfl
      · cases hstep
  | settle call =>
      simp only [PaymentStore.next] at hstep
      split at hstep
      · obtain rfl := Option.some.inj hstep
        unfold PaymentStore.settle
        split
        · rename_i current h
          obtain rfl := hread h
          have hkeeps (resolution : CharterPaymentResolution) :
              keepsStatus current.status resolution = true := by
            rcases hstatus with heq | heq <;> rw [heq] <;> rfl
          rw [if_pos (hkeeps _)]
          rfl
        · rfl
      · cases hstep
  | recover call =>
      simp only [PaymentStore.next] at hstep
      split at hstep
      · obtain rfl := Option.some.inj hstep
        unfold PaymentStore.recover
        split
        · rename_i current h
          obtain rfl := hread h
          rw [if_neg]
          · rfl
          · rcases hstatus with heq | heq <;> rw [heq] <;> decide
        · rfl
      · cases hstep
  | release call charterFound now =>
      simp only [PaymentStore.next] at hstep
      split at hstep
      · obtain rfl := Option.some.inj hstep
        unfold PaymentStore.release
        split
        · rfl
        · split <;> rfl
      · cases hstep
  | query call =>
      simp only [PaymentStore.next] at hstep
      split at hstep
      · obtain rfl := Option.some.inj hstep
        unfold PaymentStore.query
        split
        · split
          · rfl
          · split <;> rfl
        · rfl
      · cases hstep
  | crash call =>
      obtain rfl := Option.some.inj hstep
      rfl
  | execute call input | reconcile call adapterId | gate call outcome reservation | submit call
  | throws call | record charterId entry | receipt call receipt =>
      simp only [PaymentStore.next] at hstep
      repeat' split at hstep
      all_goals first
        | (obtain rfl := Option.some.inj hstep
           rfl)
        | cases hstep

end Final

/-- The provider executes once; one release, and only under a durable status that is final, which
no step changes. -/
structure SettledOnce (identity : PaymentIdentity) (s : PaymentStore) : Prop where
  executed : s.executed ≤ 1
  releasedOnce : ∀ charterId,
    (s.ledger charterId).countP (·.isReleaseOf identity.idempotencyKey) ≤ 1
  releasedUnder : ∀ charterId charterId', s.ReleasedUnder identity charterId →
    s.ReleasedUnder identity charterId' → charterId = charterId'
  releasedFinal : ∀ charterId, s.ReleasedUnder identity charterId → s.Final
  final : s.Final → ∀ a t, (paymentSystem identity).step s a = some t → t.log = s.log

theorem payment_settled_once (identity : PaymentIdentity) {s : PaymentStore}
    (hs : (paymentSystem identity).Reachable s) : SettledOnce identity s := by
  have h : PaymentInv identity s := by
    refine System.Reach.invariant ?_ (fun s a t h _ hstep => h.next hstep) hs
    rintro s rfl
    exact ⟨holding_start, releases_start⟩
  refine ⟨h.holding.atMostOnce, h.releases.once, ?_, ?_, fun hfinal a t => next_log_of_final hfinal⟩
  · intro charterId charterId' hrel hrel'
    obtain ⟨last, hlast, -, hid⟩ := h.releases.released charterId hrel
    obtain ⟨last', hlast', -, hid'⟩ := h.releases.released charterId' hrel'
    rw [hlast] at hlast'
    obtain rfl := Option.some.inj hlast'
    rw [← hid, hid']
  · intro charterId hrel
    obtain ⟨last, hlast, hfinal, -⟩ := h.releases.released charterId hrel
    exact ⟨last, hlast, hfinal⟩

section Example

def rentIdentity : PaymentIdentity :=
  ⟨"rent-2026-03", "k1"⟩

def rentDigest : String :=
  "0123456789abcdef0123456789abcdef0123456789abcdef0123456789abcdef"

def rentInput : ExecuteCharterPaymentInput :=
  ⟨"landlord", "rent of March", "payment", some 900, some "EUR", "bank", rentDigest⟩

/-- The provider closes a payment that it did not execute; the reservation is released. -/
def rentRun : List PaymentStep :=
  [.execute 0 rentInput, .claim 0 (some "CH-1"),
    .gate 0 .allow { ts := 1, actor := "agent", actionClass := "payment", money := 900 },
    .decide 0, .submit 0,
    .receipt 0 ⟨some .notExecuted, "charter-payment:k1", "landlord", 900, "EUR", some "ref", true⟩,
    .settle 0, .release 0 true 2]

theorem payment_settled_once_rent :
    ∃ s, (s.executed = 1 ∧ (s.ledger "CH-1").length = 2) ∧ SettledOnce rentIdentity s := by
  obtain ⟨s, hs, hp⟩ := System.exists_reachable_of_exec (S := paymentSystem rentIdentity) (s := {})
    rentRun (fun s => s.executed = 1 ∧ (s.ledger "CH-1").length = 2) rfl (by decide +kernel)
  exact ⟨s, hp, payment_settled_once rentIdentity hs⟩

end Example

end Kyberion.Governance
