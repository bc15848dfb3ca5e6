import Kyberion.Delegation.Idempotency

/-!
At most one execution per key. The reservation of an execution is in flight under its owner or
settled for good; it is released only by an owner whose side effects have not become possible, so
that no second one is reserved after them, whoever is judged to be gone and whatever is lost.
-/

namespace Kyberion.Delegation.Idempotency

open Transition

def CallPhase.live : CallPhase → Bool
  | .reserved | .executing _ | .settling _ => true
  | _ => false

/-- The phases of an execution whose side effects have become possible. -/
def CallPhase.ran : CallPhase → Bool
  | .executing _ | .settling (.terminal _) | .ended (.executed _ _) => true
  | _ => false

def ReservationFile.closed : ReservationFile → Bool
  | .absent => false
  | .unreadable => true
  | .stored record => record.status = .terminal

/-- An error that says that nothing has started is right, unless the tracker knows better. -/
def honestMarker (w : World) : Action → Bool
  | .error id (some false) _ =>
      match w.calls id with
      | some { phase := .executing started, .. } => started || decide (id ∉ w.begun)
      | _ => true
  | _ => true

/-- The call holds the key: it runs, or its side effects have become possible. -/
def Engaged (w : World) (id : ℕ) (c : DelegationCall) : Prop :=
  w.calls id = some c ∧ (c.phase.live = true ∨ id ∈ w.begun)

/-- The file is bound to the payload of the call: in flight under its process, or settled. -/
def Bound (w : World) (c : DelegationCall) : Prop :=
  w.file = .unreadable ∨ ∃ record, w.file = .stored record ∧ record.payloadHash = c.payloadHash ∧
    (record.status = .terminal ∨ record.status = .inFlight ∧ record.ownerInstance = c.owner)

variable {host : Host} {w t : World} {id : ℕ} {c : DelegationCall} {m : ModuleInstance}
  {phase : CallPhase} {record : DelegationReservation}

structure Sound (host : Host) (w : World) : Prop where
  held : ∀ id c, Engaged w id c → Bound w c
  alone : ∀ id c id' c', Engaged w id c → Engaged w id' c' → id = id'
  nodup : w.begun.Nodup
  known : ∀ id ∈ w.begun, ∃ c, w.calls id = some c ∧ c.phase.ran = true
  closed : ∀ record, w.file = .stored record → record.status = .terminal →
    w.settled = some (record.payloadHash, replay host record)
  unsettled : w.file.closed = false → w.settled = none
  agreed : ∀ id c outcome result, w.calls id = some c → c.phase = .ended outcome →
    outcome.recordedResult = some result → w.settled = some (c.payloadHash, result)
  joined : ∀ id c owner, w.calls id = some c → c.phase = .joining owner →
    ∃ o, w.calls owner = some o ∧ o.payloadHash = c.payloadHash

namespace Sound

theorem initial : Sound host {} where
  held _ _ h := by simp [Engaged] at h
  alone _ _ _ _ h := by simp [Engaged] at h
  nodup := List.nodup_nil
  known _ h := by simp at h
  closed _ h := by cases h
  unsettled _ := rfl
  agreed _ _ _ _ h := by cases h
  joined _ _ _ h := by cases h

theorem setInstance (h : Sound host w) (i : ℕ) (m : ModuleInstance) :
    Sound host (w.setInstance i m) :=
  ⟨h.held, h.alone, h.nodup, h.known, h.closed, h.unsettled, h.agreed, h.joined⟩

/-- A file that is free to be reserved is engaged by nobody. -/
theorem free (h : Sound host w) (hclosed : w.file.closed = false)
    (hflight : ∀ record, w.file = .stored record → record.status ≠ .inFlight) (id : ℕ)
    (c : DelegationCall) : ¬Engaged w id c := by
  intro hengaged
  rcases h.held id c hengaged with hfile | ⟨record, hfile, -, hterminal | ⟨hstatus, -⟩⟩
  · rw [hfile] at hclosed
    cases hclosed
  · simp [hfile, ReservationFile.closed, hterminal] at hclosed
  · exact hflight record hfile hstatus

theorem calls_goTo (id id' : ℕ) (c : DelegationCall) (phase : CallPhase) :
    (w.goTo id c phase).calls id' =
      if id' = id then some { c with phase } else w.calls id' := by
  simp only [World.goTo, Function.update_apply]

/-- A call of a world after a step of one call is that call, or as it was. -/
theorem calls_goTo_cases {id' : ℕ} {c' : DelegationCall}
    (h : (w.goTo id c phase).calls id' = some c') :
    id' = id ∧ c' = { c with phase } ∨ id' ≠ id ∧ w.calls id' = some c' := by
  rw [calls_goTo] at h
  split at h
  · rename_i heq
    exact .inl ⟨heq, (Option.some.inj h).symm⟩
  · rename_i hne
    exact .inr ⟨hne, h⟩

/-- A call whose step touches neither the file nor the executions. -/
theorem goTo (h : Sound host w) (hc : w.calls id = some c)
    (hlive : phase.live = true → c.phase.live = true)
    (hran : id ∈ w.begun → phase.ran = true)
    (hresult : ∀ outcome result, phase = .ended outcome → outcome.recordedResult = some result →
      w.settled = some (c.payloadHash, result))
    (hjoin : ∀ owner, phase = .joining owner →
      ∃ o, w.calls owner = some o ∧ o.payloadHash = c.payloadHash) :
    Sound host (w.goTo id c phase) := by
  have hengaged : ∀ id' c', Engaged (w.goTo id c phase) id' c' → ∃ old, Engaged w id' old ∧
      old.owner = c'.owner ∧ old.payloadHash = c'.payloadHash := by
    rintro id' c' ⟨hc', hheld⟩
    rcases calls_goTo_cases hc' with ⟨rfl, rfl⟩ | ⟨-, hc'⟩
    · exact ⟨c, ⟨hc, hheld.imp hlive fun hbegun => hbegun⟩, rfl, rfl⟩
    · exact ⟨c', ⟨hc', hheld⟩, rfl, rfl⟩
  refine ⟨fun id' c' he => ?_, fun id' c' id'' c'' he he' => ?_, h.nodup, fun id' hid' => ?_,
    h.closed, h.unsettled, fun id' c' outcome result hc' houtcome hres => ?_,
    fun id' c' owner hc' hphase => ?_⟩
  · obtain ⟨old, hold, howner, hhash⟩ := hengaged id' c' he
    refine (h.held id' old hold).imp_right ?_
    rintro ⟨record, hfile, hpay, hstatus⟩
    exact ⟨record, hfile, hpay.trans hhash, hstatus.imp_right fun hflight =>
      ⟨hflight.1, hflight.2.trans howner⟩⟩
  · obtain ⟨old, hold, -⟩ := hengaged id' c' he
    obtain ⟨old', hold', -⟩ := hengaged id'' c'' he'
    exact h.alone _ _ _ _ hold hold'
  · obtain ⟨c', hc', hranOld⟩ := h.known id' hid'
    by_cases heq : id' = id
    · subst heq
      exact ⟨{ c with phase }, by rw [calls_goTo, if_pos rfl], hran hid'⟩
    · exact ⟨c', by rw [calls_goTo, if_neg heq, hc'], hranOld⟩
  · rcases calls_goTo_cases hc' with ⟨rfl, rfl⟩ | ⟨-, hc'⟩
    · exact hresult outcome result houtcome hres
    · exact h.agreed id' c' outcome result hc' houtcome hres
  · have hfind : ∃ o, w.calls owner = some o ∧ o.payloadHash = c'.payloadHash := by
      rcases calls_goTo_cases hc' with ⟨rfl, rfl⟩ | ⟨-, hc'⟩
      · exact hjoin owner hphase
      · exact h.joined id' c' owner hc' hphase
    obtain ⟨o, ho, hhash⟩ := hfind
    by_cases heq : owner = id
    · subst heq
      obtain rfl := Option.some.inj (ho.symm.trans hc)
      exact ⟨{ o with phase }, by rw [calls_goTo, if_pos rfl], hhash⟩
    · exact ⟨o, by rw [calls_goTo, if_neg heq, ho], hhash⟩

/-- A file nobody is engaged with can be written, as long as nothing terminal is written. -/
theorem write_free (h : Sound host w) (hfree : ∀ id c, ¬Engaged w id c)
    (hsettled : w.settled = none) (hrecord : record.status ≠ .terminal) :
    Sound host (w.write record) where
  held id c he := absurd he (hfree id c)
  alone id c _ _ he := absurd he (hfree id c)
  nodup := h.nodup
  known := h.known
  closed r hfile hterminal := by
    obtain rfl := ReservationFile.stored.inj hfile
    exact absurd hterminal hrecord
  unsettled _ := hsettled
  agreed := h.agreed
  joined := h.joined

/-- Its owner rewrites a record that is in flight. -/
theorem write_flight (h : Sound host w) {old : DelegationReservation}
    (hfile : w.file = .stored old) (hold : old.status = .inFlight)
    (hstatus : record.status = .inFlight) (howner : record.ownerInstance = old.ownerInstance)
    (hhash : record.payloadHash = old.payloadHash) : Sound host (w.write record) where
  held id c he := by
    rcases h.held id c he with hr | ⟨r, hr, hpay, hend⟩
    · rw [hfile] at hr
      cases hr
    · obtain rfl := ReservationFile.stored.inj (hfile.symm.trans hr)
      refine .inr ⟨record, rfl, hhash.trans hpay, .inr ⟨hstatus, ?_⟩⟩
      rcases hend with hterminal | ⟨-, hown⟩
      · rw [hold] at hterminal
        cases hterminal
      · exact howner.trans hown
  alone := h.alone
  nodup := h.nodup
  known := h.known
  closed r hr hterminal := by
    obtain rfl := ReservationFile.stored.inj hr
    rw [hstatus] at hterminal
    cases hterminal
  unsettled _ := h.unsettled (by rw [hfile, ReservationFile.closed, hold]; rfl)
  agreed := h.agreed
  joined := h.joined

theorem writeTerminal (h : Sound host w) {old : DelegationReservation}
    (hfile : w.file = .stored old) (hold : old.status = .inFlight)
    (hstatus : record.status = .terminal) (hhash : record.payloadHash = old.payloadHash) :
    Sound host (w.writeTerminal host record) := by
  have hsettled : w.settled = none :=
    h.unsettled (by rw [hfile, ReservationFile.closed, hold]; rfl)
  have hclosed : (w.writeTerminal host record).file.closed = true := by
    simp [World.writeTerminal, ReservationFile.closed, hstatus]
  refine ⟨fun id c he => ?_, h.alone, h.nodup, h.known, fun r hr _ => ?_, fun hopen => ?_,
    fun id c outcome result hc hphase hres => ?_, h.joined⟩
  · rcases h.held id c he with hr | ⟨r, hr, hpay, -⟩
    · rw [hfile] at hr
      cases hr
    · obtain rfl := ReservationFile.stored.inj (hfile.symm.trans hr)
      exact .inr ⟨record, rfl, hhash.trans hpay, .inl hstatus⟩
  · obtain rfl := ReservationFile.stored.inj hr
    simp [World.writeTerminal, hsettled]
  · rw [hclosed] at hopen
    cases hopen
  · have hrecorded := h.agreed id c outcome result hc hphase hres
    rw [hsettled] at hrecorded
    cases hrecorded

theorem corrupt (h : Sound host w) : Sound host { w with file := .unreadable } where
  held _ _ _ := .inl rfl
  alone := h.alone
  nodup := h.nodup
  known := h.known
  closed _ hfile := by cases hfile
  unsettled hopen := by cases hopen
  agreed := h.agreed
  joined := h.joined

/-- The record that `update` finds is in flight under the call's process. -/
theorem ownRecord_some (h : w.ownRecord c = some record) :
    w.file = .stored record ∧ record.ownerInstance = c.owner ∧ record.status = .inFlight := by
  unfold World.ownRecord at h
  split at h
  · rename_i stored hfile
    split at h
    · rename_i hown
      obtain rfl := Option.some.inj h
      exact ⟨hfile, hown⟩
    · cases h
  · cases h

/-- The record of an engaged call that finds its own record. -/
theorem ownRecord_hash (h : Sound host w) (he : Engaged w id c)
    (hown : w.ownRecord c = some record) : record.payloadHash = c.payloadHash := by
  obtain ⟨hfile, -⟩ := ownRecord_some hown
  rcases h.held id c he with hr | ⟨r, hr, hpay, -⟩
  · rw [hfile] at hr
    cases hr
  · obtain rfl := ReservationFile.stored.inj (hfile.symm.trans hr)
    exact hpay

/-- The reservation of a file that is absent or released, by a call that goes on to run. -/
theorem reserve (h : Sound host w) (hc : w.calls id = some c) (hphase : c.phase.live = false)
    (hnone : ∀ id c, ¬Engaged w id c) (hsettled : w.settled = none)
    (hstatus : record.status = .inFlight) (howner : record.ownerInstance = c.owner)
    (hhash : record.payloadHash = c.payloadHash) :
    Sound host ((w.write record).goTo id c .reserved) := by
  have hbegun : ∀ i, i ∉ w.begun := by
    intro i hi
    obtain ⟨c', hc', -⟩ := h.known i hi
    exact hnone i c' ⟨hc', .inr hi⟩
  have hengaged : ∀ id' c', Engaged ((w.write record).goTo id c .reserved) id' c' →
      id' = id ∧ c' = { c with phase := .reserved } := by
    rintro id' c' ⟨hc', hheld⟩
    rcases calls_goTo_cases hc' with ⟨rfl, rfl⟩ | ⟨-, hc'⟩
    · exact ⟨rfl, rfl⟩
    · exact absurd ⟨hc', hheld⟩ (hnone id' c')
  refine ⟨fun id' c' he => ?_, fun id' c' id'' c'' he he' => ?_, h.nodup,
    fun i hi => absurd hi (hbegun i), fun r hr hterminal => ?_, fun _ => hsettled,
    fun id' c' outcome result hc' houtcome hres => ?_, fun id' c' owner hc' hjoin => ?_⟩
  · obtain ⟨rfl, rfl⟩ := hengaged id' c' he
    exact .inr ⟨record, rfl, hhash, .inr ⟨hstatus, howner⟩⟩
  · exact (hengaged id' c' he).1.trans (hengaged id'' c'' he').1.symm
  · obtain rfl := ReservationFile.stored.inj hr
    rw [hstatus] at hterminal
    cases hterminal
  · rcases calls_goTo_cases hc' with ⟨rfl, rfl⟩ | ⟨-, hc'⟩
    · cases houtcome
    · exact h.agreed id' c' outcome result hc' houtcome hres
  · rcases calls_goTo_cases hc' with ⟨rfl, rfl⟩ | ⟨-, hc'⟩
    · cases hjoin
    · obtain ⟨o, ho, hpay⟩ := h.joined id' c' owner hc' hjoin
      by_cases heq : owner = id
      · subst heq
        obtain rfl := Option.some.inj (ho.symm.trans hc)
        exact ⟨{ o with phase := .reserved }, by rw [calls_goTo, if_pos rfl], hpay⟩
      · exact ⟨o, by rw [calls_goTo, if_neg heq]; exact ho, hpay⟩

/-- The side effects of a running execution become possible. -/
theorem start (h : Sound host w) (hc : w.calls id = some c) (hlive : c.phase.live = true)
    (hran : c.phase.ran = true) (hnew : id ∉ w.begun) :
    Sound host { w with begun := w.begun ++ [id] } := by
  have hengaged : ∀ id' c', Engaged { w with begun := w.begun ++ [id] } id' c' →
      Engaged w id' c' := by
    rintro id' c' ⟨hc', hheld⟩
    refine ⟨hc', hheld.elim .inl fun hin => ?_⟩
    rcases List.mem_append.mp hin with hin | hin
    · exact .inr hin
    · obtain rfl := List.mem_singleton.mp hin
      obtain rfl := Option.some.inj (hc.symm.trans hc')
      exact .inl hlive
  refine ⟨fun id' c' he => h.held id' c' (hengaged id' c' he), fun _ _ _ _ he he' =>
    h.alone _ _ _ _ (hengaged _ _ he) (hengaged _ _ he'), ?_, fun i hi => ?_, h.closed,
    h.unsettled, h.agreed, h.joined⟩
  · exact List.nodup_append.mpr ⟨h.nodup, List.nodup_singleton id, fun i hi j hj heq =>
      hnew (by rw [← List.mem_singleton.mp hj, ← heq]; exact hi)⟩
  · rcases List.mem_append.mp hi with hi | hi
    · exact h.known i hi
    · obtain rfl := List.mem_singleton.mp hi
      exact ⟨c, hc, hran⟩

/-- A call that enters. -/
theorem call (h : Sound host w) (hfresh : w.calls id = none) (hphase : c.phase = .looking) :
    Sound host { w with calls := Function.update w.calls id (some c) } := by
  have hcalls : ∀ id' c', Function.update w.calls id (some c) id' = some c' →
      id' = id ∧ c' = c ∨ w.calls id' = some c' := by
    intro id' c' hc'
    rw [Function.update_apply] at hc'
    split at hc'
    · rename_i heq
      exact .inl ⟨heq, (Option.some.inj hc').symm⟩
    · exact .inr hc'
  have hkeeps : ∀ id' c', w.calls id' = some c' →
      Function.update w.calls id (some c) id' = some c' := by
    intro id' c' hc'
    rw [Function.update_of_ne, hc']
    rintro rfl
    rw [hfresh] at hc'
    cases hc'
  have hengaged : ∀ id' c', Engaged { w with calls := Function.update w.calls id (some c) } id' c' →
      Engaged w id' c' := by
    rintro id' c' ⟨hc', hheld⟩
    rcases hcalls id' c' hc' with ⟨rfl, rfl⟩ | hc'
    · rw [hphase] at hheld
      obtain hlive | hin := hheld
      · cases hlive
      · obtain ⟨c'', hc'', -⟩ := h.known id' hin
        rw [hfresh] at hc''
        cases hc''
    · exact ⟨hc', hheld⟩
  refine ⟨fun id' c' he => h.held id' c' (hengaged id' c' he), fun _ _ _ _ he he' =>
    h.alone _ _ _ _ (hengaged _ _ he) (hengaged _ _ he'), h.nodup, fun i hi => ?_, h.closed,
    h.unsettled, fun id' c' outcome result hc' houtcome hres => ?_, fun id' c' owner hc' hjoin => ?_⟩
  · obtain ⟨c', hc', hran⟩ := h.known i hi
    exact ⟨c', hkeeps i c' hc', hran⟩
  · rcases hcalls id' c' hc' with ⟨rfl, rfl⟩ | hc'
    · rw [hphase] at houtcome
      cases houtcome
    · exact h.agreed id' c' outcome result hc' houtcome hres
  · rcases hcalls id' c' hc' with ⟨rfl, rfl⟩ | hc'
    · rw [hphase] at hjoin
      cases hjoin
    · obtain ⟨o, ho, hpay⟩ := h.joined id' c' owner hc' hjoin
      exact ⟨o, hkeeps owner o ho, hpay⟩

theorem not_begun (h : Sound host w) (hc : w.calls id = some c) (hran : c.phase.ran = false) :
    id ∉ w.begun := by
  intro hin
  obtain ⟨c', hc', hran'⟩ := h.known id hin
  obtain rfl := Option.some.inj (hc.symm.trans hc')
  rw [hran] at hran'
  cases hran'

/-- A call that does not run goes on without a result. -/
theorem goIdle (h : Sound host w) (hc : w.calls id = some c) (hran : c.phase.ran = false)
    (hlive : phase.live = false) (hjoin : ∀ owner, phase ≠ .joining owner)
    (hresult : ∀ outcome, phase = .ended outcome → outcome.recordedResult = none) :
    Sound host (w.goTo id c phase) := by
  refine h.goTo hc (fun hl => ?_) (fun hin => absurd hin (h.not_begun hc hran))
    (fun outcome result hphase hres => ?_) (fun owner hphase => absurd hphase (hjoin owner))
  · rw [hlive] at hl
    cases hl
  · rw [hresult outcome hphase] at hres
    cases hres

theorem look (h : Sound host w) (hc : w.calls id = some c) (hphase : c.phase = .looking)
    (now : ℤ) (alive : Bool) : Sound host (w.look host id now alive c m) := by
  have hran : c.phase.ran = false := by rw [hphase]; rfl
  unfold World.look
  split
  · rename_i owner joined hentry
    obtain ⟨o, -, hjoined⟩ := Option.bind_eq_some_iff.mp hentry
    obtain ⟨found, hfound, hpair⟩ := Option.map_eq_some_iff.mp hjoined
    obtain ⟨rfl, rfl⟩ := Prod.mk.inj hpair
    split
    · exact h.goIdle hc hran rfl (by rintro _ ⟨⟩) (by rintro _ ⟨⟩; rfl)
    · rename_i hsame
      refine h.goTo hc (by rintro ⟨⟩) (fun hin => absurd hin (h.not_begun hc hran))
        (by rintro _ _ ⟨⟩) ?_
      rintro _ ⟨⟩
      exact ⟨found, hfound, not_not.mp hsame⟩
  · split
    · exact h.goIdle hc hran rfl (by rintro _ ⟨⟩) (by rintro _ ⟨⟩; rfl)
    · exact (h.setInstance _ _).goIdle hc hran rfl (by rintro _ ⟨⟩) (by rintro _ ⟨⟩)

/-- What the locked section of `reserve` can do. -/
theorem reserve_cases {self now : _} {payloadHash : String} {peek : Option DelegationReservation}
    {gone : Option String} {existing : Option DelegationReservation} {outcome : ReserveOutcome}
    (h : Idempotency.reserve host self m payloadHash now peek gone existing = outcome) :
    (∃ record, outcome = .reserved record ∧ record = newReservation self m payloadHash now ∧
      ∀ old ∈ existing, old.status = .released) ∨
    (∃ old record, existing = some old ∧ outcome = .settled record ∧ old.status = .inFlight ∧
      record.status = .terminal ∧ record.payloadHash = old.payloadHash ∧
      old.payloadHash = payloadHash) ∨
    (∃ old, existing = some old ∧ outcome = .replay old ∧ old.status = .terminal ∧
      old.payloadHash = payloadHash) ∨
    outcome = .wait ∨ ∃ stored, outcome = .conflict stored := by
  subst h
  cases existing with
  | none => exact .inl ⟨_, rfl, rfl, by simp⟩
  | some old =>
      simp only [Idempotency.reserve]
      split
      · rename_i hreleased
        exact .inl ⟨_, rfl, rfl, by simpa using hreleased⟩
      · rename_i hreleased
        split
        · exact .inr (.inr (.inr (.inr ⟨_, rfl⟩)))
        · rename_i hsame
          split
          · rename_i hterminal
            exact .inr (.inr (.inl ⟨old, rfl, rfl, hterminal, not_not.mp hsame⟩))
          · rename_i hterminal
            split
            · exact .inr (.inr (.inr (.inl rfl)))
            · refine .inr (.inl ⟨old, _, rfl, rfl, ?_, rfl, rfl, not_not.mp hsame⟩)
              cases hstatus : old.status with
              | inFlight => rfl
              | terminal => exact absurd hstatus hterminal
              | released => exact absurd hstatus hreleased

theorem reserveLocked (h : Sound host w) (hc : w.calls id = some c)
    {peek : Option DelegationReservation} {gone : Option String}
    (hphase : c.phase = .peeked peek gone) (now : ℤ) (fault : Fault) :
    Sound host (w.reserveLocked host id now fault c m peek gone) := by
  have hran : c.phase.ran = false := by rw [hphase]; rfl
  have hlive : c.phase.live = false := by rw [hphase]; rfl
  have hidle := h.setInstance c.owner { m with inReserve := none }
  unfold World.reserveLocked
  dsimp only
  split
  · exact hidle.goIdle hc hran rfl (by rintro _ ⟨⟩) (by rintro _ ⟨⟩; rfl)
  · cases hread : w.file.read with
    | none => exact hidle.goIdle hc hran rfl (by rintro _ ⟨⟩) (by rintro _ ⟨⟩; rfl)
    | some existing =>
        dsimp only
        generalize houtcome :
          Idempotency.reserve host c.owner m c.payloadHash now peek gone existing = outcome
        have hfile : ∀ record, existing = some record → w.file = .stored record := by
          rintro record rfl
          cases hw : w.file with
          | absent => simp [hw, ReservationFile.read] at hread
          | unreadable => simp [hw, ReservationFile.read] at hread
          | stored r => simpa [hw, ReservationFile.read] using hread
        rcases reserve_cases houtcome with ⟨record, rfl, rfl, hfree⟩ |
          ⟨old, record, hold, rfl, hflight, hterminal, hsame, hhash⟩ |
          ⟨old, hold, rfl, hterminal, hhash⟩ | rfl | ⟨stored, rfl⟩
        · have hopen : w.file.closed = false ∧
              ∀ record, w.file = .stored record → record.status ≠ .inFlight := by
            cases hw : w.file with
            | absent => exact ⟨rfl, by rintro _ ⟨⟩⟩
            | unreadable => simp [hw, ReservationFile.read] at hread
            | stored r =>
                have hr : existing = some r := by simpa [hw, ReservationFile.read, eq_comm] using hread
                have hreleased := hfree r hr
                refine ⟨by simp [ReservationFile.closed, hreleased], ?_⟩
                rintro _ ⟨⟩
                simp [hreleased]
          have hnone := h.free hopen.1 hopen.2
          have hsettled := h.unsettled hopen.1
          dsimp only
          split
          · exact (hidle.write_free hnone hsettled (by simp [newReservation])).goIdle hc hran rfl
              (by rintro _ ⟨⟩) (by rintro _ ⟨⟩; rfl)
          · exact (h.setInstance c.owner { m with inReserve := none, inFlight := some id }).reserve
              hc hlive hnone hsettled rfl rfl rfl
        · have hwrite := hidle.writeTerminal (hfile old hold) hflight hterminal hsame
          have hopen : w.settled = none :=
            h.unsettled (by rw [hfile old hold, ReservationFile.closed, hflight]; rfl)
          dsimp only
          split
          · exact hwrite.goIdle hc hran rfl (by rintro _ ⟨⟩) (by rintro _ ⟨⟩; rfl)
          · refine hwrite.goTo hc (by rintro ⟨⟩) (fun hin => absurd hin (h.not_begun hc hran)) ?_
              (by rintro _ ⟨⟩)
            rintro _ result ⟨⟩ hres
            obtain rfl := Option.some.inj hres
            simp [World.writeTerminal, World.setInstance, hopen, hsame, hhash]
        · refine hidle.goTo hc (by rintro ⟨⟩) (fun hin => absurd hin (h.not_begun hc hran)) ?_
            (by rintro _ ⟨⟩)
          rintro _ result ⟨⟩ hres
          obtain rfl := Option.some.inj hres
          rw [← hhash]
          exact h.closed old (hfile old hold) hterminal
        · dsimp only
          split
          · exact hidle.goIdle hc hran rfl (by rintro _ ⟨⟩) (by rintro _ ⟨⟩; rfl)
          · exact hidle.goIdle hc hran rfl (by rintro _ ⟨⟩) (by rintro _ ⟨⟩)
        · exact hidle.goIdle hc hran rfl (by rintro _ ⟨⟩) (by rintro _ ⟨⟩; rfl)

theorem settle (h : Sound host w) (hc : w.calls id = some c) {settlement : Settlement}
    (hphase : c.phase = .settling settlement) (now : ℤ) (written : Bool) :
    Sound host (w.settle host id now written c settlement) := by
  have hengaged : Engaged w id c := ⟨hc, .inl (by rw [hphase]; rfl)⟩
  cases settlement with
  | release =>
      have hran : c.phase.ran = false := by rw [hphase]; rfl
      have hleft : Sound host (w.goTo id c (.ended .released)) :=
        h.goIdle hc hran rfl (by rintro _ ⟨⟩) (by rintro _ ⟨⟩; rfl)
      simp only [World.settle]
      split
      · rename_i record hown
        obtain ⟨hfile, -, hstatus⟩ := ownRecord_some hown
        refine hleft.write_free (fun id' c' he => ?_) (h.unsettled ?_) (by simp)
        · -- whoever else were engaged would be engaged beside the call
          obtain ⟨hc', hheld⟩ := he
          rcases calls_goTo_cases hc' with ⟨rfl, rfl⟩ | ⟨hne, hc'⟩
          · exact hheld.elim (by rintro ⟨⟩) (h.not_begun hc hran)
          · exact hne (h.alone _ _ _ _ ⟨hc', hheld⟩ hengaged)
        · rw [hfile, ReservationFile.closed, hstatus]
          rfl
      · exact hleft
  | terminal result =>
      simp only [World.settle]
      split
      · rename_i record hown
        obtain ⟨hfile, -, hstatus⟩ := ownRecord_some hown
        have hopen : w.settled = none :=
          h.unsettled (by rw [hfile, ReservationFile.closed, hstatus]; rfl)
        have hwrite : Sound host (w.writeTerminal host { record with
            status := .terminal, completedAt := some now, result := some result }) :=
          h.writeTerminal hfile hstatus rfl rfl
        refine hwrite.goTo hc (by rintro ⟨⟩) (fun _ => rfl) ?_ (by rintro _ ⟨⟩)
        rintro _ res ⟨⟩ hres
        obtain rfl := Option.some.inj hres
        simp [World.writeTerminal, hopen, replay, h.ownRecord_hash hengaged hown]
      · refine h.goTo hc (by rintro ⟨⟩) (fun _ => rfl) ?_ (by rintro _ ⟨⟩)
        rintro _ res ⟨⟩ ⟨⟩

theorem heartbeat (h : Sound host w) (now : ℤ) : Sound host (w.heartbeat now c) := by
  unfold World.heartbeat
  split
  · rename_i record hown
    obtain ⟨hfile, -, hstatus⟩ := ownRecord_some hown
    exact h.write_flight hfile hstatus hstatus rfl rfl
  · exact h

theorem forget (h : Sound host w) : Sound host (w.forget id c m) := by
  unfold World.forget
  split
  · exact h.setInstance _ _
  · exact h

theorem resume (h : Sound host w) (hc : w.calls id = some c) {owner : ℕ} {o : DelegationCall}
    (hphase : c.phase = .joining owner) (ho : w.calls owner = some o) {outcome : CallEnd}
    (hended : o.phase = .ended outcome) (ht : w.resume id owner c m outcome = some t) :
    Sound host t := by
  have hran : c.phase.ran = false := by rw [hphase]; rfl
  cases outcome with
  | executed result recorded =>
      obtain rfl := Option.some.inj ht
      refine h.goTo hc (by rintro ⟨⟩) (fun hin => absurd hin (h.not_begun hc hran)) ?_
        (by rintro _ ⟨⟩)
      rintro _ res ⟨⟩ hres
      obtain ⟨o', ho', hhash⟩ := h.joined id c owner hc hphase
      obtain rfl := Option.some.inj (ho.symm.trans ho')
      rw [← hhash]
      refine h.agreed owner o _ res ho hended ?_
      cases recorded with
      | true => exact hres
      | false => cases hres
  | released =>
      obtain rfl := Option.some.inj ht
      have hforget : Sound host (w.forget owner c m) := h.forget
      have hcalls : (w.forget owner c m).calls = w.calls := by
        unfold World.forget
        split <;> rfl
      exact hforget.goIdle (by rw [hcalls]; exact hc) hran rfl (by rintro _ ⟨⟩) (by rintro _ ⟨⟩)
  | _ => cases ht

theorem callStep (h : Sound host w) (hc : w.calls id = some c) {a : Action}
    (hhonest : ∀ started marker result, c.phase = .executing started → a = .error id marker result →
      marker = some false → started = true ∨ id ∉ w.begun) (hsubject : a.subject = some id)
    (ht : callStep host w id c m c.phase a = some t) : Sound host t := by
  cases hphase : c.phase with
  | looking =>
      have hran : c.phase.ran = false := by rw [hphase]; rfl
      cases a with
      | look _ now alive =>
          rw [hphase] at ht
          obtain rfl := Option.some.inj ht
          exact h.look hc hphase now alive
      | _ => rw [hphase] at ht; cases ht
  | joining owner =>
      have hran : c.phase.ran = false := by rw [hphase]; rfl
      cases a with
      | cancel _ =>
          rw [hphase] at ht
          obtain rfl := Option.some.inj ht
          exact h.goIdle hc hran rfl (by rintro _ ⟨⟩) (by rintro _ ⟨⟩; rfl)
      | resume _ =>
          rw [hphase] at ht
          simp only [Idempotency.callStep] at ht
          cases ho : w.calls owner with
          | none => rw [ho] at ht; cases ht
          | some o =>
              obtain ⟨_, _, _, ophase⟩ := o
              rw [ho] at ht
              cases ophase with
              | ended outcome => exact h.resume hc hphase ho rfl ht
              | _ => cases ht
      | _ => rw [hphase] at ht; cases ht
  | peeked peek gone =>
      cases a with
      | reserve _ now fault =>
          rw [hphase] at ht
          obtain rfl := Option.some.inj ht
          exact h.reserveLocked hc hphase now fault
      | _ => rw [hphase] at ht; cases ht
  | sleeping =>
      have hran : c.phase.ran = false := by rw [hphase]; rfl
      cases a with
      | wake _ =>
          rw [hphase] at ht
          obtain rfl := Option.some.inj ht
          exact h.goIdle hc hran rfl (by rintro _ ⟨⟩) (by rintro _ ⟨⟩)
      | cancel _ =>
          rw [hphase] at ht
          obtain rfl := Option.some.inj ht
          exact h.goIdle hc hran rfl (by rintro _ ⟨⟩) (by rintro _ ⟨⟩; rfl)
      | _ => rw [hphase] at ht; cases ht
  | reserved =>
      have hnew : id ∉ w.begun := h.not_begun hc (by rw [hphase]; rfl)
      have hlive : c.phase.live = true := by rw [hphase]; rfl
      cases a with
      | abort _ =>
          rw [hphase] at ht
          obtain rfl := Option.some.inj ht
          exact h.goTo hc (fun _ => hlive) (absurd · hnew) (by rintro _ _ ⟨⟩) (by rintro _ ⟨⟩)
      | dispatch _ =>
          rw [hphase] at ht
          obtain rfl := Option.some.inj ht
          exact h.goTo hc (fun _ => hlive) (absurd · hnew) (by rintro _ _ ⟨⟩) (by rintro _ ⟨⟩)
      | _ => rw [hphase] at ht; cases ht
  | executing started =>
      have hlive : c.phase.live = true := by rw [hphase]; rfl
      have hran : c.phase.ran = true := by rw [hphase]; rfl
      cases a with
      | start _ reported =>
          rw [hphase] at ht
          simp only [Idempotency.callStep] at ht
          split at ht
          · cases ht
          · rename_i hnew
            obtain rfl := Option.some.inj ht
            exact (h.start hc hlive hran hnew).goTo hc (fun _ => hlive) (fun _ => rfl)
              (by rintro _ _ ⟨⟩) (by rintro _ ⟨⟩)
      | value _ text =>
          rw [hphase] at ht
          obtain rfl := Option.some.inj ht
          exact h.goTo hc (fun _ => hlive) (fun _ => rfl) (by rintro _ _ ⟨⟩) (by rintro _ ⟨⟩)
      | error _ marker result =>
          obtain rfl := Option.some.inj hsubject
          have hmarker := hhonest started marker result hphase rfl
          rw [hphase] at ht
          simp only [Idempotency.callStep] at ht
          split at ht
          · rename_i hproven
            obtain rfl := Option.some.inj ht
            refine h.goTo hc (fun _ => hlive) (fun hin => ?_) (by rintro _ _ ⟨⟩) (by rintro _ ⟨⟩)
            rcases hmarker hproven.2 with hstarted | hnew
            · rw [hproven.1] at hstarted
              cases hstarted
            · exact absurd hin hnew
          · obtain rfl := Option.some.inj ht
            exact h.goTo hc (fun _ => hlive) (fun _ => rfl) (by rintro _ _ ⟨⟩) (by rintro _ ⟨⟩)
      | heartbeat _ now =>
          rw [hphase] at ht
          obtain rfl := Option.some.inj ht
          exact h.heartbeat now
      | _ => rw [hphase] at ht; cases ht
  | settling settlement =>
      cases a with
      | settle _ now written =>
          rw [hphase] at ht
          obtain rfl := Option.some.inj ht
          exact h.settle hc hphase now written
      | _ => rw [hphase] at ht; cases ht
  | ended outcome =>
      cases a with
      | forget _ =>
          rw [hphase] at ht
          obtain rfl := Option.some.inj ht
          exact h.forget
      | _ => rw [hphase] at ht; cases ht

theorem running_some (h : w.running id = some (c, m)) : w.calls id = some c := by
  obtain ⟨c', hc', hm⟩ := Option.bind_eq_some_iff.mp h
  obtain ⟨m', -, hpair⟩ := Option.map_eq_some_iff.mp hm
  obtain ⟨rfl, rfl⟩ := Prod.mk.inj hpair
  exact hc'

/-- A step of a call is one of a call that can run. -/
theorem subjectStep {a : Action}
    (h : Sound host w) (hhonest : honestMarker w a = true)
    (ht : (a.subject.bind fun id => (w.running id).bind fun (c, m) =>
      Idempotency.callStep host w id c m c.phase a) = some t) : Sound host t := by
  obtain ⟨id, hsubject, ht⟩ := Option.bind_eq_some_iff.mp ht
  obtain ⟨⟨c, m⟩, hrunning, ht⟩ := Option.bind_eq_some_iff.mp ht
  have hc := running_some hrunning
  refine h.callStep hc ?_ hsubject ht
  rintro started marker result hphase rfl rfl
  obtain ⟨owner, payloadHash, waitDeadline, phase⟩ := c
  dsimp only at hphase
  subst hphase
  simpa [honestMarker, hc] using hhonest

theorem step {a : Action} (h : Sound host w) (hhonest : honestMarker w a = true)
    (ht : (idempotency host).step w a = some t) : Sound host t := by
  cases a with
  | boot id name pid startMarker =>
      simp only [idempotency] at ht
      split at ht
      · obtain rfl := Option.some.inj ht
        exact h.setInstance _ _
      · cases ht
  | crash id =>
      obtain ⟨m, -, rfl⟩ := Option.map_eq_some_iff.mp ht
      exact h.setInstance _ _
  | corrupt =>
      simp only [idempotency] at ht
      split at ht
      · cases ht
      · obtain rfl := Option.some.inj ht
        exact h.corrupt
  | call id owner payloadHash now =>
      simp only [idempotency] at ht
      split at ht
      · rename_i hfresh
        obtain rfl := Option.some.inj ht
        exact h.call hfresh.1 rfl
      · cases ht
  | _ => exact h.subjectStep hhonest ht

theorem of_reach (hw : (idempotency host).Reach (fun w a => honestMarker w a) w) : Sound host w :=
  hw.invariant (by rintro _ rfl; exact initial) fun _ _ _ h hok ht => h.step hok ht

end Sound

/-- One execution at most has side effects. From then on its record is kept for its payload, and
all results that calls end with, when written, are one result of one payload. -/
structure ExecutedOnce (w : World) : Prop where
  once : w.begun.length ≤ 1
  bound : ∀ id ∈ w.begun, ∃ c, w.calls id = some c ∧ (w.file = .unreadable ∨ ∃ record,
    w.file = .stored record ∧ record.status ≠ .released ∧ record.payloadHash = c.payloadHash)
  agreed : ∀ id c outcome result id' c' outcome' result', w.calls id = some c →
    c.phase = .ended outcome → outcome.recordedResult = some result →
    w.calls id' = some c' → c'.phase = .ended outcome' →
    outcome'.recordedResult = some result' →
    result = result' ∧ c.payloadHash = c'.payloadHash

section Example

def exampleHost : Host where
  buildFailedDelegationResult message := ⟨.incomplete, "", message⟩
  maskSecrets text := text
  leaseMs := 300000
  maxWaitMs := 3600000

/-- A process crashes inside the execution; another one on its host finds it gone. -/
def crashRun : List Action :=
  [.boot 0 "mac" 41 none, .boot 1 "mac" 42 none, .call 0 0 "h" 0, .look 0 0 true, .reserve 0 1 .none,
    .dispatch 0, .start 0 false, .crash 0, .call 1 1 "h" 5, .look 1 5 false, .reserve 1 6 .none]

end Example

end Kyberion.Delegation.Idempotency
