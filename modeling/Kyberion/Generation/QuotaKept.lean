import Kyberion.Generation.Quota
import Mathlib.Algebra.BigOperators.Group.List.Basic
import Mathlib.Data.List.Nodup
import Mathlib.Algebra.Order.Group.Unbundled.Basic
import Mathlib.Tactic.Linarith

/-!
The counters cover what is reserved, except for units that were returned to another day than the one
they were reserved on; so a day never holds more than its limit and those units.
-/

namespace Kyberion.Generation

open Mission Transition

section Units

theorem mem_of_lookup {α : Type} {entries : List (String × α)} {key : String} {value : α}
    (h : entries.lookup key = some value) : (key, value) ∈ entries := by
  induction entries with
  | nil => cases h
  | cons entry rest ih =>
      obtain ⟨name, first⟩ := entry
      rw [List.lookup_cons] at h
      split at h
      · rename_i hname
        obtain rfl := Option.some.inj h
        rw [eq_of_beq hname]
        exact List.mem_cons_self
      · exact List.mem_cons_of_mem _ (ih h)

theorem lookup_positive {units : List (String × ℚ)} {action : String} {n : ℚ}
    (h : (positiveUnits units).lookup action = some n) : 0 < n := by
  simpa [positiveUnits] using (List.mem_filter.mp (mem_of_lookup h)).2

theorem readPolicy_lookup {parsed : GenerationQuotaPolicy} {action : String} {n : ℚ}
    (h : (readPolicy parsed).operationUnits.lookup action = some n) : 0 < n := by
  simp only [readPolicy] at h
  split at h
  · exact lookup_positive h
  · have hmem := mem_of_lookup h
    simp only [DEFAULT_GENERATION_QUOTA_POLICY, List.mem_cons, Prod.mk.injEq, List.not_mem_nil,
      or_false] at hmem
    rcases hmem with ⟨-, rfl⟩ | ⟨-, rfl⟩ | ⟨-, rfl⟩ | ⟨-, rfl⟩ <;> norm_num

theorem readOverride_lookup {raw override : GenerationQuotaOverride} {units : List (String × ℚ)}
    {action : String} {n : ℚ} (hread : readOverride raw = some override)
    (hunits : override.operationUnits = some units) (h : units.lookup action = some n) : 0 < n := by
  unfold readOverride at hread
  dsimp only at hread
  split at hread
  · cases hread
  · obtain rfl := Option.some.inj hread
    obtain ⟨hmap, -⟩ := Option.filter_eq_some_iff.mp hunits
    obtain ⟨rawUnits, -, rfl⟩ := Option.map_eq_some_iff.mp hmap
    exact lookup_positive h

/-- Whatever the policy file says, an operation costs something. -/
theorem effective_units_pos (parsed : GenerationQuotaPolicy) (tenant action : String) :
    0 < (effectivePolicy (readPolicy parsed) tenant action).units := by
  simp only [effectivePolicy]
  cases hown : (((readPolicy parsed).tenantOverrides.lookup tenant).bind
      (·.operationUnits)).bind (·.lookup action) with
  | some n =>
      obtain ⟨units, hunits, hlookup⟩ := Option.bind_eq_some_iff.mp hown
      obtain ⟨override, hoverride, hunits⟩ := Option.bind_eq_some_iff.mp hunits
      obtain ⟨entry, -, hentry⟩ := List.mem_filterMap.mp (mem_of_lookup hoverride)
      obtain ⟨read, hread, hpair⟩ := Option.map_eq_some_iff.mp hentry
      obtain rfl := congrArg Prod.snd hpair
      exact readOverride_lookup hread hunits hlookup
  | none =>
      rw [Option.getD_none]
      cases hshared : (readPolicy parsed).operationUnits.lookup action with
      | some n => exact readPolicy_lookup hshared
      | none =>
          rw [Option.getD_none]
          cases hdefault : (readPolicy parsed).operationUnits.lookup "run_workflow" with
          | some n => exact readPolicy_lookup hdefault
          | none => norm_num

end Units

section Live

variable {reservations : List Reservation} {reservation : Reservation} {key : String × String}
variable {id : ℕ}

def Reservation.unitsFor (reservation : Reservation) (key : String × String) : ℚ :=
  if reservation.isFor key then reservation.units else 0

theorem Reservation.unitsFor_nonneg (h : 0 ≤ reservation.units) (key : String × String) :
    0 ≤ reservation.unitsFor key := by
  unfold Reservation.unitsFor
  split
  · exact h
  · exact le_refl 0

theorem liveUnits_cons : liveUnits (reservation :: reservations) key =
    reservation.unitsFor key + liveUnits reservations key := by
  rw [liveUnits, List.filter_cons, Reservation.unitsFor]
  split
  · rw [List.map_cons, List.sum_cons]
    rfl
  · rw [zero_add]
    rfl

theorem filter_run_eq_self (h : ∀ r ∈ reservations, r.run ≠ id) :
    reservations.filter (·.run ≠ id) = reservations :=
  List.filter_eq_self.mpr fun r hr => by simpa using h r hr

/-- The reservation of a run is taken out. -/
theorem liveUnits_filter (hunique : (reservations.map (·.run)).Nodup)
    (hmem : reservation ∈ reservations) :
    liveUnits (reservations.filter (·.run ≠ reservation.run)) key =
      liveUnits reservations key - reservation.unitsFor key := by
  induction reservations with
  | nil => cases hmem
  | cons first rest ih =>
      rw [List.map_cons, List.nodup_cons] at hunique
      rcases List.mem_cons.mp hmem with rfl | hmem
      · rw [List.filter_cons_of_neg (by simp), filter_run_eq_self, liveUnits_cons]
        · ring
        · exact fun r hr heq => hunique.1 (heq ▸ List.mem_map_of_mem hr)
      · have hne : first.run ≠ reservation.run := fun heq =>
          hunique.1 (heq ▸ List.mem_map_of_mem hmem)
        rw [List.filter_cons_of_pos (by simpa using hne), liveUnits_cons, liveUnits_cons,
          ih hunique.2 hmem]
        ring

end Live

section Counter

variable {file : CounterFile} {input : QuotaInput} {usage : ℚ} {tenant date : String}

theorem readUsage_nonneg (h : readUsage file tenant date = (usage, false)) : 0 ≤ usage := by
  cases file with
  | absent =>
      obtain rfl := congrArg Prod.fst h
      exact le_refl _
  | unreadable => cases congrArg Prod.snd h
  | stored tenantSlug day units =>
      simp only [readUsage] at h
      split at h
      · cases congrArg Prod.snd h
      · split at h
        · rename_i hunits
          obtain rfl := congrArg Prod.fst h
          exact hunits.elim (fun hzero => le_of_eq hzero.symm) le_of_lt
        · cases congrArg Prod.snd h

theorem readUsage_stored (h : 0 ≤ usage) :
    readUsage (.stored tenant date usage) tenant date = (usage, false) := by
  have hcases : usage = 0 ∨ 0 < usage := by
    rcases lt_or_eq_of_le h with hlt | heq
    · exact .inr hlt
    · exact .inl heq.symm
  simp [readUsage, hcases]

/-- A reservation that is granted: the counter was valid, and the new sum is within the limit. -/
theorem reserve_allowed (h : (input.reserve file).1.allowed = true) :
    ∃ used, readUsage file input.tenant input.date = (used, false) ∧
      used + input.units ≤ input.limit ∧
      (input.reserve file).2 = .stored input.tenant input.date (used + input.units) := by
  have hallowed := h
  simp only [QuotaInput.reserve, QuotaInput.decision, Bool.and_eq_true, Bool.not_eq_true',
    decide_eq_true_eq] at h
  refine ⟨(readUsage file input.tenant input.date).1, Prod.ext rfl h.1, h.2, ?_⟩
  exact if_pos hallowed

theorem reserve_refused (h : (input.reserve file).1.allowed = false) :
    (input.reserve file).2 = file :=
  if_neg (Bool.eq_false_iff.mp h)

/-- A counter that can be read after units are given back could be read before. -/
theorem readUsage_release
    (h : readUsage (input.release file).2 input.tenant input.date = (usage, false)) :
    ∃ used, readUsage file input.tenant input.date = (used, false) ∧
      usage = max 0 (used - input.units) := by
  cases hinvalid : (readUsage file input.tenant input.date).2 with
  | true =>
      simp only [QuotaInput.release, hinvalid, if_true] at h
      rw [h] at hinvalid
      cases hinvalid
  | false =>
      simp only [QuotaInput.release, hinvalid, Bool.false_eq_true, if_false] at h
      rw [readUsage_stored (le_max_left _ _)] at h
      exact ⟨_, Prod.ext rfl hinvalid, (congrArg Prod.fst h).symm⟩

/-- The tenant that a run is charged to. -/
def chargedTenant (scope : EventScopeInput) : Option String :=
  (normalizeEventScope scope).toOption.bind (·.tenantSlug)

/-- A decision rests on the units that are asked for, or else on those of the policy. -/
theorem quotaInput_some {scope : EventScopeInput} {action : String}
    {options : GenerationQuotaOptions}
    (h : quotaInput scope action options = .ok (some input)) :
    chargedTenant scope = some input.tenant ∧ input.date = options.date ∧
      input.units = (options.reservationUnits.filter (0 < ·)).getD
        (effectivePolicy options.policy input.tenant action).units := by
  unfold quotaInput at h
  cases hscope : normalizeEventScope scope with
  | error e =>
      rw [hscope] at h
      cases h
  | ok normalized =>
      rw [hscope] at h
      obtain ⟨tenant, htenant, rfl⟩ := Option.map_eq_some_iff.mp (Except.ok.inj h)
      refine ⟨?_, rfl, rfl⟩
      rw [chargedTenant, hscope]
      exact htenant

end Counter

section Run

variable {w t : World} {id : ℕ} {run : GenerationRun} {phase : Phase} {input : QuotaInput}

/-- The units that a run has reserved, and could still give back or has used. -/
def Phase.holds : Phase → Option ℚ
  | .submitting units true => some units
  | .returning units _ => some units
  | .submitted units true => some units
  | _ => none

/-- A run of this scope has reserved the units. -/
def Holds (w : World) (id : ℕ) (scope : EventScopeInput) (units : ℚ) : Prop :=
  0 < units ∧
    ∃ r ∈ w.reservations, r.run = id ∧ r.units = units ∧ chargedTenant scope = some r.tenant

structure QuotaInv (w : World) : Prop where
  counted : ∀ key usage, readUsage (w.counters key) key.1 key.2 = (usage, false) →
    liveUnits w.reservations key ≤ usage + w.misdirected key
  unique : (w.reservations.map (·.run)).Nodup
  begun : ∀ r ∈ w.reservations, ∃ run, w.runs r.run = some run ∧ run.phase ≠ .claimed
  held : ∀ id run units, w.runs id = some run → run.phase.holds = some units →
    Holds w id run.scope units
  granted : ∀ g ∈ w.grants, g.live ≤ g.limit + g.misdirected
  grows : ∀ g ∈ w.grants, g.misdirected ≤ w.misdirected (g.tenant, g.date)

namespace QuotaInv

theorem initial : QuotaInv {} where
  counted key usage h := by
    obtain rfl := congrArg Prod.fst h
    exact le_of_eq (zero_add 0).symm
  unique := List.nodup_nil
  begun _ h := by cases h
  held _ _ _ h := by cases h
  granted _ h := by cases h
  grows _ h := by cases h

theorem runs_goTo_cases {id' : ℕ} {run' : GenerationRun}
    (h : (w.goTo id run phase).runs id' = some run') :
    id' = id ∧ run' = { run with phase } ∨ id' ≠ id ∧ w.runs id' = some run' := by
  simp only [World.goTo, Function.update_apply] at h
  split at h
  · rename_i heq
    exact .inl ⟨heq, (Option.some.inj h).symm⟩
  · rename_i hne
    exact .inr ⟨hne, h⟩

theorem goTo (h : QuotaInv w) (hbegun : phase ≠ .claimed)
    (hheld : ∀ units, phase.holds = some units → Holds w id run.scope units) :
    QuotaInv (w.goTo id run phase) where
  counted := h.counted
  unique := h.unique
  begun r hr := by
    by_cases hid : r.run = id
    · exact ⟨{ run with phase }, by simp [World.goTo, hid], hbegun⟩
    · obtain ⟨found, hfound, hphase⟩ := h.begun r hr
      exact ⟨found, by simpa [World.goTo, hid] using hfound, hphase⟩
  held id' run' units hrun hholds := by
    rcases runs_goTo_cases hrun with ⟨rfl, rfl⟩ | ⟨-, hrun⟩
    · exact hheld units hholds
    · exact h.held id' run' units hrun hholds
  granted := h.granted
  grows := h.grows

/-- A write that leaves at least as much as is reserved for its own key, and moves nothing else. -/
theorem counted_write {key : String × String} {file : CounterFile} {reservations : List Reservation}
    {misdirected : String × String → ℚ}
    (hsame : ∀ usage, readUsage file key.1 key.2 = (usage, false) →
      liveUnits reservations key ≤ usage + misdirected key)
    (hother : ∀ key', key' ≠ key → ∀ usage,
      readUsage (w.counters key') key'.1 key'.2 = (usage, false) →
        liveUnits reservations key' ≤ usage + misdirected key')
    (key' : String × String) (usage : ℚ)
    (husage : readUsage ((w.write key file).counters key') key'.1 key'.2 = (usage, false)) :
    liveUnits reservations key' ≤ usage + misdirected key' := by
  by_cases hkey : key' = key
  · subst hkey
    simp only [World.write, Function.update_self] at husage
    exact hsame usage husage
  · simp only [World.write, Function.update_of_ne hkey] at husage
    exact hother key' hkey usage husage

theorem damage (h : QuotaInv w) (key : String × String) :
    QuotaInv (w.write key .unreadable) where
  counted := counted_write (fun usage husage => by cases congrArg Prod.snd husage)
    fun key' _ usage husage => h.counted key' usage husage
  unique := h.unique
  begun := h.begun
  held := h.held
  granted := h.granted
  grows := h.grows

theorem claim (h : QuotaInv w) (hnew : w.runs id = none) (scope : EventScopeInput)
    (action : String) :
    QuotaInv { w with runs := Function.update w.runs id (some ⟨scope, action, .claimed⟩) } where
  counted := h.counted
  unique := h.unique
  begun r hr := by
    obtain ⟨found, hfound, hphase⟩ := h.begun r hr
    have hid : r.run ≠ id := by
      rintro rfl
      rw [hnew] at hfound
      cases hfound
    exact ⟨found, by simpa only [Function.update_of_ne hid] using hfound, hphase⟩
  held id' run' units hrun hholds := by
    by_cases hid : id' = id
    · subst hid
      simp only [Function.update_self] at hrun
      obtain rfl := Option.some.inj hrun
      cases hholds
    · simp only [Function.update_of_ne hid] at hrun
      exact h.held id' run' units hrun hholds
  granted := h.granted
  grows := h.grows

/-- A claimed run has reserved nothing yet. -/
theorem fresh (h : QuotaInv w) (hrun : w.runs id = some run) (hphase : run.phase = .claimed) :
    ∀ r ∈ w.reservations, r.run ≠ id := by
  rintro r hr rfl
  obtain ⟨found, hfound, hbegun⟩ := h.begun r hr
  rw [hrun] at hfound
  obtain rfl := Option.some.inj hfound
  exact hbegun hphase

/-- A reservation is granted to a claimed run. -/
theorem grant {used : ℚ} (h : QuotaInv w) (hrun : w.runs id = some run)
    (hphase : run.phase = .claimed) (htenant : chargedTenant run.scope = some input.tenant)
    (hpos : 0 < input.units)
    (hread : readUsage (w.counters (input.tenant, input.date)) input.tenant input.date =
      (used, false))
    (hlimit : used + input.units ≤ input.limit) :
    QuotaInv (((w.write (input.tenant, input.date)
      (.stored input.tenant input.date (used + input.units))).reserved id input).goTo id run
        (.submitting input.units true)) := by
  have hlive : liveUnits (⟨id, input.tenant, input.date, input.units⟩ :: w.reservations)
      (input.tenant, input.date) ≤
        used + input.units + w.misdirected (input.tenant, input.date) := by
    have hcounted := h.counted (input.tenant, input.date) used hread
    rw [liveUnits_cons, Reservation.unitsFor, if_pos (by simp [Reservation.isFor])]
    linarith
  exact {
    counted := counted_write
      (fun usage husage => by
        rw [readUsage_stored (by linarith [readUsage_nonneg hread])] at husage
        obtain rfl := congrArg Prod.fst husage
        exact hlive)
      fun key' hkey usage husage => by
        have hfor : (⟨id, input.tenant, input.date, input.units⟩ : Reservation).isFor key' =
            false := by
          rw [Bool.eq_false_iff]
          intro hfor
          simp only [Reservation.isFor, Bool.and_eq_true, decide_eq_true_eq] at hfor
          exact hkey (Prod.ext hfor.1.symm hfor.2.symm)
        change liveUnits (_ :: w.reservations) key' ≤ _
        rw [liveUnits_cons, Reservation.unitsFor, hfor, if_neg (by decide), zero_add]
        exact h.counted key' usage husage
    unique := List.nodup_cons.mpr
      ⟨fun hmem => by
        obtain ⟨r, hr, heq⟩ := List.mem_map.mp hmem
        exact h.fresh hrun hphase r hr heq, h.unique⟩
    begun := fun r hr => by
      rcases List.mem_cons.mp hr with rfl | hr
      · exact ⟨_, Function.update_self id _ _, by rintro ⟨⟩⟩
      · obtain ⟨found, hfound, hbegun⟩ := h.begun r hr
        refine ⟨found, ?_, hbegun⟩
        exact (Function.update_of_ne (h.fresh hrun hphase r hr) _ _).trans hfound
    held := fun id' run' units hrun' hholds => by
      rcases runs_goTo_cases hrun' with ⟨rfl, rfl⟩ | ⟨-, hold⟩
      · obtain rfl := Option.some.inj hholds
        exact ⟨hpos, _, List.mem_cons_self, rfl, rfl, htenant⟩
      · obtain ⟨hunits, r, hr, hsame⟩ := h.held id' run' units hold hholds
        exact ⟨hunits, r, List.mem_cons_of_mem _ hr, hsame⟩
    granted := fun g hg => by
      rcases List.mem_append.mp hg with hg | hg
      · exact h.granted g hg
      · obtain rfl := List.mem_singleton.mp hg
        exact le_trans hlive (add_le_add_left hlimit _)
    grows := fun g hg => by
      rcases List.mem_append.mp hg with hg | hg
      · exact h.grows g hg
      · obtain rfl := List.mem_singleton.mp hg
        exact le_refl _ }

theorem reserve (h : QuotaInv w) (hrun : w.runs id = some run) (hphase : run.phase = .claimed)
    (parsed : GenerationQuotaPolicy) (date : String) :
    QuotaInv (w.reserve id run { policy := readPolicy parsed, date }) := by
  unfold World.reserve
  split
  · exact h.goTo (by rintro ⟨⟩) fun _ hholds => by cases hholds
  · exact h.goTo (by rintro ⟨⟩) fun _ hholds => by cases hholds
  · rename_i input hinput
    obtain ⟨htenant, -, hunits⟩ := quotaInput_some hinput
    have hpos : 0 < input.units := by
      rw [hunits]
      exact effective_units_pos parsed input.tenant run.action
    dsimp only
    split
    · rename_i hallowed
      obtain ⟨used, hread, hlimit, hfile⟩ := reserve_allowed hallowed
      rw [hfile]
      exact h.grant hrun hphase htenant hpos hread hlimit
    · rename_i hrefused
      rw [reserve_refused (Bool.eq_false_iff.mpr hrefused), World.write, Function.update_eq_self]
      exact h.goTo (by rintro ⟨⟩) fun _ hholds => by cases hholds

/-- Whether units are returned to the day they were reserved on is seen at their reservation. -/
theorem returned_misdirected {r : Reservation} (hr : r ∈ w.reservations)
    (hunique : (w.reservations.map (·.run)).Nodup) :
    (w.returned r.run input).misdirected =
      if r.isFor (input.tenant, input.date) then w.misdirected
      else Function.update w.misdirected (input.tenant, input.date)
        (w.misdirected (input.tenant, input.date) + input.units) := by
  have hany : (w.reservations.any fun other => other.run = r.run &&
      other.isFor (input.tenant, input.date)) = r.isFor (input.tenant, input.date) := by
    rw [Bool.eq_iff_iff, List.any_eq_true]
    constructor
    · rintro ⟨other, hother, hfor⟩
      rw [Bool.and_eq_true, decide_eq_true_eq] at hfor
      obtain rfl := List.inj_on_of_nodup_map hunique hother hr hfor.1
      exact hfor.2
    · exact fun hfor => ⟨r, hr, by simpa using hfor⟩
  simp only [World.returned, hany]

/-- The units of a run are given back, to the counter of the day. -/
theorem give (h : QuotaInv w) (hheld : Holds w id run.scope input.units) :
    QuotaInv (((w.write (input.tenant, input.date)
      (input.release (w.counters (input.tenant, input.date))).2).returned id input).goTo id run
        .failed) := by
  obtain ⟨hpos, r, hr, rfl, hunits, -⟩ := hheld
  have hlive : ∀ key, liveUnits (w.reservations.filter (·.run ≠ r.run)) key =
      liveUnits w.reservations key - r.unitsFor key := fun key => liveUnits_filter h.unique hr
  have hdrops : ∀ key, liveUnits (w.reservations.filter (·.run ≠ r.run)) key ≤
      liveUnits w.reservations key := fun key => by
    have := hlive key
    have := r.unitsFor_nonneg (le_of_lt (hunits ▸ hpos)) key
    linarith
  have hgone : ∀ r' ∈ w.reservations.filter (·.run ≠ r.run),
      r' ∈ w.reservations ∧ r'.run ≠ r.run := fun r' hr' => by
    simpa using List.mem_filter.mp hr'
  exact {
    counted := by
      refine counted_write (fun usage husage => ?_) fun key' hkey usage husage => ?_
      · obtain ⟨used, hread, rfl⟩ := readUsage_release husage
        have hcounted := h.counted (input.tenant, input.date) used hread
        have hdrop := hlive (input.tenant, input.date)
        have hmax := le_max_right 0 (used - input.units)
        change liveUnits (w.reservations.filter _) _ ≤ _ + (w.returned r.run input).misdirected _
        rw [returned_misdirected hr h.unique]
        by_cases hfor : r.isFor (input.tenant, input.date) = true
        · rw [Reservation.unitsFor, if_pos hfor, hunits] at hdrop
          rw [if_pos hfor]
          linarith
        · rw [Reservation.unitsFor, if_neg hfor] at hdrop
          rw [if_neg hfor, Function.update_self]
          linarith
      · have hcounted := h.counted key' usage husage
        have hdrop := hdrops key'
        change liveUnits (w.reservations.filter _) _ ≤ _ + (w.returned r.run input).misdirected _
        rw [returned_misdirected hr h.unique]
        split
        · linarith
        · rw [Function.update_of_ne hkey]
          linarith
    unique := List.Nodup.sublist (List.filter_sublist.map _) h.unique
    begun := fun r' hr' => by
      obtain ⟨found, hfound, hbegun⟩ := h.begun r' (hgone r' hr').1
      exact ⟨found, (Function.update_of_ne (hgone r' hr').2 _ _).trans hfound, hbegun⟩
    held := fun id' run' units hrun' hholds => by
      rcases runs_goTo_cases hrun' with ⟨rfl, rfl⟩ | ⟨hne, hold⟩
      · cases hholds
      · obtain ⟨hunits', r', hr', rfl, hsame⟩ := h.held id' run' units hold hholds
        exact ⟨hunits', r', List.mem_filter.mpr ⟨hr', by simpa using hne⟩, rfl, hsame⟩
    granted := h.granted
    grows := fun g hg => by
      change _ ≤ (w.returned r.run input).misdirected _
      rw [returned_misdirected hr h.unique]
      split
      · exact h.grows g hg
      · refine le_trans (h.grows g hg) ?_
        rw [Function.update_apply]
        split
        · rename_i hkey
          rw [hkey]
          linarith
        · exact le_refl _ }

theorem giveBack {units : ℚ} (h : QuotaInv w) (hrun : w.runs id = some run)
    (hholds : run.phase.holds = some units) (parsed : GenerationQuotaPolicy) (date : String) :
    QuotaInv ((w.giveBack id run ⟨readPolicy parsed, date, some units⟩).goTo id run .failed) := by
  have hheld := h.held id run units hrun hholds
  unfold World.giveBack
  split
  · rename_i input hinput
    have hunits : input.units = units := by
      rw [(quotaInput_some hinput).2.2, Option.filter_some_pos (by simpa using hheld.1)]
      rfl
    exact h.give (hunits ▸ hheld)
  · exact h.goTo (by rintro ⟨⟩) fun _ hnone => by cases hnone

theorem runStep {a : Action} (h : QuotaInv w) (hrun : w.runs id = some run)
    (ht : Generation.runStep w id run run.phase a = some t) : QuotaInv t := by
  have ends : ∀ phase : Phase, phase ≠ .claimed → phase.holds = none →
      QuotaInv (w.goTo id run phase) := fun phase hbegun hnone =>
    h.goTo hbegun fun units hunits => by rw [hnone] at hunits; cases hunits
  have goes : ∀ phase : Phase, phase ≠ .claimed → phase.holds = run.phase.holds →
      QuotaInv (w.goTo id run phase) := fun phase hbegun hsame =>
    h.goTo hbegun fun units hunits => h.held id run units hrun (hsame ▸ hunits)
  cases hphase : run.phase with
  | claimed =>
      rw [hphase] at ht
      cases a with
      | reserve _ parsed date =>
          obtain rfl := Option.some.inj ht
          exact h.reserve hrun hphase parsed date
      | crash _ =>
          obtain rfl := Option.some.inj ht
          exact ends .crashed (by rintro ⟨⟩) rfl
      | _ => cases ht
  | submitting units charged =>
      rw [hphase] at ht
      rw [hphase] at goes
      cases a with
      | submit _ submission =>
          cases submission with
          | job =>
              obtain rfl := Option.some.inj ht
              exact goes (.submitted units charged) (by rintro ⟨⟩) (by cases charged <;> rfl)
          | noJob =>
              obtain rfl := Option.some.inj ht
              cases charged with
              | false => exact ends .failed (by rintro ⟨⟩) rfl
              | true => exact goes (.returning units false) (by rintro ⟨⟩) rfl
          | threw =>
              obtain rfl := Option.some.inj ht
              cases charged with
              | false => exact ends .failed (by rintro ⟨⟩) rfl
              | true => exact goes (.returning units true) (by rintro ⟨⟩) rfl
      | crash _ =>
          obtain rfl := Option.some.inj ht
          exact ends .crashed (by rintro ⟨⟩) rfl
      | _ => cases ht
  | returning units again =>
      rw [hphase] at ht
      rw [hphase] at goes
      cases a with
      | giveBack _ parsed date throws =>
          cases throws with
          | true =>
              obtain rfl := Option.some.inj ht
              cases again with
              | true => exact ends .failed (by rintro ⟨⟩) rfl
              | false => exact goes (.returning units true) (by rintro ⟨⟩) rfl
          | false =>
              obtain rfl := Option.some.inj ht
              exact h.giveBack hrun (by rw [hphase]; rfl) parsed date
      | crash _ =>
          obtain rfl := Option.some.inj ht
          exact ends .crashed (by rintro ⟨⟩) rfl
      | _ => cases ht
  | _ =>
      rw [hphase] at ht
      cases a <;> cases ht

theorem step {a : Action} (h : QuotaInv w) (ht : quota.step w a = some t) : QuotaInv t := by
  have subjectStep : (a.subject.bind fun id => (w.runs id).bind fun run =>
      Generation.runStep w id run run.phase a) = some t → QuotaInv t := fun ht => by
    obtain ⟨id, -, ht⟩ := Option.bind_eq_some_iff.mp ht
    obtain ⟨run, hrun, ht⟩ := Option.bind_eq_some_iff.mp ht
    exact h.runStep hrun ht
  cases a with
  | claim id scope action =>
      obtain ⟨hnew, ht⟩ := Option.ite_none_right_eq_some.mp ht
      obtain rfl := Option.some.inj ht
      exact h.claim hnew scope action
  | damage tenant date =>
      obtain rfl := Option.some.inj ht
      exact h.damage (tenant, date)
  | _ => exact subjectStep ht

theorem of_reach {ok : World → Action → Prop} (h : quota.Reach ok w) : QuotaInv w :=
  h.invariant (fun _ hinit => hinit ▸ initial) fun _ _ _ hinv _ ht => hinv.step ht

end QuotaInv

/-- Units are returned to the day on which they were reserved. -/
def sameDay (w : World) : Action → Bool
  | .giveBack id _ date _ => w.reservations.all fun r => r.run ≠ id || r.date = date
  | _ => true

theorem reserve_misdirected {options : GenerationQuotaOptions} :
    (w.reserve id run options).misdirected = w.misdirected := by
  unfold World.reserve
  split
  · rfl
  · rfl
  · dsimp only
    split <;> rfl

theorem giveBack_misdirected {units : ℚ} (h : QuotaInv w) (hheld : Holds w id run.scope units)
    {parsed : GenerationQuotaPolicy} {date : String}
    (hday : ∀ r ∈ w.reservations, r.run = id → r.date = date) :
    (w.giveBack id run ⟨readPolicy parsed, date, some units⟩).misdirected = w.misdirected := by
  obtain ⟨-, r, hr, rfl, -, htenant⟩ := hheld
  unfold World.giveBack
  split
  · rename_i input hinput
    obtain ⟨hinputTenant, hdate, -⟩ := quotaInput_some hinput
    have hfor : r.isFor (input.tenant, input.date) = true := by
      rw [htenant] at hinputTenant
      simp [Reservation.isFor, Option.some.inj hinputTenant, hdate, hday r hr rfl]
    exact (QuotaInv.returned_misdirected hr h.unique).trans (if_pos hfor)
  · rfl

theorem runStep_misdirected {a : Action} (h : QuotaInv w) (hrun : w.runs id = some run)
    (hday : sameDay w a = true) (hsubject : a.subject = some id)
    (ht : runStep w id run run.phase a = some t) : t.misdirected = w.misdirected := by
  cases hphase : run.phase with
  | claimed =>
      rw [hphase] at ht
      cases a with
      | reserve _ parsed date =>
          obtain rfl := Option.some.inj ht
          exact reserve_misdirected
      | _ => cases ht <;> rfl
  | submitting units charged =>
      rw [hphase] at ht
      cases a with
      | submit _ submission => cases submission <;> cases ht <;> rfl
      | _ => cases ht <;> rfl
  | returning units again =>
      rw [hphase] at ht
      cases a with
      | giveBack _ parsed date throws =>
          obtain rfl := Option.some.inj hsubject
          cases throws with
          | true =>
              obtain rfl := Option.some.inj ht
              rfl
          | false =>
              obtain rfl := Option.some.inj ht
              refine giveBack_misdirected h (h.held _ run units hrun (by rw [hphase]; rfl)) ?_
              intro r hr hid
              simpa [hid] using List.all_eq_true.mp hday r hr
      | _ => cases ht <;> rfl
  | _ =>
      rw [hphase] at ht
      cases a <;> cases ht

theorem step_misdirected {a : Action} (h : QuotaInv w) (hday : sameDay w a = true)
    (ht : quota.step w a = some t) : t.misdirected = w.misdirected := by
  have subjectStep : (a.subject.bind fun id => (w.runs id).bind fun run =>
      runStep w id run run.phase a) = some t → t.misdirected = w.misdirected := fun ht => by
    obtain ⟨id, hsubject, ht⟩ := Option.bind_eq_some_iff.mp ht
    obtain ⟨run, hrun, ht⟩ := Option.bind_eq_some_iff.mp ht
    exact runStep_misdirected h hrun hday hsubject ht
  cases a with
  | claim id scope action =>
      obtain ⟨-, ht⟩ := Option.ite_none_right_eq_some.mp ht
      obtain rfl := Option.some.inj ht
      rfl
  | damage tenant date =>
      obtain rfl := Option.some.inj ht
      rfl
  | _ => exact subjectStep ht

theorem misdirected_zero (h : quota.Reach (fun w a => sameDay w a) w) : w.misdirected = fun _ => 0 := by
  induction h with
  | start hinit =>
      obtain rfl := hinit
      rfl
  | next hr hday ht ih => exact (step_misdirected (.of_reach hr) hday ht).trans ih

section Stays

theorem reserve_runs {options : GenerationQuotaOptions} :
    ∃ phase, (w.reserve id run options).runs =
      Function.update w.runs id (some { run with phase }) := by
  unfold World.reserve
  split
  · exact ⟨.failed, rfl⟩
  · exact ⟨.submitting 0 false, rfl⟩
  · rename_i input _
    dsimp only
    split
    · exact ⟨.submitting input.units true, rfl⟩
    · exact ⟨.blocked, rfl⟩

theorem giveBack_runs {options : GenerationQuotaOptions} :
    (w.giveBack id run options).runs = w.runs := by
  unfold World.giveBack
  split <;> rfl

/-- A step of a run moves that run only. -/
theorem runStep_runs {a : Action} (ht : runStep w id run phase a = some t) :
    ∃ phase', t.runs = Function.update w.runs id (some { run with phase := phase' }) := by
  unfold runStep at ht
  split at ht
  · obtain rfl := Option.some.inj ht
    exact reserve_runs
  · obtain rfl := Option.some.inj ht
    exact ⟨_, rfl⟩
  · obtain rfl := Option.some.inj ht
    exact ⟨_, rfl⟩
  · obtain rfl := Option.some.inj ht
    exact ⟨_, rfl⟩
  · split at ht
    · obtain rfl := Option.some.inj ht
      exact ⟨_, rfl⟩
    · obtain rfl := Option.some.inj ht
      exact ⟨.failed, congrArg (Function.update · id _) giveBack_runs⟩
  all_goals cases ht
  exact ⟨.crashed, rfl⟩

theorem submitted_stays {a : Action} {units : ℚ} {charged : Bool} (hrun : w.runs id = some run)
    (hphase : run.phase = .submitted units charged) (ht : quota.step w a = some t) :
    t.runs id = some run := by
  have subjectStep : (a.subject.bind fun id => (w.runs id).bind fun run =>
      runStep w id run run.phase a) = some t → t.runs id = some run := fun ht => by
    obtain ⟨id', -, ht⟩ := Option.bind_eq_some_iff.mp ht
    obtain ⟨run', hrun', ht⟩ := Option.bind_eq_some_iff.mp ht
    obtain ⟨phase', hruns⟩ := runStep_runs ht
    rw [hruns]
    by_cases hid : id = id'
    · subst hid
      rw [hrun] at hrun'
      obtain rfl := Option.some.inj hrun'
      rw [hphase] at ht
      cases a <;> cases ht
    · rw [Function.update_of_ne hid]
      exact hrun
  cases a with
  | claim id' scope action =>
      obtain ⟨hnew, ht⟩ := Option.ite_none_right_eq_some.mp ht
      obtain rfl := Option.some.inj ht
      have hid : id ≠ id' := by
        rintro rfl
        rw [hrun] at hnew
        cases hnew
      exact (Function.update_of_ne hid _ _).trans hrun
  | damage tenant date =>
      obtain rfl := Option.some.inj ht
      exact hrun
  | _ => exact subjectStep ht

end Stays

/-- What the counters and the limits are good for. -/
structure QuotaKept (w : World) : Prop where
  /-- What a readable counter says covers what is reserved, but for the misdirected units. -/
  counted : ∀ key usage, readUsage (w.counters key) key.1 key.2 = (usage, false) →
    liveUnits w.reservations key ≤ usage + w.misdirected key
  /-- At every grant, what is then reserved for the day is within the limit and these units. -/
  granted : ∀ g ∈ w.grants, g.live ≤ g.limit + g.misdirected
  /-- The units of a run that has a job stay reserved. -/
  submitted : ∀ id run units, w.runs id = some run → run.phase = .submitted units true →
    Holds w id run.scope units ∧
      ∀ a t, quota.step w a = some t → t.runs id = some run ∧ Holds t id run.scope units

namespace QuotaInv

theorem kept (h : QuotaInv w) : QuotaKept w where
  counted := h.counted
  granted := h.granted
  submitted id run units hrun hphase := by
    have hholds : run.phase.holds = some units := by
      rw [hphase]
      rfl
    refine ⟨h.held id run units hrun hholds, fun a t ht => ?_⟩
    have hstays := submitted_stays hrun hphase ht
    exact ⟨hstays, (h.step ht).held id run units hstays hholds⟩

end QuotaInv

end Run

section Midnight

def tenantScope : EventScopeInput where
  scopeKind := some .tenant
  tenantSlug := some "acme"

/-- A day has room for two runs. -/
def tenUnits : GenerationQuotaPolicy where
  maxUnitsPerDay := 10
  warnRatio := 4 / 5
  operationUnits := [("run_workflow", 5)]

/-- A run of the first day and one of the second, and then the first run comes to nothing. -/
def overMidnight (returnDay : String) : List Action :=
  [.claim 0 tenantScope "run_workflow", .reserve 0 tenUnits "day 1",
    .claim 1 tenantScope "run_workflow", .reserve 1 tenUnits "day 2", .submit 1 .job,
    .submit 0 .noJob, .giveBack 0 tenUnits returnDay false]

/-- Two more runs of the second day. -/
def twoMore : List Action :=
  [.claim 2 tenantScope "run_workflow", .reserve 2 tenUnits "day 2",
    .claim 3 tenantScope "run_workflow", .reserve 3 tenUnits "day 2"]

end Midnight

end Kyberion.Generation
