import Kyberion.Pipeline.Schedule
import Mathlib.Data.Rat.Floor

/-!
Cron expressions and the walk back that finds a missed occurrence. Instants are
milliseconds; a time zone is a fixed offset in minutes.
-/

namespace Kyberion.Pipeline

open Js (isWhiteSpace trim)

/-- What `Number` makes of a text. -/
inductive Number
  | nan | negInfinity | infinity
  | finite (q : ℚ)
  deriving DecidableEq

namespace Number

/-- `value >= start` -/
def reachedBy : Number → ℤ → Bool
  | .finite q, value => q ≤ value
  | .negInfinity, _ => true
  | _, _ => false

/-- `value <= end` -/
def reaches : Number → ℤ → Bool
  | .finite q, value => value ≤ q
  | .infinity, _ => true
  | _, _ => false

/-- `value < limit` -/
def exceeds : Number → ℤ → Bool
  | .finite q, value => value < q
  | .infinity, _ => true
  | _, _ => false

end Number

/-- The reading of number texts, and the rounding of a difference. -/
structure Numbers where
  read : String → Number
  round : ℚ → ℚ

variable (numbers : Numbers)

/-- `x % step === 0` for a finite `step` above 0 -/
def isMultiple (x step : ℚ) : Bool :=
  (x / step).isInt

/-- `(value - start) % step === 0` for a finite `step` above 0 -/
def stepsFrom (start : Number) (value : ℤ) (step : ℚ) : Bool :=
  match start with
  | .finite q => isMultiple (numbers.round (value - q)) step
  | _ => false

/-- `const [start, end] = range.split('-').map(Number)` -/
def rangeBounds (range : List Char) : Number × Number :=
  match range.splitOn '-' with
  | start :: stop :: _ => (numbers.read (String.ofList start), numbers.read (String.ofList stop))
  | _ => (.nan, .nan)

/-- A token `base/step` of a field. -/
def matchCronStep (base stepRaw : List Char) (value : ℤ) : Bool :=
  match numbers.read (String.ofList stepRaw) with
  | .finite step =>
      if step ≤ 0 then false
      else if base = ['*'] then isMultiple value step
      else if base.contains '-' then
        let (start, stop) := rangeBounds numbers base
        start.reachedBy value && stop.reaches value && stepsFrom numbers start value step
      else numbers.read (String.ofList base) = .finite value
  | _ => false

def matchCronField (field : List Char) (value : ℤ) : Bool :=
  if field = ['*'] then true
  else (field.splitOn ',').any fun token =>
    let trimmed := (trim (String.ofList token)).toList
    if trimmed = [] then false
    else if trimmed.contains '/' then
      match trimmed.splitOn '/' with
      | base :: stepRaw :: _ => matchCronStep numbers base stepRaw value
      | _ => false
    else if trimmed.contains '-' then
      let (start, stop) := rangeBounds numbers trimmed
      start.reachedBy value && stop.reaches value
    else numbers.read (String.ofList trimmed) = .finite value

structure ZonedDateParts where
  year : ℤ
  month : ℤ
  day : ℤ
  hour : ℤ
  minute : ℤ
  weekday : ℤ
  deriving DecidableEq

/-- The calendar date of a day, counted from the first of January 1970. The years of the count
begin in March, so that the leap day comes last. -/
def civilFromDays (days : ℤ) : ℤ × ℤ × ℤ :=
  let shifted := days + 719468
  let era := shifted / 146097
  let dayOfEra := shifted % 146097
  let yearOfEra := (dayOfEra - dayOfEra / 1460 + dayOfEra / 36524 - dayOfEra / 146096) / 365
  let dayOfYear := dayOfEra - (365 * yearOfEra + yearOfEra / 4 - yearOfEra / 100)
  let march := (5 * dayOfYear + 2) / 153
  let day := dayOfYear - (153 * march + 2) / 5 + 1
  let month := if march < 10 then march + 3 else march - 9
  let year := yearOfEra + era * 400
  (if month ≤ 2 then year + 1 else year, month, day)

/-- `getZonedDateParts`, in the zone at an offset. -/
def getZonedDateParts (date offset : ℤ) : ZonedDateParts :=
  let localMs := date + offset * 60000
  let days := localMs / 86400000
  let (year, month, day) := civilFromDays days
  { year, month, day
    hour := localMs / 3600000 % 24
    minute := localMs / 60000 % 60
    weekday := (days + 4) % 7 }

/-- The 29th of February 2024 was a Thursday. -/
example : getZonedDateParts 1709251140000 (-60) = ⟨2024, 2, 29, 22, 59, 4⟩ := by decide

/-- `cronExpression.trim().split(/\s+/)` -/
def cronFields (cron : String) : List (List Char) :=
  (cron.toList.splitOnP isWhiteSpace).filter fun field => !field.isEmpty

def matchesCron (cron : String) (date offset : ℤ) : Bool :=
  match cronFields cron with
  | [minute, hour, dayOfMonth, month, dayOfWeek] =>
      let parts := getZonedDateParts date offset
      matchCronField numbers minute parts.minute && matchCronField numbers hour parts.hour &&
        matchCronField numbers dayOfMonth parts.day && matchCronField numbers month parts.month &&
        matchCronField numbers dayOfWeek parts.weekday
  | _ => false

/-- `cursor.setSeconds(0, 0)`, where the host is at an offset. -/
def startOfMinute (date hostOffset : ℤ) : ℤ :=
  (date + hostOffset * 60000) / 60000 * 60000 - hostOffset * 60000

/-- The walk back, minute by minute, from a cursor. -/
def walkBack (due : ℤ → Bool) (floor : ℤ) (maxLookbackMinutes : Number) (step : ℕ)
    (cursor : ℤ) : Bool :=
  if maxLookbackMinutes.exceeds step then
    if cursor ≤ floor then false
    else if due cursor then true
    else walkBack due floor maxLookbackMinutes (step + 1) (cursor - 60000)
  else false
termination_by (cursor - floor).toNat

def hasMissedCronOccurrence (hostOffset : ℤ) (cron : String) (lastRun : Instant) (now : ℤ)
    (timezone : Option ℤ) (maxLookbackMinutes : Number) : Bool :=
  match lastRun with
  | none => false
  | some floor =>
      walkBack (fun date => matchesCron numbers cron date (timezone.getD hostOffset)) floor
        maxLookbackMinutes 0 (startOfMinute now hostOffset)

section Walk

variable {numbers} {due : ℤ → Bool} {floor cursor now m hostOffset : ℤ} {limit : Number} {step : ℕ}

theorem Number.exceeds_of_le {a b : ℤ} (hab : a ≤ b) (h : limit.exceeds b = true) :
    limit.exceeds a = true := by
  cases limit with
  | finite q =>
      have hcast : (a : ℚ) ≤ b := Int.cast_le.mpr hab
      simp only [Number.exceeds, decide_eq_true_eq] at h ⊢
      exact hcast.trans_lt h
  | infinity => rfl
  | nan => cases h
  | negInfinity => cases h

/-- The walk finds the due minutes after the floor, as many back as the limit lets it go. -/
theorem walkBack_iff : walkBack due floor limit step cursor = true ↔
    ∃ k : ℕ, limit.exceeds (step + k : ℕ) = true ∧ floor < cursor - k * 60000 ∧
      due (cursor - k * 60000) = true := by
  fun_induction walkBack due floor limit step cursor with
  | case1 step cursor hlimit hfloor =>
      refine iff_of_false (by decide) ?_
      rintro ⟨k, -, hafter, -⟩
      omega
  | case2 step cursor hlimit hfloor hdue =>
      refine iff_of_true rfl ⟨0, hlimit, ?_, ?_⟩
      · simpa using hfloor
      · simpa using hdue
  | case3 step cursor hlimit hfloor hdue ih =>
      rw [ih]
      have hshift (k : ℕ) : cursor - 60000 - k * 60000 = cursor - (k + 1 : ℕ) * 60000 := by
        push_cast
        ring
      constructor
      · rintro ⟨k, hk, hafter, hfound⟩
        rw [hshift] at hafter hfound
        exact ⟨k + 1, by rwa [← Nat.add_assoc, Nat.add_right_comm], hafter, hfound⟩
      · rintro ⟨_ | k, hk, hafter, hfound⟩
        · exact absurd (by simpa using hfound) hdue
        · refine ⟨k, by rwa [Nat.add_right_comm, Nat.add_assoc], ?_, ?_⟩
          · rwa [hshift]
          · rwa [hshift]
  | case4 step cursor hlimit =>
      refine iff_of_false (by decide) ?_
      rintro ⟨k, hk, -, -⟩
      exact hlimit (Number.exceeds_of_le (by omega) hk)

/-- The host's offset is a whole number of minutes, so it does not move the minute. -/
theorem startOfMinute_eq : startOfMinute now hostOffset = now / 60000 * 60000 := by
  unfold startOfMinute
  omega

end Walk

/-- Whole minutes after the last run and not after now, with fewer whole minutes since than the
look-back allows, at which the expression matches. -/
theorem hasMissed_iff (hostOffset : ℤ) (cron : String) (lastRun : Instant) (now : ℤ)
    (timezone : Option ℤ) (maxLookbackMinutes : Number) :
    hasMissedCronOccurrence numbers hostOffset cron lastRun now timezone maxLookbackMinutes = true ↔
      ∃ m : ℤ, m % 60000 = 0 ∧ (∃ floor, lastRun = some floor ∧ floor < m) ∧ m ≤ now ∧
        maxLookbackMinutes.exceeds ((now - m) / 60000) = true ∧
        matchesCron numbers cron m (timezone.getD hostOffset) = true := by
  cases lastRun with
  | none => simp [hasMissedCronOccurrence]
  | some floor =>
      rw [hasMissedCronOccurrence, walkBack_iff, startOfMinute_eq]
      constructor
      · rintro ⟨k, hk, hafter, hdue⟩
        refine ⟨_, ?_, ⟨floor, rfl, hafter⟩, ?_, ?_, hdue⟩
        · omega
        · omega
        · rw [show (now - (now / 60000 * 60000 - k * 60000)) / 60000 = ((0 + k : ℕ) : ℤ) by omega]
          exact hk
      · rintro ⟨m, hminute, ⟨_, heq, hafter⟩, hnow, hlimit, hdue⟩
        obtain rfl := Option.some.inj heq
        have hback : m = now / 60000 * 60000 - ((now - m) / 60000).toNat * 60000 := by omega
        refine ⟨((now - m) / 60000).toNat, ?_, ?_, ?_⟩
        · rwa [Nat.zero_add, Int.toNat_of_nonneg (by omega)]
        · rwa [← hback]
        · rwa [← hback]

/-- Under a look-back of a whole number of minutes, the time since is less than it. -/
theorem exceeds_minutes {now m : ℤ} {n : ℕ} :
    (Number.finite n).exceeds ((now - m) / 60000) = true ↔ now - m < n * 60000 := by
  have hcast : (((now - m) / 60000 : ℤ) : ℚ) < n ↔ (now - m) / 60000 < (n : ℤ) := by
    exact_mod_cast Iff.rfl
  simp only [Number.exceeds, decide_eq_true_eq, hcast]
  omega

/-- An occurrence was missed exactly when the expression matches some whole minute after the last
run and not after now, with fewer whole minutes since than the look-back. When the look-back is a
whole number of minutes, the time since is less than it. -/
theorem missed_occurrence_iff (hostOffset : ℤ) (cron : String) (lastRun : Instant) (now : ℤ)
    (timezone : Option ℤ) :
    (∀ maxLookbackMinutes : Number,
      hasMissedCronOccurrence numbers hostOffset cron lastRun now timezone maxLookbackMinutes =
        true ↔
      ∃ m : ℤ, m % 60000 = 0 ∧ (∃ floor, lastRun = some floor ∧ floor < m) ∧ m ≤ now ∧
        maxLookbackMinutes.exceeds ((now - m) / 60000) = true ∧
        matchesCron numbers cron m (timezone.getD hostOffset) = true) ∧
    ∀ n : ℕ, hasMissedCronOccurrence numbers hostOffset cron lastRun now timezone (.finite n) =
        true ↔
      ∃ m : ℤ, m % 60000 = 0 ∧ (∃ floor, lastRun = some floor ∧ floor < m) ∧ m ≤ now ∧
        now - m < n * 60000 ∧ matchesCron numbers cron m (timezone.getD hostOffset) = true := by
  refine ⟨fun limit => hasMissed_iff numbers hostOffset cron lastRun now timezone limit,
    fun n => ?_⟩
  rw [hasMissed_iff]
  simp only [exceeds_minutes]

/-- Digits read in base ten, without rounding. -/
def digitNumbers : Numbers where
  read text := .finite (text.toList.foldl (fun n c => 10 * n + (c.toNat - '0'.toNat)) 0 : ℕ)
  round := id

/-- The look-back counts minutes that are looked at: a matching minute as old as a look-back of one
minute is not found, and one older than a look-back of half a minute is. -/
theorem look_back_counts_minutes :
    (¬ ∀ (numbers : Numbers) (hostOffset : ℤ) (cron : String) (lastRun now : ℤ)
        (timezone : Option ℤ) (lookBack : ℚ),
      hasMissedCronOccurrence numbers hostOffset cron (some lastRun) now timezone
        (.finite lookBack) = true ↔
      ∃ m : ℤ, m % 60000 = 0 ∧ lastRun < m ∧ m ≤ now ∧ ((now - m : ℤ) : ℚ) ≤ lookBack * 60000 ∧
        matchesCron numbers cron m (timezone.getD hostOffset) = true) ∧
    ¬ ∀ (numbers : Numbers) (hostOffset : ℤ) (cron : String) (lastRun now : ℤ)
        (timezone : Option ℤ) (lookBack : ℚ),
      hasMissedCronOccurrence numbers hostOffset cron (some lastRun) now timezone
        (.finite lookBack) = true ↔
      ∃ m : ℤ, m % 60000 = 0 ∧ lastRun < m ∧ m ≤ now ∧ ((now - m : ℤ) : ℚ) < lookBack * 60000 ∧
        matchesCron numbers cron m (timezone.getD hostOffset) = true := by
  constructor
  · intro h
    obtain ⟨m, hminute, -, hnow, hlimit, hdue⟩ := (hasMissed_iff digitNumbers 0 "0 * * * *"
      (some (-60000)) 60000 none (.finite (1 : ℕ))).mp ((h digitNumbers 0 "0 * * * *" (-60000)
      60000 none (1 : ℕ)).mpr ⟨0, by decide, by decide, by decide, by norm_num,
        by decide +kernel⟩)
    rw [exceeds_minutes] at hlimit
    obtain rfl : m = 60000 := by omega
    revert hdue
    decide +kernel
  · intro h
    obtain ⟨m, hminute, -, hnow, hlimit, -⟩ := (h digitNumbers 0 "* * * * *" (-60000) 45000 none
      (1 / 2)).mp ((hasMissed_iff digitNumbers 0 "* * * * *" (some (-60000)) 45000 none
      (.finite (1 / 2))).mpr ⟨0, by decide, ⟨-60000, rfl, by decide⟩, by decide,
        by decide +kernel, by decide +kernel⟩)
    have hsince : 45000 - m < 30000 := by
      have hrat : ((45000 - m : ℤ) : ℚ) < (30000 : ℤ) := hlimit.trans_eq (by norm_num)
      exact_mod_cast hrat
    omega

end Kyberion.Pipeline
