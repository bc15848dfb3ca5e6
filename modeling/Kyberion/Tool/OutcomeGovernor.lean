import Mathlib.Data.List.DropRight
import Mathlib.Data.Rat.Floor

/-!
The governor of tool outcomes. It keeps the hashes of the last calls and of their results, and asks
for a stop when the same cycle of calls has come round often enough without progress.
-/

namespace Kyberion.Tool

/-- A bound that is absent, or no finite number, is `none`. -/
structure ToolCallRepeatGovernorConfig where
  cycleMaxPeriod : Option ℚ := none
  cycleWarnAfter : Option ℚ := none
  cycleStopAfter : Option ℚ := none

structure OutcomeEntry where
  signature : String
  resultHash : String
  repeatable : Bool
  deriving DecidableEq

structure ToolCallOutcomeState where
  /-- The oldest entry comes first. -/
  history : List OutcomeEntry

structure ToolCallOutcomeDecision where
  state : ToolCallOutcomeState
  madeProgress : Bool
  shouldForceStop : Bool
  period : Option ℕ := none
  cycles : Option ℕ := none
  reminder : Option String := none

/-- A completed call; `call` is the text of `buildToolCallSignature`. -/
structure ToolObservation where
  call : String
  resultText : String
  repeatable : Bool := false
  progress : Bool := false
  deriving DecidableEq

def createToolCallOutcomeState : ToolCallOutcomeState where
  history := []

section Bounds

def bounded (value : Option ℚ) (fallback max : ℕ) : ℕ :=
  match value with
  | some v => if 2 ≤ v then min max ⌊v⌋₊ else fallback
  | none => fallback

variable (config : ToolCallRepeatGovernorConfig)

def maxPeriod : ℕ :=
  bounded config.cycleMaxPeriod 4 16

def warnAfter : ℕ :=
  bounded config.cycleWarnAfter 3 16

def stopAfter : ℕ :=
  max (warnAfter config) (bounded config.cycleStopAfter 5 32)

theorem two_le_bounded {value : Option ℚ} {fallback max : ℕ} (hfallback : 2 ≤ fallback)
    (hmax : 2 ≤ max) : 2 ≤ bounded value fallback max := by
  unfold bounded
  split
  · rename_i v
    split
    · rename_i hv
      exact le_min hmax (Nat.le_floor (by exact_mod_cast hv))
    · exact hfallback
  · exact hfallback

theorem two_le_warnAfter : 2 ≤ warnAfter config :=
  two_le_bounded (by omega) (by omega)

theorem warnAfter_le_stopAfter : warnAfter config ≤ stopAfter config :=
  Nat.le_max_left _ _

end Bounds

section Cycles

def sameOutcome (left right : OutcomeEntry) : Bool :=
  left.signature = right.signature && left.resultHash = right.resultHash

/-- Every entry is like the first one. -/
def constantTail (tail : List OutcomeEntry) : Bool :=
  tail.all fun entry => tail.head?.any (sameOutcome entry)

/-- The block that ends `cycles` periods before the end is like the last one. -/
def repeatsAt (history : List OutcomeEntry) (period cycles : ℕ) : Bool :=
  let start := history.length - period * (cycles + 1)
  (List.range period).all fun index =>
    match history[start + index]?, history[history.length - period + index]? with
    | some left, some right => sameOutcome left right
    | _, _ => false

/-- The loop that counts the cycles; `rounds` bounds it. -/
def countCycles (history : List OutcomeEntry) (period : ℕ) : ℕ → ℕ → ℕ
  | 0, cycles => cycles
  | rounds + 1, cycles =>
      if period * (cycles + 1) ≤ history.length ∧ repeatsAt history period cycles then
        countCycles history period rounds (cycles + 1)
      else cycles

def cyclesOf (history : List OutcomeEntry) (period : ℕ) : ℕ :=
  countCycles history period history.length 1

/-- The tail of the period is whole and not constant, it has come round `warnAfter` times, and it
is not all declared repeatable. -/
def passesWarning (history : List OutcomeEntry) (warnAfter period : ℕ) : Bool :=
  let tail := history.rtake period
  period ≤ tail.length && !constantTail tail && warnAfter ≤ cyclesOf history period &&
    !tail.all (·.repeatable)

end Cycles

section Advance

variable (sha256 : String → String) (config : ToolCallRepeatGovernorConfig)

def ToolObservation.entry (observation : ToolObservation) : OutcomeEntry where
  signature := sha256 observation.call
  resultHash := sha256 observation.resultText
  repeatable := observation.repeatable

/-- `madeProgress` -/
def progresses (state : ToolCallOutcomeState) (observation : ToolObservation) : Bool :=
  let previous := state.history.reverse.find? (·.signature = sha256 observation.call)
  observation.progress || previous.any (·.resultHash ≠ sha256 observation.resultText)

def cycleReminder (period cycles : ℕ) : String :=
  "[TOOL_CALL_CYCLE] The same " ++ toString period ++ "-call cycle and results repeated " ++
    toString cycles ++ " times. Inspect the existing results and change the approach."

def advanceToolCallOutcomeGovernor (state : ToolCallOutcomeState)
    (observation : ToolObservation) : ToolCallOutcomeDecision :=
  if progresses sha256 state observation then
    { state := createToolCallOutcomeState, madeProgress := true, shouldForceStop := false }
  else
    let history := (state.history ++ [observation.entry sha256]).rtake
      (maxPeriod config * stopAfter config)
    let periods := List.range' 2 (maxPeriod config - 1)
    match periods.find? (passesWarning history (warnAfter config)) with
    | some period =>
        let cycles := cyclesOf history period
        { state := ⟨history⟩
          madeProgress := false
          shouldForceStop := stopAfter config ≤ cycles
          period := some period
          cycles := some cycles
          reminder := if cycles = warnAfter config then some (cycleReminder period cycles)
            else none }
    | none =>
        { state := ⟨history⟩, madeProgress := observation.repeatable, shouldForceStop := false }

end Advance

end Kyberion.Tool
