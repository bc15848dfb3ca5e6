import Kyberion.Governance.Charter

/-!
The consumption ledger of a charter. An allowed action is recorded once for its correlation id and
action class, and a reservation is released once, on evidence that closes the payment.
-/

namespace Kyberion.Governance

open Js

inductive ReservationResolution
  | notExecuted | compensated
  deriving DecidableEq

structure Consumption where
  ts : ℤ
  actor : String
  onBehalfOf : Option String := none
  actionClass : String
  money : ℚ
  loss : ℚ := 0
  decision : CharterDecisionKind := .allow
  correlationId : Option String := none
  deriving DecidableEq

structure ReservationRelease where
  ts : ℤ
  correlationId : String
  consumptionTs : ℤ
  money : ℚ
  evidenceRef : String
  resolution : ReservationResolution
  deriving DecidableEq

/-- The entries that the modelled functions read. -/
inductive LedgerEntry
  | consumption (entry : Consumption)
  | reservationRelease (entry : ReservationRelease)
  | tripwire (ts : ℤ) (name : String)
  | tripwireClear (ts : ℤ) (name clearedBy : String)
  | retired (ts : ℤ) (retiredBy reason : String)
  deriving DecidableEq

namespace LedgerEntry

def isConsumptionOf (actionClass correlationId : String) : LedgerEntry → Bool
  | .consumption entry =>
      entry.actionClass = actionClass && entry.correlationId = some correlationId
  | _ => false

def isReleaseOf (correlationId : String) : LedgerEntry → Bool
  | .reservationRelease entry => entry.correlationId = correlationId
  | _ => false

end LedgerEntry

def alreadyRecorded (entries : List LedgerEntry) (actionClass : String)
    (correlationId : Option String) : Bool :=
  (given correlationId).any fun id => entries.any (·.isConsumptionOf actionClass id)

/-- `recordCharterConsumption` for an allowed action. -/
def recordCharterConsumption (entries : List LedgerEntry) (entry : Consumption) :
    List LedgerEntry :=
  if alreadyRecorded entries entry.actionClass entry.correlationId then entries
  else entries ++ [.consumption { entry with correlationId := given entry.correlationId }]

/-- The reservation that the correlation id made for a payment. -/
def findReservation (entries : List LedgerEntry) (correlationId : String) : Option Consumption :=
  entries.findSome? fun
    | .consumption entry =>
        if entry.actionClass = "payment" ∧ entry.correlationId = some correlationId then some entry
        else none
    | _ => none

def releaseCharterPaymentReservation (entries : List LedgerEntry) (correlationId : String)
    (resolution : ReservationResolution) (evidenceRef : String) (now : ℤ) : List LedgerEntry :=
  if entries.any (·.isReleaseOf correlationId) then entries
  else match findReservation entries correlationId with
    | none => entries
    | some reservation =>
        entries ++ [.reservationRelease
          ⟨now, correlationId, reservation.ts, reservation.money, evidenceRef, resolution⟩]

section Releases

variable {entries : List LedgerEntry} {correlationId : String}

theorem recordCharterConsumption_releases (entry : Consumption) :
    (recordCharterConsumption entries entry).countP (·.isReleaseOf correlationId) =
      entries.countP (·.isReleaseOf correlationId) := by
  unfold recordCharterConsumption
  split
  · rfl
  · simp [List.countP_append, LedgerEntry.isReleaseOf]

/-- A release is written when there is none yet. -/
theorem release_releases_le_one (h : entries.countP (·.isReleaseOf correlationId) ≤ 1)
    (resolution : ReservationResolution) (evidenceRef : String) (now : ℤ) :
    (releaseCharterPaymentReservation entries correlationId resolution evidenceRef now).countP
      (·.isReleaseOf correlationId) ≤ 1 := by
  unfold releaseCharterPaymentReservation
  split
  · exact h
  · rename_i hnone
    have hzero : entries.countP (·.isReleaseOf correlationId) = 0 := by
      rw [List.countP_eq_zero]
      simpa using hnone
    split
    · omega
    · rw [List.countP_append, hzero]
      simp [LedgerEntry.isReleaseOf]

end Releases

end Kyberion.Governance
