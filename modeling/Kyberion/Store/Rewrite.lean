import Kyberion.Store.Filter
import Kyberion.Transition

/-!
The parked rewrite of an append-only store, one file operation at a time, with
appenders between the operations. Temporaries are only named inside the run, so
they live in the program counter; staging copies are the recognised leftovers.
Any operation may throw. Result counters and warnings are left out.
-/

namespace Kyberion.Store

open Transition

universe u

variable {α : Type u}

/-- A staging sibling; names order copies as they were parked. -/
structure Parked (α : Type u) where
  name : ℕ
  lines : List α
  deriving DecidableEq, Repr

def linesOf (copies : List (Parked α)) : List α :=
  (copies.map (·.lines)).flatten

inductive Pc (α : Type u)
  | idle
  | start
  | parkInitial
  | indexInitial
  | look (i : ℕ)
  | write (i : ℕ)
  | publish (i : ℕ) (content drops : List α)
  | copyWrite (content drops : List α)
  | copyUnlink
  | parkMerge (i : ℕ)
  | indexMerge (i : ℕ)
  | restoreLook (caught : Bool)
  | restorePark (caught : Bool)
  | restoreIndex (caught : Bool)
  | restoreWrite (caught : Bool)
  | restoreMove (caught : Bool) (content : List α)
  | archive
  | clean (n : ℕ)
  deriving DecidableEq, Repr

structure Options where
  /-- A raw-union archive was requested. -/
  archive : Bool := false
  /-- The file system has hard links. -/
  links : Bool := true
  deriving DecidableEq, Repr

structure State (α : Type u) where
  live : Option (List α)
  /-- Staging copies left behind by earlier rewrites. -/
  kept : List (Parked α)
  /-- Copies parked by the running rewrite. -/
  copies : List (Parked α)
  nextPark : ℕ
  pc : Pc α
  filter : LineFilter α
  options : Options
  published : Bool
  liveRestored : Bool
  archived : Bool
  /-- History: every line the store ever held. -/
  entered : List α
  /-- History: every line a published pass left out. -/
  dropped : List α

def compactMaxParkAttempts : ℕ := 5

namespace State

def goto (s : State α) (pc : Pc α) : State α :=
  { s with pc := pc }

/-- The test before the copies are removed or kept. -/
def settle (s : State α) : State α :=
  if !s.liveRestored || (s.published && s.options.archive && !s.archived) then s.goto .idle
  else s.goto (.clean 0)

/-- The `catch` block: restore unless the live file already holds the data. -/
def caught (s : State α) : State α :=
  if !s.liveRestored && !s.copies.isEmpty then s.goto (.restoreLook true) else s.settle

/-- A failed restore reaches the `catch` block, whose own restore only warns. -/
def restoreFailed (s : State α) (inCatch : Bool) : State α :=
  if inCatch then s.settle else s.caught

def restoreDone (s : State α) (inCatch : Bool) : State α :=
  if inCatch then s.settle else s.goto .archive

def retry (s : State α) (i : ℕ) : State α :=
  if compactMaxParkAttempts ≤ i then s.goto (.restoreLook false) else s.goto (.parkMerge i)

/-- Moves the live file to a fresh staging name. -/
def park (s : State α) (lines : List α) : State α :=
  { s with
    live := none, copies := s.copies ++ [⟨s.nextPark, lines⟩], nextPark := s.nextPark + 1 }

def publishLive (s : State α) (content drops : List α) : State α :=
  { s with
    live := some content, published := true, liveRestored := true,
    dropped := s.dropped ++ drops, pc := .archive }

/-- The live file holds a line. -/
def appendedToLive (s : State α) : Bool :=
  !(s.live.getD []).isEmpty

/-- One operation of the rewrite; `overlap` is what an exclusive create's later
write leaves of lines appended in between. -/
def tick (s : State α) (throws : Bool) (overlap : List α) : Option (State α) :=
  match s.pc with
  | .idle => none
  | .start =>
      if throws then some (s.goto .idle)
      else some (if s.live.isSome then s.goto .parkInitial else s.goto .idle)
  | .parkInitial =>
      if throws then some s.caught
      else match s.live with
        | none => some (s.goto .idle)
        | some lines => some ((s.park lines).goto .indexInitial)
  | .indexInitial => if throws then some s.caught else some (s.goto (.look 0))
  | .look i =>
      if throws then some s.caught
      else some (if s.live.isSome then s.retry i else s.goto (.write i))
  | .write i =>
      if throws then some s.caught
      else
        let copies := s.copies.map (·.lines)
        some (s.goto (.publish i (s.filter.survivors copies) (s.filter.dropped copies)))
  | .publish i content drops =>
      if throws then some s.caught
      else match s.live with
        | some _ => some (s.retry i)
        | none =>
            if s.options.links then some (s.publishLive content drops)
            else some { s with live := some [], pc := .copyWrite content drops }
  | .copyWrite content drops =>
      if throws then some (s.goto .copyUnlink)
      else some (s.publishLive (content ++ if s.appendedToLive then overlap else []) drops)
  | .copyUnlink =>
      some (if throws then s.caught else { s with live := none : State α }.caught)
  | .parkMerge i =>
      if throws then some s.caught
      else match s.live with
        | none => some (s.goto (.look (i + 1)))
        | some lines => some ((s.park lines).goto (.indexMerge i))
  | .indexMerge i => if throws then some s.caught else some (s.goto (.look (i + 1)))
  | .restoreLook inCatch =>
      if throws then some (s.restoreFailed inCatch)
      else some (if s.live.isSome then s.goto (.restorePark inCatch)
        else s.goto (.restoreWrite inCatch))
  | .restorePark inCatch =>
      if throws then some (s.restoreFailed inCatch)
      else match s.live with
        | none => some (s.goto (.restoreWrite inCatch))
        | some lines => some ((s.park lines).goto (.restoreIndex inCatch))
  | .restoreIndex inCatch =>
      if throws then some (s.restoreFailed inCatch)
      else some (s.goto (.restoreWrite inCatch))
  | .restoreWrite inCatch =>
      if s.copies.isEmpty then some ({ s with liveRestored := true }.restoreDone inCatch)
      else if throws then some (s.restoreFailed inCatch)
      else some (s.goto (.restoreMove inCatch (linesOf s.copies)))
  | .restoreMove inCatch content =>
      if throws then some (s.restoreFailed inCatch)
      else some ({ s with live := some content, liveRestored := true }.restoreDone inCatch)
  | .archive =>
      if !s.options.archive then some (s.goto (.clean 0))
      else if throws then some s.caught
      else some { s with archived := true, pc := .clean 0 }
  | .clean n =>
      if n < s.copies.length then
        if throws then some (s.goto (.clean (n + 1)))
        else some { s with copies := s.copies.eraseIdx n }
      else some (s.goto .idle)

/-- One whole line appended to the reopened live path. -/
def append (s : State α) (line : α) : State α :=
  { s with live := some (s.live.getD [] ++ [line]), entered := s.entered ++ [line] }

/-- A new rewrite of the store; what the last one left in staging stays there. -/
def begin (s : State α) (filter : LineFilter α) (options : Options) : State α :=
  { s with
    kept := s.kept ++ s.copies, copies := [], pc := .start, filter := filter, options := options,
    published := false, liveRestored := false, archived := false }

end State

inductive Label (α : Type u)
  | append (line : α)
  | begin (filter : LineFilter α) (options : Options)
  | tick (throws : Bool) (overlap : List α)

def State.step (s : State α) : Label α → Option (State α)
  | .append line => some (s.append line)
  | .begin filter options =>
      match s.pc with
      | .idle => some (s.begin filter options)
      | _ => none
  | .tick throws overlap => s.tick throws overlap

/-- Every line that was in the store before the first rewrite has entered it. -/
structure State.Initial (s : State α) : Prop where
  idle : s.pc = .idle
  copies : s.copies = []
  entered : s.entered = linesOf s.kept ++ s.live.getD []
  dropped : s.dropped = []
  names : ∀ copy ∈ s.kept, copy.name < s.nextPark

def storeSystem (α : Type u) : System (State α) (Label α) where
  init s := s.Initial
  step := State.step

end Kyberion.Store
