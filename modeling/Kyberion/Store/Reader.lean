import Kyberion.Store.Rewrite

/-!
One reader that streams a store across running compactions: parked copies in
park order, then the live file, then a second listing that decides whether to
read again. Lines carry the order of their append, which no code reads; the
listing mark and the `missed` flag are history for the statement.
-/

namespace Kyberion.Store

open Transition

universe u v

/-- A line with the position of its append. -/
structure Row (β : Type u) where
  stamp : ℕ
  line : β
  deriving DecidableEq, Repr

variable {β : Type u} {κ : Type v} [DecidableEq κ]

/-- The same format on stamped lines. -/
def Format.onRows (fmt : Format β κ) : Format (Row β) κ where
  oversized r := fmt.oversized r.line
  blank r := fmt.blank r.line
  parses r := fmt.parses r.line
  key r := fmt.key r.line

inductive Phase
  | notStarted | reading | relisting | done
  deriving DecidableEq, Repr

structure Reader (β : Type u) where
  phase : Phase
  round : ℕ
  listed : List ℕ
  todo : List ℕ
  out : List (Row β)
  /-- History: what the store held when the traversal began. -/
  begun : List (Row β)
  /-- History: the first name a park could use after the last listing. -/
  mark : ℕ
  /-- History: what this round yielded. -/
  roundOut : List (Row β)
  /-- History: the live read met an unpublished copy parked after the listing. -/
  missed : Bool
  deriving DecidableEq, Repr

def Reader.fresh : Reader β :=
  ⟨.notStarted, 0, [], [], [], [], 0, [], false⟩

def maxStreamRounds : ℕ := 4

/-- The recognised staging copies on disk, in park order. -/
def State.staging (s : State (Row β)) : List (Parked (Row β)) :=
  s.kept ++ s.copies

/-- `parkedCompactionCopies` -/
def State.listing (s : State (Row β)) : List ℕ :=
  s.staging.map (·.name)

/-- A copy unlinked after the listing yields nothing. -/
def State.copyLines (s : State (Row β)) (name : ℕ) : List (Row β) :=
  match s.staging.find? fun copy => copy.name = name with
  | some copy => copy.lines
  | none => []

/-- Some parked copy of the running rewrite is newer than the mark and not yet published. -/
def State.unpublishedSince (s : State (Row β)) (mark : ℕ) : Bool :=
  !s.liveRestored && s.copies.any fun copy => mark ≤ copy.name

def Format.yielded (fmt : Format β κ) (rows : List (Row β)) : List (Row β) :=
  rows.filter fun r => fmt.readable r.line

namespace Reader

def beginRound (r : Reader β) (s : State (Row β)) (round : ℕ) : Reader β :=
  { r with
    phase := .reading, round := round, listed := s.listing, todo := s.listing,
    mark := s.nextPark, roundOut := [], missed := false }

def start (r : Reader β) (s : State (Row β)) : Reader β :=
  { r with begun := linesOf s.staging ++ s.live.getD [] }.beginRound s 0

def emit (r : Reader β) (rows : List (Row β)) : Reader β :=
  { r with out := r.out ++ rows, roundOut := r.roundOut ++ rows }

/-- Every copy of the second listing was in the first. -/
def settled (r : Reader β) (s : State (Row β)) : Bool :=
  s.listing.all fun name => r.listed.contains name

/-- Another round follows the second listing. -/
def rereads (r : Reader β) (s : State (Row β)) : Bool :=
  !r.settled s && r.round + 1 < maxStreamRounds

def step (fmt : Format β κ) (r : Reader β) (s : State (Row β)) : Option (Reader β) :=
  match r.phase with
  | .notStarted => some (r.start s)
  | .reading =>
      match r.todo with
      | name :: rest => some { r.emit (fmt.yielded (s.copyLines name)) with todo := rest }
      | [] => some { r.emit (fmt.yielded (s.live.getD [])) with
          phase := .relisting, missed := s.unpublishedSince r.mark }
  | .relisting =>
      some (if r.rereads s then r.beginRound s (r.round + 1) else { r with phase := .done })
  | .done => none

end Reader

structure Traversal (β : Type u) where
  store : State (Row β)
  clock : ℕ
  reader : Reader β

inductive Move (β : Type u)
  | append (line : β)
  | compact
  | tick
  | read
  deriving DecidableEq, Repr

def Traversal.step (fmt : Format β κ) (s : Traversal β) : Move β → Option (Traversal β)
  | .append line =>
      some { s with store := s.store.append ⟨s.clock, line⟩, clock := s.clock + 1 }
  | .compact =>
      (s.store.step (.begin fmt.onRows.compactFilter {})).map fun store => { s with store := store }
  | .tick => (s.store.tick false []).map fun store => { s with store := store }
  | .read => (s.reader.step fmt s.store).map fun reader => { s with reader := reader }

/-- Lines are stamped in the order in which a reader of the resting store sees them. -/
structure Traversal.Initial (s : Traversal β) : Prop where
  store : s.store.Initial
  names : s.store.kept.Pairwise fun a b => a.name < b.name
  order : InOrder Row.stamp (linesOf s.store.kept ++ s.store.live.getD [])
  clock : ∀ r ∈ linesOf s.store.kept ++ s.store.live.getD [], r.stamp < s.clock
  reader : s.reader = Reader.fresh

/-- Any number of compactions and appenders, and one reader. -/
def readerSystem (fmt : Format β κ) : System (Traversal β) (Move β) where
  init s := s.Initial
  step := Traversal.step fmt

end Kyberion.Store
