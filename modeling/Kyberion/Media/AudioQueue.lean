import Kyberion.Transition
import Mathlib.Algebra.BigOperators.Group.List.Basic
import Mathlib.Algebra.Order.Field.Rat
import Mathlib.Data.List.Nodup
import Mathlib.Data.List.Perm.Basic
import Mathlib.Logic.Function.Basic
import Mathlib.Tactic.Linarith

/-!
The bounded queue between a source of audio and its readers. A chunk is handed to a reader that
waits, kept within the limits of the policy, or dropped. Durations are exact numbers here.
-/

namespace Kyberion.Media

open Transition

inductive Overflow
  | dropOldest | dropNewest | fail
  deriving DecidableEq

/-- The limits of a queue, which its constructor checks. -/
structure AudioBufferPolicy where
  maxChunks : ℕ
  maxBufferMs : ℚ
  overflow : Overflow
  chunks_pos : 0 < maxChunks
  buffer_pos : 0 < maxBufferMs

structure AudioFormat where
  bytesPerSample : ℕ
  channels : ℕ
  sampleRateHz : ℕ
  deriving DecidableEq

/-- A chunk, with a number in place of its samples. -/
structure AudioChunk where
  number : ℕ
  byteLength : ℕ
  format : AudioFormat
  deriving DecidableEq

def chunkDurationMs (chunk : AudioChunk) : ℚ :=
  let frames : ℚ := chunk.byteLength / (chunk.format.bytesPerSample * chunk.format.channels)
  frames * 1000 / chunk.format.sampleRateHz

def totalMs (chunks : List AudioChunk) : ℚ :=
  (chunks.map chunkDurationMs).sum

/-- `waiters` holds the readers that wait, the first one first. -/
structure BoundedAudioQueue where
  queue : List AudioChunk := []
  waiters : List ℕ := []
  bufferedMs : ℚ := 0
  droppedChunks : ℕ := 0
  droppedMs : ℚ := 0
  closed : Bool := false
  failure : Option String := none
  deriving DecidableEq

structure BoundedAudioQueueMetrics where
  depth : ℕ
  bufferedMs : ℚ
  droppedChunks : ℕ
  droppedMs : ℚ
  deriving DecidableEq

def BoundedAudioQueue.metrics (state : BoundedAudioQueue) : BoundedAudioQueueMetrics where
  depth := state.queue.length
  bufferedMs := state.bufferedMs
  droppedChunks := state.droppedChunks
  droppedMs := state.droppedMs

/-- What a call of `next` comes to. -/
inductive Reading
  | waiting
  | received (chunk : Option AudioChunk)
  | threw (failure : String)
  deriving DecidableEq

/-- The queue and its readers. The lists hold the chunks that were pushed while the queue was open,
handed to a reader, dropped, and refused by an overflow that closes the queue, each in this order;
they are kept by the model only. -/
structure World where
  state : BoundedAudioQueue := {}
  readers : ℕ → Option Reading := fun _ => none
  offered : List AudioChunk := []
  taken : List (ℕ × AudioChunk) := []
  dropped : List AudioChunk := []
  refused : List AudioChunk := []

inductive Action
  | push (chunk : AudioChunk)
  | next (reader : ℕ)
  | close (error : Option String)
  deriving DecidableEq

variable (policy : AudioBufferPolicy)

def wouldOverflow (durationMs : ℚ) (depth : ℕ) (bufferedMs : ℚ) : Bool :=
  policy.maxChunks ≤ depth || policy.maxBufferMs < bufferedMs + durationMs

/-- The chunks that are removed from the front to make room, and those that stay. -/
def makeRoom (durationMs : ℚ) : List AudioChunk → ℚ → List AudioChunk × List AudioChunk
  | [], _ => ([], [])
  | first :: rest, bufferedMs =>
      if wouldOverflow policy durationMs (rest.length + 1) bufferedMs then
        let made := makeRoom durationMs rest (bufferedMs - chunkDurationMs first)
        (first :: made.1, made.2)
      else ([], first :: rest)

namespace World

variable (w : World)

/-- A reader's call ends, or begins to wait. -/
def answer (reader : ℕ) (reading : Reading) : World :=
  { w with readers := Function.update w.readers reader (some reading) }

/-- A chunk is handed to a reader. -/
def hand (reader : ℕ) (chunk : AudioChunk) : World :=
  { w with taken := w.taken ++ [(reader, chunk)] }.answer reader (.received (some chunk))

/-- `recordDrop` for each of these chunks. -/
def drop (chunks : List AudioChunk) : World :=
  { w with
    state := { w.state with
      droppedChunks := w.state.droppedChunks + chunks.length
      droppedMs := w.state.droppedMs + totalMs chunks }
    dropped := w.dropped ++ chunks }

def enqueue (chunk : AudioChunk) : World :=
  { w with state := { w.state with
      queue := w.state.queue ++ [chunk]
      bufferedMs := w.state.bufferedMs + chunkDurationMs chunk } }

/-- Every reader that waits receives nothing. -/
def close (error : Option String) : World :=
  { w with
    state := { w.state with
      waiters := []
      closed := true
      failure := error.or w.state.failure }
    readers := fun reader =>
      if reader ∈ w.state.waiters then some (.received none) else w.readers reader }

/-- The queue when room has been made for a chunk of this duration. -/
def evict (durationMs : ℚ) : World :=
  let made := makeRoom policy durationMs w.state.queue w.state.bufferedMs
  { w with state := { w.state with
      queue := made.2
      bufferedMs := w.state.bufferedMs - totalMs made.1 } }.drop made.1

/-- What `push` does with a chunk that does not fit. -/
def overflow (chunk : AudioChunk) : World :=
  match policy.overflow with
  | .dropNewest => w.drop [chunk]
  | .fail => { w.close (some "audio queue overflow") with refused := w.refused ++ [chunk] }
  | .dropOldest =>
      let evicted := w.evict policy (chunkDurationMs chunk)
      if wouldOverflow policy (chunkDurationMs chunk) evicted.state.queue.length
          evicted.state.bufferedMs then
        evicted.drop [chunk]
      else evicted.enqueue chunk

/-- A push to a queue that is open. -/
def push (chunk : AudioChunk) : World :=
  let offered := { w with offered := w.offered ++ [chunk] }
  match w.state.waiters with
  | reader :: waiters =>
      { offered with state := { w.state with waiters } }.hand reader chunk
  | [] =>
      if wouldOverflow policy (chunkDurationMs chunk) w.state.queue.length w.state.bufferedMs then
        offered.overflow policy chunk
      else offered.enqueue chunk

def next (reader : ℕ) : World :=
  match w.state.failure with
  | some failure => w.answer reader (.threw failure)
  | none =>
      match w.state.queue with
      | first :: queue =>
          { w with state := { w.state with
              queue
              bufferedMs := w.state.bufferedMs - chunkDurationMs first } }.hand reader first
      | [] =>
          if w.state.closed then w.answer reader (.received none)
          else { w with state := { w.state with
              waiters := w.state.waiters ++ [reader] } }.answer reader .waiting

end World

/-- Pushes, reads and closing in any order; each reading is a new call. -/
def audioQueue : Transition.System World Action where
  init w := w = {}
  step w
    | .push chunk => some (if w.state.closed then w else w.push policy chunk)
    | .next reader => if w.readers reader = none then some (w.next reader) else none
    | .close error => some (w.close error)

section Room

variable {policy} {durationMs bufferedMs : ℚ} {queue : List AudioChunk}

theorem chunkDurationMs_nonneg (chunk : AudioChunk) : 0 ≤ chunkDurationMs chunk := by
  unfold chunkDurationMs
  exact div_nonneg (mul_nonneg (div_nonneg (Nat.cast_nonneg _)
    (mul_nonneg (Nat.cast_nonneg _) (Nat.cast_nonneg _))) (by norm_num)) (Nat.cast_nonneg _)

theorem totalMs_cons (chunk : AudioChunk) (chunks : List AudioChunk) :
    totalMs (chunk :: chunks) = chunkDurationMs chunk + totalMs chunks := by
  simp [totalMs]

theorem totalMs_append (front back : List AudioChunk) :
    totalMs (front ++ back) = totalMs front + totalMs back := by
  simp [totalMs]

theorem totalMs_nonneg (chunks : List AudioChunk) : 0 ≤ totalMs chunks := by
  induction chunks with
  | nil => exact le_of_eq rfl
  | cons chunk chunks ih =>
      rw [totalMs_cons]
      exact add_nonneg (chunkDurationMs_nonneg chunk) ih

theorem wouldOverflow_eq_false {depth : ℕ} (h : wouldOverflow policy durationMs depth bufferedMs = false) :
    depth < policy.maxChunks ∧ bufferedMs + durationMs ≤ policy.maxBufferMs := by
  simpa [wouldOverflow] using h

/-- Room is made at the front only. -/
theorem makeRoom_append :
    (makeRoom policy durationMs queue bufferedMs).1 ++
      (makeRoom policy durationMs queue bufferedMs).2 = queue := by
  induction queue generalizing bufferedMs with
  | nil => rfl
  | cons first rest ih =>
      rw [makeRoom]
      split
      · exact congrArg (first :: ·) ih
      · rfl

end Room

/-- What holds of the queue, with chunks that have been offered and not yet been dealt with. -/
structure QueueInv (pending : List AudioChunk) (w : World) : Prop where
  depth : w.state.queue.length ≤ policy.maxChunks
  within : w.state.bufferedMs ≤ policy.maxBufferMs
  buffered : w.state.bufferedMs = totalMs w.state.queue
  idle : w.state.waiters ≠ [] → w.state.queue = []
  closed : w.state.closed = true → w.state.waiters = []
  waiting : ∀ reader, reader ∈ w.state.waiters ↔ w.readers reader = some .waiting
  nodup : w.state.waiters.Nodup
  received : ∀ reader chunk, (reader, chunk) ∈ w.taken ↔
    w.readers reader = some (.received (some chunk))
  once : (w.taken.map Prod.fst).Nodup
  droppedChunks : w.state.droppedChunks = w.dropped.length
  droppedMs : w.state.droppedMs = totalMs w.dropped
  ordered : (w.taken.map Prod.snd ++ w.state.queue ++ pending).Sublist w.offered
  all : w.offered.Perm
    (w.taken.map Prod.snd ++ w.state.queue ++ pending ++ (w.dropped ++ w.refused))

section Readers

variable {w : World} {r : ℕ} {c : AudioChunk} {reading : Reading}

theorem readers_answer (reader : ℕ) : (w.answer r reading).readers reader =
    if reader = r then some reading else w.readers reader := by
  simp [World.answer, Function.update_apply]

/-- A reader to whom a chunk is handed has not received one before. -/
theorem received_hand
    (h : ∀ reader chunk, (reader, chunk) ∈ w.taken ↔
      w.readers reader = some (.received (some chunk)))
    (hnew : ∀ chunk, w.readers r ≠ some (.received (some chunk))) (reader : ℕ)
    (chunk : AudioChunk) : (reader, chunk) ∈ (w.hand r c).taken ↔
      (w.hand r c).readers reader = some (.received (some chunk)) := by
  have hreaders : (w.hand r c).readers reader =
      if reader = r then some (.received (some c)) else w.readers reader := readers_answer reader
  have htaken : (reader, chunk) ∈ (w.hand r c).taken ↔
      (reader, chunk) ∈ w.taken ∨ reader = r ∧ chunk = c := by
    simp [World.hand, World.answer]
  rw [htaken, hreaders, h]
  by_cases hreader : reader = r
  · subst hreader
    simp [hnew chunk, eq_comm]
  · simp [hreader]

theorem once_hand
    (h : ∀ reader chunk, (reader, chunk) ∈ w.taken ↔
      w.readers reader = some (.received (some chunk)))
    (hnodup : (w.taken.map Prod.fst).Nodup)
    (hnew : ∀ chunk, w.readers r ≠ some (.received (some chunk))) :
    ((w.hand r c).taken.map Prod.fst).Nodup := by
  have htaken : (w.hand r c).taken.map Prod.fst = w.taken.map Prod.fst ++ [r] := by
    simp [World.hand, World.answer]
  rw [htaken]
  refine List.nodup_append.mpr ⟨hnodup, List.nodup_singleton r, ?_⟩
  rintro reader hreader other hother rfl
  obtain rfl := List.mem_singleton.mp hother
  obtain ⟨⟨reader, chunk⟩, hmem, rfl⟩ := List.mem_map.mp hreader
  exact hnew chunk ((h reader chunk).mp hmem)

end Readers

namespace QueueInv

variable {policy} {w : World} {pending : List AudioChunk} {chunk : AudioChunk} {reader : ℕ}

theorem initial : QueueInv policy [] {} where
  depth := Nat.zero_le _
  within := le_of_lt policy.buffer_pos
  buffered := rfl
  idle _ := rfl
  closed _ := rfl
  waiting reader := by simp
  nodup := List.nodup_nil
  received reader chunk := by simp
  once := List.nodup_nil
  droppedChunks := rfl
  droppedMs := rfl
  ordered := List.Sublist.refl _
  all := List.Perm.refl _

theorem offer (h : QueueInv policy [] w) :
    QueueInv policy [chunk] { w with offered := w.offered ++ [chunk] } where
  depth := h.depth
  within := h.within
  buffered := h.buffered
  idle := h.idle
  closed := h.closed
  waiting := h.waiting
  nodup := h.nodup
  received := h.received
  once := h.once
  droppedChunks := h.droppedChunks
  droppedMs := h.droppedMs
  ordered := by simpa using h.ordered.append (List.Sublist.refl [chunk])
  all := List.perm_iff_count.mpr fun c => by
    have hcount := h.all.count_eq c
    simp only [List.count_append, List.count_nil] at hcount ⊢
    omega

theorem enqueue (h : QueueInv policy [chunk] w) (hidle : w.state.waiters = [])
    (hroom : wouldOverflow policy (chunkDurationMs chunk) w.state.queue.length w.state.bufferedMs =
      false) :
    QueueInv policy [] (w.enqueue chunk) where
  depth := by
    rw [World.enqueue, List.length_append]
    exact (wouldOverflow_eq_false hroom).1
  within := (wouldOverflow_eq_false hroom).2
  buffered := by
    simp only [World.enqueue, totalMs_append, h.buffered]
    simp [totalMs]
  idle hne := absurd hidle hne
  closed := h.closed
  waiting := h.waiting
  nodup := h.nodup
  received := h.received
  once := h.once
  droppedChunks := h.droppedChunks
  droppedMs := h.droppedMs
  ordered := by simpa [World.enqueue] using h.ordered
  all := by simpa [World.enqueue] using h.all

theorem drop (h : QueueInv policy [chunk] w) : QueueInv policy [] (w.drop [chunk]) where
  depth := h.depth
  within := h.within
  buffered := h.buffered
  idle := h.idle
  closed := h.closed
  waiting := h.waiting
  nodup := h.nodup
  received := h.received
  once := h.once
  droppedChunks := by simp [World.drop, h.droppedChunks]
  droppedMs := by simp [World.drop, h.droppedMs, totalMs_append]
  ordered := by
    rw [List.append_nil]
    exact (List.sublist_append_left _ _).trans h.ordered
  all := List.perm_iff_count.mpr fun c => by
    have hcount := h.all.count_eq c
    simp only [World.drop, List.count_append, List.count_nil] at hcount ⊢
    omega

/-- Room is made with chunks from the front, which are dropped. -/
theorem evict (h : QueueInv policy pending w) (durationMs : ℚ) :
    QueueInv policy pending (w.evict policy durationMs) := by
  obtain ⟨removed, kept, hmade⟩ : ∃ removed kept,
      makeRoom policy durationMs w.state.queue w.state.bufferedMs = (removed, kept) := ⟨_, _, rfl⟩
  have hqueue : removed ++ kept = w.state.queue := by
    have hsplit : (makeRoom policy durationMs w.state.queue w.state.bufferedMs).1 ++
        (makeRoom policy durationMs w.state.queue w.state.bufferedMs).2 = w.state.queue :=
      makeRoom_append
    rwa [hmade] at hsplit
  simp only [World.evict, hmade]
  have hbuffered := h.buffered
  have hordered := h.ordered
  have hdepth := h.depth
  rw [← hqueue, List.length_append] at hdepth
  rw [← hqueue, totalMs_append] at hbuffered
  rw [← hqueue] at hordered
  have hremoved := totalMs_nonneg removed
  exact {
    depth := Nat.le_trans (Nat.le_add_left _ _) hdepth
    within := le_trans (sub_le_self _ hremoved) h.within
    buffered := by
      simp only [World.drop]
      linarith
    idle := fun hne => by
      have hempty := h.idle hne
      rw [← hqueue] at hempty
      exact (List.append_eq_nil_iff.mp hempty).2
    closed := h.closed
    waiting := h.waiting
    nodup := h.nodup
    received := h.received
    once := h.once
    droppedChunks := by simp [World.drop, h.droppedChunks]
    droppedMs := by simp [World.drop, h.droppedMs, totalMs_append]
    ordered := (((List.sublist_append_right removed kept).append_left _).append_right _).trans
      hordered
    all := List.perm_iff_count.mpr fun c => by
      have hcount := h.all.count_eq c
      rw [← hqueue] at hcount
      simp only [World.drop, List.count_append] at hcount ⊢
      omega }

theorem close (h : QueueInv policy pending w) (error : Option String) :
    QueueInv policy pending (w.close error) where
  depth := h.depth
  within := h.within
  buffered := h.buffered
  idle hne := absurd rfl hne
  closed _ := rfl
  waiting reader := by
    have hwaiting := h.waiting reader
    by_cases hmem : reader ∈ w.state.waiters
    · simp [World.close, hmem]
    · simpa [World.close, hmem] using hwaiting
  nodup := List.nodup_nil
  received reader chunk := by
    have hreceived := h.received reader chunk
    by_cases hmem : reader ∈ w.state.waiters
    · rw [(h.waiting reader).mp hmem] at hreceived
      simpa [World.close, hmem] using hreceived
    · simpa [World.close, hmem] using hreceived
  once := h.once
  droppedChunks := h.droppedChunks
  droppedMs := h.droppedMs
  ordered := h.ordered
  all := h.all

theorem refuse (h : QueueInv policy [chunk] w) :
    QueueInv policy [] { w with refused := w.refused ++ [chunk] } where
  depth := h.depth
  within := h.within
  buffered := h.buffered
  idle := h.idle
  closed := h.closed
  waiting := h.waiting
  nodup := h.nodup
  received := h.received
  once := h.once
  droppedChunks := h.droppedChunks
  droppedMs := h.droppedMs
  ordered := by
    rw [List.append_nil]
    exact (List.sublist_append_left _ _).trans h.ordered
  all := List.perm_iff_count.mpr fun c => by
    have hcount := h.all.count_eq c
    simp only [List.count_append, List.count_nil] at hcount ⊢
    omega

theorem overflow (h : QueueInv policy [chunk] w) (hidle : w.state.waiters = []) :
    QueueInv policy [] (w.overflow policy chunk) := by
  unfold World.overflow
  split
  · exact h.drop
  · exact (h.close (some "audio queue overflow")).refuse
  · dsimp only
    have hevicted := h.evict (chunkDurationMs chunk)
    split
    · exact hevicted.drop
    · rename_i hroom
      exact hevicted.enqueue hidle (Bool.eq_false_iff.mpr hroom)

/-- The chunk goes to the reader that has waited longest. -/
theorem handWaiter (h : QueueInv policy [chunk] w) {waiters : List ℕ}
    (hwaiters : w.state.waiters = reader :: waiters) :
    QueueInv policy [] ({ w with state := { w.state with waiters } }.hand reader chunk) := by
  have hmem : reader ∈ w.state.waiters := hwaiters ▸ List.mem_cons_self
  have hwaits := (h.waiting reader).mp hmem
  have hempty := h.idle (List.ne_nil_of_mem hmem)
  have hnodup := h.nodup
  rw [hwaiters, List.nodup_cons] at hnodup
  have hnew : ∀ c, w.readers reader ≠ some (.received (some c)) := fun c => by
    rw [hwaits]
    rintro ⟨⟩
  exact {
    depth := h.depth
    within := h.within
    buffered := h.buffered
    idle := fun _ => hempty
    closed := fun hclosed => by
      rw [h.closed hclosed] at hmem
      cases hmem
    waiting := fun other => by
      have hwaiting := h.waiting other
      rw [hwaiters] at hwaiting
      by_cases hother : other = reader
      · subst hother
        simp [World.hand, World.answer, hnodup.1]
      · simpa [World.hand, World.answer, Function.update_of_ne hother, hother] using hwaiting
    nodup := hnodup.2
    received := received_hand (w := { w with state := { w.state with waiters } }) h.received hnew
    once := once_hand (w := { w with state := { w.state with waiters } }) h.received h.once hnew
    droppedChunks := h.droppedChunks
    droppedMs := h.droppedMs
    ordered := by simpa [World.hand, World.answer, hempty] using h.ordered
    all := by simpa [World.hand, World.answer, hempty] using h.all }

theorem push (h : QueueInv policy [] w) : QueueInv policy [] (w.push policy chunk) := by
  have hoffered : QueueInv policy [chunk] { w with offered := w.offered ++ [chunk] } := h.offer
  unfold World.push
  dsimp only
  split
  · rename_i reader waiters hwaiters
    exact hoffered.handWaiter hwaiters
  · rename_i hidle
    split
    · exact hoffered.overflow hidle
    · rename_i hroom
      exact hoffered.enqueue hidle (Bool.eq_false_iff.mpr hroom)

/-- A call of `next` that ends or waits without a chunk. -/
theorem answer (h : QueueInv policy [] w) {reading : Reading} (hnew : w.readers reader = none)
    (hwaiting : reading ≠ .waiting) (hreceived : ∀ c, reading ≠ .received (some c)) :
    QueueInv policy [] (w.answer reader reading) where
  depth := h.depth
  within := h.within
  buffered := h.buffered
  idle := h.idle
  closed := h.closed
  waiting other := by
    rw [readers_answer, World.answer, h.waiting]
    split
    · rename_i hother
      subst hother
      simp [hnew, hwaiting]
    · rfl
  nodup := h.nodup
  received other c := by
    rw [readers_answer, World.answer, h.received]
    split
    · rename_i hother
      subst hother
      simp [hnew, hreceived c]
    · rfl
  once := h.once
  droppedChunks := h.droppedChunks
  droppedMs := h.droppedMs
  ordered := h.ordered
  all := h.all

theorem wait (h : QueueInv policy [] w) (hnew : w.readers reader = none)
    (hempty : w.state.queue = []) (hopen : w.state.closed = false) :
    QueueInv policy [] ({ w with state := { w.state with
      waiters := w.state.waiters ++ [reader] } }.answer reader .waiting) where
  depth := h.depth
  within := h.within
  buffered := h.buffered
  idle _ := hempty
  closed hclosed := by
    rw [World.answer, hopen] at hclosed
    cases hclosed
  waiting other := by
    have hwaiting := h.waiting other
    by_cases hother : other = reader
    · subst hother
      simp [World.answer]
    · simpa [World.answer, Function.update_of_ne hother, hother] using hwaiting
  nodup := by
    refine List.nodup_append.mpr ⟨h.nodup, List.nodup_singleton reader, ?_⟩
    rintro other hother last hlast rfl
    obtain rfl := List.mem_singleton.mp hlast
    rw [h.waiting, hnew] at hother
    cases hother
  received other c := by
    have hreceived := h.received other c
    by_cases hother : other = reader
    · subst hother
      rw [hnew] at hreceived
      simpa [World.answer] using hreceived
    · simpa [World.answer, Function.update_of_ne hother] using hreceived
  once := h.once
  droppedChunks := h.droppedChunks
  droppedMs := h.droppedMs
  ordered := h.ordered
  all := h.all

/-- The first chunk goes to the reader. -/
theorem handFirst (h : QueueInv policy [] w) {first : AudioChunk} {queue : List AudioChunk}
    (hqueue : w.state.queue = first :: queue) (hnew : w.readers reader = none) :
    QueueInv policy [] ({ w with state := { w.state with
      queue
      bufferedMs := w.state.bufferedMs - chunkDurationMs first } }.hand reader first) := by
  have hidle : w.state.waiters = [] := by
    by_contra hne
    rw [h.idle hne] at hqueue
    cases hqueue
  have hnone : ∀ c, w.readers reader ≠ some (.received (some c)) := fun c => by
    rw [hnew]
    rintro ⟨⟩
  have hdepth := h.depth
  have hbuffered := h.buffered
  rw [hqueue, List.length_cons] at hdepth
  rw [hqueue, totalMs_cons] at hbuffered
  have hfirst := chunkDurationMs_nonneg first
  exact {
    depth := Nat.le_trans (Nat.le_succ _) hdepth
    within := le_trans (sub_le_self _ hfirst) h.within
    buffered := by
      simp only [World.hand, World.answer]
      linarith
    idle := fun hne => absurd hidle hne
    closed := h.closed
    waiting := fun other => by
      have hwaiting := h.waiting other
      rw [hidle] at hwaiting
      by_cases hother : other = reader
      · subst hother
        simp [World.hand, World.answer, hidle]
      · simpa [World.hand, World.answer, Function.update_of_ne hother, hidle] using hwaiting
    nodup := h.nodup
    received := received_hand (w := { w with state := { w.state with
      queue
      bufferedMs := w.state.bufferedMs - chunkDurationMs first } }) h.received hnone
    once := once_hand (w := { w with state := { w.state with
      queue
      bufferedMs := w.state.bufferedMs - chunkDurationMs first } }) h.received h.once hnone
    droppedChunks := h.droppedChunks
    droppedMs := h.droppedMs
    ordered := by simpa [World.hand, World.answer, hqueue] using h.ordered
    all := by simpa [World.hand, World.answer, hqueue] using h.all }

theorem next (h : QueueInv policy [] w) (hnew : w.readers reader = none) :
    QueueInv policy [] (w.next reader) := by
  unfold World.next
  split
  · exact h.answer hnew (by rintro ⟨⟩) fun _ => by rintro ⟨⟩
  · split
    · rename_i hqueue
      exact h.handFirst hqueue hnew
    · rename_i hempty
      split
      · exact h.answer hnew (by rintro ⟨⟩) fun _ => by rintro ⟨⟩
      · rename_i hopen
        exact h.wait hnew hempty (Bool.eq_false_iff.mpr hopen)

theorem step {a : Action} {t : World} (h : QueueInv policy [] w)
    (ht : (audioQueue policy).step w a = some t) : QueueInv policy [] t := by
  cases a with
  | push chunk =>
      obtain rfl := Option.some.inj ht
      split
      · exact h
      · exact h.push
  | next reader =>
      obtain ⟨hnew, ht⟩ := Option.ite_none_right_eq_some.mp ht
      obtain rfl := Option.some.inj ht
      exact h.next hnew
  | close error =>
      obtain rfl := Option.some.inj ht
      exact h.close error

end QueueInv

/-- What a queue is good for. -/
structure AudioQueueKept (w : World) : Prop where
  /-- The chunks that wait are within the limits. -/
  bounded : w.state.queue.length ≤ policy.maxChunks ∧ totalMs w.state.queue ≤ policy.maxBufferMs
  /-- The chunks that are handed out come in the order of the source, and those that wait after
  them. -/
  ordered : (w.taken.map Prod.snd ++ w.state.queue).Sublist w.offered
  /-- No chunk is lost or doubled. -/
  accounted : w.offered.Perm (w.taken.map Prod.snd ++ w.state.queue ++ (w.dropped ++ w.refused))
  /-- Each chunk that is handed out is what one reader has received. -/
  received : ∀ reader chunk, (reader, chunk) ∈ w.taken ↔
    w.readers reader = some (.received (some chunk))
  once : (w.taken.map Prod.fst).Nodup
  /-- A reader waits only for an open queue without a chunk. -/
  waiting : ∀ reader, w.readers reader = some .waiting →
    w.state.queue = [] ∧ w.state.closed = false
  metrics : w.state.metrics =
    ⟨w.state.queue.length, totalMs w.state.queue, w.dropped.length, totalMs w.dropped⟩

variable {policy} {w : World}

section Overflow

theorem bufferMs_pos : (0 : ℚ) < 25 := by
  norm_num

/-- Room for two chunks of ten milliseconds. -/
def twoChunks : AudioBufferPolicy where
  maxChunks := 2
  maxBufferMs := 25
  overflow := .dropOldest
  chunks_pos := Nat.two_pos
  buffer_pos := bufferMs_pos

def tenMs (number : ℕ) : AudioChunk where
  number := number
  byteLength := 320
  format := ⟨2, 1, 16000⟩

end Overflow

end Kyberion.Media
