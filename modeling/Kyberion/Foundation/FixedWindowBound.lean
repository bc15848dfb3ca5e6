import Kyberion.Foundation.FixedWindow
import Mathlib.Tactic.Linarith

/-!
Histories of a limiter that refuses new keys when its table is full. What is left of a limit is
an allowance on the bucket of a key, and no call spends more than it takes from the allowance.
-/

namespace Kyberion.Foundation.FixedWindowLimiter

variable (options : FixedWindowOptions)

section Deny

variable {options} {buckets after : Buckets} {key k : String} {limit : ℤ} {now windowMs : ℚ}
  {decision : FixedWindowDecision}

/-- The bucket of another key stays when the bucket of the key is dropped. -/
theorem find_dropEnded_ne (h : k ≠ key) :
    Keyed.find Bucket.key k (dropEnded options buckets key now windowMs) =
      Keyed.find Bucket.key k buckets := by
  unfold dropEnded
  split
  · split
    · rw [Keyed.find_remove, if_neg h]
    · rfl
  · rfl

variable (options k now) in
theorem find_sweep (h : Distinct buckets) :
    Keyed.find Bucket.key k (sweep options buckets now) =
      (Keyed.find Bucket.key k buckets).filter fun bucket =>
        !expired options bucket.start now bucket.windowMs := by
  have hkey (a b : Bucket)
      (hab : (if !expired options a.start now a.windowMs then some a else none) = some b) :
      b.key = a.key := by
    split at hab
    · rw [Option.some.inj hab]
    · cases hab
  have hfind := Keyed.find_filterMap (k := k) hkey h
  have hfilter : buckets.filterMap (fun a =>
      if !expired options a.start now a.windowMs then some a else none) =
        sweep options buckets now := by
    rw [sweep, ← List.filterMap_eq_filter]
    rfl
  rw [← hfilter, hfind]
  cases Keyed.find Bucket.key k buckets <;> rfl

variable (options buckets key now windowMs) in
theorem dropEnded_length : (dropEnded options buckets key now windowMs).length ≤
    buckets.length := by
  unfold dropEnded
  split
  · split
    · exact List.length_filter_le _ _
    · exact Nat.le_refl _
  · exact Nat.le_refl _

theorem makeRoom_deny (hdeny : options.eviction = .deny) {room : Buckets}
    (h : makeRoom options buckets now = .ok room) :
    room.length < options.maxKeys ∧ (room = buckets ∨ room = sweep options buckets now) := by
  unfold makeRoom at h
  split at h
  · rename_i hroom
    obtain rfl := Except.ok.inj h
    exact ⟨hroom, .inl rfl⟩
  · dsimp only at h
    split at h
    · rename_i hroom
      obtain rfl := Except.ok.inj h
      exact ⟨hroom, .inr rfl⟩
    · cases h

/-- What a call does where no bucket is evicted. -/
theorem take_deny (hdeny : options.eviction = .deny)
    (h : take options buckets key limit now windowMs = .ok (decision, after)) :
    let kept := dropEnded options buckets key now windowMs
    (∃ bucket, Keyed.find Bucket.key key kept = some bucket ∧
      after = Keyed.update Bucket.key key (Bucket.hit · windowMs) kept ∧
      (decision = .allowed ↔ ((Bucket.hit bucket windowMs).count : ℤ) ≤ limit)) ∨
    Keyed.find Bucket.key key kept = none ∧
      (decision ≠ .allowed ∧ after = sweep options kept now ∨
        ∃ room, room.length < options.maxKeys ∧ (room = kept ∨ room = sweep options kept now) ∧
          after = Keyed.update Bucket.key key (Bucket.hit · windowMs)
            (room ++ [⟨key, now, 0, windowMs⟩]) ∧ (decision = .allowed ↔ 1 ≤ limit)) := by
  intro kept
  have hcounted (bucket : Bucket) (opened : Buckets)
      (hopen : openBucket options buckets key now windowMs = .ok (bucket, opened)) :
      after = Keyed.update Bucket.key key (Bucket.hit · windowMs) opened ∧
        (decision = .allowed ↔ ((Bucket.hit bucket windowMs).count : ℤ) ≤ limit) := by
    unfold take at h
    rw [hopen] at h
    split at h
    · cases h
    · dsimp only at h
      split at h <;> obtain ⟨rfl, rfl⟩ := Prod.mk.inj (Except.ok.inj h)
      · rename_i hle
        exact ⟨rfl, fun _ => hle, fun _ => rfl⟩
      · rename_i hover
        exact ⟨rfl, by rintro ⟨⟩, fun hle => absurd hle hover⟩
  cases hfind : Keyed.find Bucket.key key kept with
  | some bucket =>
      have hopen : openBucket options buckets key now windowMs = .ok (bucket, kept) := by
        simp only [openBucket, kept, hfind, hdeny, reduceCtorEq, if_false]
      exact .inl ⟨bucket, rfl, hcounted bucket kept hopen⟩
  | none =>
      refine .inr ⟨rfl, ?_⟩
      cases hroom : makeRoom options kept now with
      | error retry =>
          have hopen : openBucket options buckets key now windowMs = .error retry := by
            simp only [openBucket, kept, hfind, hroom, Except.map]
          unfold take at h
          rw [hopen] at h
          split at h
          · cases h
          · obtain ⟨rfl, rfl⟩ := Prod.mk.inj (Except.ok.inj h)
            exact .inl ⟨by rintro ⟨⟩, rfl⟩
      | ok room =>
          have hopen : openBucket options buckets key now windowMs =
              .ok (⟨key, now, 0, windowMs⟩, room ++ [⟨key, now, 0, windowMs⟩]) := by
            simp only [openBucket, kept, hfind, hroom, Except.map]
          obtain ⟨hafter, hallowed⟩ := hcounted _ _ hopen
          obtain ⟨hlength, hkept⟩ := makeRoom_deny hdeny hroom
          exact .inr ⟨room, hlength, hkept, hafter, hallowed⟩

theorem find_hit : Keyed.find Bucket.key k
      (Keyed.update Bucket.key key (Bucket.hit · windowMs) buckets) =
    if k = key then (Keyed.find Bucket.key key buckets).map (Bucket.hit · windowMs)
    else Keyed.find Bucket.key k buckets :=
  Keyed.find_update _ fun _ hkey => hkey

theorem find_entered {room : Buckets} (hnone : Keyed.find Bucket.key key room = none) :
    Keyed.find Bucket.key k (Keyed.update Bucket.key key (Bucket.hit · windowMs)
        (room ++ [⟨key, now, 0, windowMs⟩])) =
      if k = key then some ⟨key, now, 1, windowMs⟩ else Keyed.find Bucket.key k room := by
  rw [find_hit, Keyed.find_append, Keyed.find_append, hnone, Keyed.find_singleton,
    Keyed.find_singleton, if_pos rfl]
  split
  · rfl
  · rename_i hne
    rw [if_neg (Ne.symm hne), Option.or_none]

/-- What a call of another key does to a bucket. -/
theorem take_others (hdeny : options.eviction = .deny) (hdistinct : Distinct buckets)
    (h : take options buckets key limit now windowMs = .ok (decision, after)) (hk : k ≠ key) :
    Keyed.find Bucket.key k after = Keyed.find Bucket.key k buckets ∨
      Keyed.find Bucket.key k after = (Keyed.find Bucket.key k buckets).filter fun bucket =>
        !expired options bucket.start now bucket.windowMs := by
  have hkept : Distinct (dropEnded options buckets key now windowMs) :=
    dropEnded_distinct hdistinct
  have hswept := find_sweep options k now hkept
  rw [find_dropEnded_ne hk] at hswept
  obtain ⟨bucket, -, rfl, -⟩ | ⟨hnone, ⟨-, rfl⟩ | ⟨room, -, hroom, rfl, -⟩⟩ := take_deny hdeny h
  · rw [find_hit, if_neg hk, find_dropEnded_ne hk]
    exact .inl rfl
  · exact .inr hswept
  · have hroomNone : Keyed.find Bucket.key key room = none := by
      rcases hroom with rfl | rfl
      · exact hnone
      · rw [find_sweep options key now hkept, hnone, Option.filter_none]
    rw [find_entered hroomNone, if_neg hk]
    rcases hroom with rfl | rfl
    · exact .inl (find_dropEnded_ne hk)
    · exact .inr hswept

/-- What a call does to the bucket of its key. -/
theorem take_own (hdeny : options.eviction = .deny) (hdistinct : Distinct buckets)
    (h : take options buckets key limit now windowMs = .ok (decision, after)) :
    (∃ bucket, Keyed.find Bucket.key key buckets = some bucket ∧
      expired options bucket.start now windowMs = false ∧
      Keyed.find Bucket.key key after = some (Bucket.hit bucket windowMs) ∧
      (decision = .allowed ↔ ((Bucket.hit bucket windowMs).count : ℤ) ≤ limit)) ∨
    (∀ bucket, Keyed.find Bucket.key key buckets = some bucket →
      expired options bucket.start now windowMs = true) ∧
      (Keyed.find Bucket.key key after = none ∧ decision ≠ .allowed ∨
        Keyed.find Bucket.key key after = some ⟨key, now, 1, windowMs⟩ ∧
          (decision = .allowed ↔ 1 ≤ limit)) := by
  have hkept : Distinct (dropEnded options buckets key now windowMs) :=
    dropEnded_distinct hdistinct
  obtain ⟨bucket, hbucket, rfl, hallowed⟩ | ⟨hnone, hcase⟩ := take_deny hdeny h
  · refine .inl ⟨bucket, ?_, ?_, ?_, hallowed⟩
    · rw [find_dropEnded] at hbucket
      exact (Option.filter_eq_some_iff.mp hbucket).1
    · rw [find_dropEnded] at hbucket
      simpa using (Option.filter_eq_some_iff.mp hbucket).2
    · rw [find_hit, if_pos rfl, hbucket, Option.map_some]
  · refine .inr ⟨fun bucket hbucket => ?_, ?_⟩
    · rw [find_dropEnded, hbucket, Option.filter_eq_none_iff] at hnone
      simpa using hnone bucket rfl
    · obtain ⟨hrefused, rfl⟩ | ⟨room, -, hroom, rfl, hallowed⟩ := hcase
      · exact .inl ⟨by rw [find_sweep options key now hkept, hnone, Option.filter_none], hrefused⟩
      · have hroomNone : Keyed.find Bucket.key key room = none := by
          rcases hroom with rfl | rfl
          · exact hnone
          · rw [find_sweep options key now hkept, hnone, Option.filter_none]
        exact .inr ⟨by rw [find_entered hroomNone, if_pos rfl], hallowed⟩

theorem take_length (hdeny : options.eviction = .deny)
    (h : take options buckets key limit now windowMs = .ok (decision, after))
    (hlength : buckets.length ≤ options.maxKeys) : after.length ≤ options.maxKeys := by
  have hkept := Nat.le_trans (dropEnded_length options buckets key now windowMs) hlength
  have hupdate (l : Buckets) :
      (Keyed.update Bucket.key key (Bucket.hit · windowMs) l).length = l.length := by
    have hkeys : (Keyed.update Bucket.key key (Bucket.hit · windowMs) l).map Bucket.key =
        l.map Bucket.key := Keyed.map_update _ fun _ hkey => hkey
    rw [← List.length_map Bucket.key, hkeys, List.length_map]
  obtain ⟨-, -, rfl, -⟩ | ⟨-, ⟨-, rfl⟩ | ⟨room, hroom, -, rfl, -⟩⟩ := take_deny hdeny h
  · rwa [hupdate]
  · exact Nat.le_trans (List.length_filter_le _ _) hkept
  · rw [hupdate, List.length_append, List.length_singleton]
    exact hroom

theorem take_distinct (hdistinct : Distinct buckets)
    (h : take options buckets key limit now windowMs = .ok (decision, after)) : Distinct after := by
  obtain ⟨-, hnoRoom⟩ | ⟨bucket, hcounted, -⟩ := take_cases hdistinct h
  · rw [hnoRoom.swept]
    exact sweep_distinct (dropEnded_distinct hdistinct)
  · exact hcounted.distinct

end Deny

section Histories

structure TakeCall where
  key : String
  now : ℚ

/-- A call with the buckets before and after it; a call that throws has no decision. -/
structure Taken where
  call : TakeCall
  before : Buckets
  after : Buckets
  decision : Option FixedWindowDecision

/-- Every key has one limit and one window. -/
structure KeyLimits where
  limit : String → ℕ
  windowMs : String → ℚ

variable (limits : KeyLimits)

def takeOne (buckets : Buckets) (call : TakeCall) : Taken :=
  match take options buckets call.key (limits.limit call.key) call.now
      (limits.windowMs call.key) with
  | .ok (decision, after) => ⟨call, buckets, after, some decision⟩
  | .error _ => ⟨call, buckets, buckets, none⟩

def takeAll (buckets : Buckets) : List TakeCall → List Taken
  | [] => []
  | call :: calls =>
      let taken := takeOne options limits buckets call
      taken :: takeAll taken.after calls

/-- The call was one of the key, and it was allowed. -/
def Taken.allows (taken : Taken) (k : String) : Bool :=
  taken.call.key = k && taken.decision = some .allowed

/-- The call found no bucket of the key that had not ended, and made one. -/
def Taken.resets (taken : Taken) (k : String) : Bool :=
  taken.call.key = k &&
    (Keyed.find Bucket.key k taken.before).all (fun bucket =>
      expired options bucket.start taken.call.now (limits.windowMs k)) &&
    (Keyed.find Bucket.key k taken.after).isSome

variable {options limits}

/-- What holds of the buckets between two calls. -/
structure Steady (options : FixedWindowOptions) (limits : KeyLimits) (buckets : Buckets) :
    Prop where
  distinct : Distinct buckets
  window : ∀ k bucket, Keyed.find Bucket.key k buckets = some bucket →
    bucket.windowMs = limits.windowMs k
  room : buckets.length ≤ options.maxKeys

variable {buckets : Buckets} {call : TakeCall} {calls : List TakeCall} {k : String}

theorem steady_nil : Steady options limits [] where
  distinct := List.nodup_nil
  window _ _ h := by cases h
  room := Nat.zero_le _

/-- What a call does to the bucket of a key. -/
inductive BucketStep (options : FixedWindowOptions) (limits : KeyLimits) (taken : Taken)
    (k : String) : Option Bucket → Option Bucket → Prop
  | same {before : Option Bucket} : taken.allows k = false →
      BucketStep options limits taken k before before
  | ended {before : Option Bucket} : taken.allows k = false →
      (∀ bucket, before = some bucket →
        expired options bucket.start taken.call.now (limits.windowMs k) = true) →
      BucketStep options limits taken k before none
  | hit {bucket : Bucket} : taken.call.key = k →
      expired options bucket.start taken.call.now (limits.windowMs k) = false →
      (taken.allows k = true ↔
        (Bucket.hit bucket (limits.windowMs k)).count ≤ limits.limit k) →
      BucketStep options limits taken k (some bucket)
        (some (Bucket.hit bucket (limits.windowMs k)))
  | fresh {before : Option Bucket} : taken.call.key = k →
      (∀ bucket, before = some bucket →
        expired options bucket.start taken.call.now (limits.windowMs k) = true) →
      (taken.allows k = true ↔ 1 ≤ limits.limit k) →
      BucketStep options limits taken k before
        (some ⟨k, taken.call.now, 1, limits.windowMs k⟩)

theorem takeOne_error {error : String}
    (h : take options buckets call.key (limits.limit call.key) call.now
      (limits.windowMs call.key) = .error error) :
    takeOne options limits buckets call = ⟨call, buckets, buckets, none⟩ := by
  rw [takeOne, h]

theorem takeOne_ok {decision : FixedWindowDecision} {after : Buckets}
    (h : take options buckets call.key (limits.limit call.key) call.now
      (limits.windowMs call.key) = .ok (decision, after)) :
    takeOne options limits buckets call = ⟨call, buckets, after, some decision⟩ := by
  rw [takeOne, h]

theorem allows_other {taken : Taken} (h : taken.call.key ≠ k) : taken.allows k = false := by
  rw [Taken.allows, decide_eq_false h, Bool.false_and]

theorem allows_own {decision : FixedWindowDecision} {after : Buckets} :
    (Taken.mk call buckets after (some decision)).allows call.key = true ↔
      decision = .allowed := by
  simp [Taken.allows]

theorem takeOne_step (hdeny : options.eviction = .deny) (h : Steady options limits buckets)
    (call : TakeCall) (k : String) :
    BucketStep options limits (takeOne options limits buckets call) k
      (Keyed.find Bucket.key k buckets)
      (Keyed.find Bucket.key k (takeOne options limits buckets call).after) := by
  cases htake : take options buckets call.key (limits.limit call.key) call.now
      (limits.windowMs call.key) with
  | error error =>
      rw [takeOne_error htake]
      exact .same (by simp [Taken.allows])
  | ok pair =>
      obtain ⟨decision, after⟩ := pair
      rw [takeOne_ok htake]
      by_cases hk : k = call.key
      · subst hk
        obtain ⟨bucket, hbefore, hlive, hafter, hallowed⟩ |
          ⟨hended, ⟨hafter, hrefused⟩ | ⟨hafter, hallowed⟩⟩ := take_own hdeny h.distinct htake
        · rw [hbefore, hafter]
          exact .hit rfl hlive (allows_own.trans (hallowed.trans Nat.cast_le))
        · rw [hafter]
          exact .ended (Bool.eq_false_of_not_eq_true fun hallows =>
            hrefused (allows_own.mp hallows)) hended
        · rw [hafter]
          refine .fresh rfl hended (allows_own.trans (hallowed.trans ?_))
          exact Nat.one_le_cast
      · have hallows : (Taken.mk call buckets after (some decision)).allows k = false :=
          allows_other (Ne.symm hk)
        obtain hsame | hfiltered := take_others hdeny h.distinct htake hk
        · rw [hsame]
          exact .same hallows
        · cases hbefore : Keyed.find Bucket.key k buckets with
          | none =>
              rw [hfiltered, hbefore]
              exact .same hallows
          | some bucket =>
              rw [hbefore, Option.filter_some] at hfiltered
              rw [hfiltered]
              split
              · exact .same hallows
              · rename_i hended
                refine .ended hallows fun other hother => ?_
                obtain rfl := Option.some.inj hother
                rw [← h.window k bucket hbefore]
                simpa using hended

theorem takeOne_steady (hdeny : options.eviction = .deny) (h : Steady options limits buckets)
    (call : TakeCall) : Steady options limits (takeOne options limits buckets call).after := by
  refine ⟨?_, fun k bucket hbucket => ?_, ?_⟩
  · cases htake : take options buckets call.key (limits.limit call.key) call.now
        (limits.windowMs call.key) with
    | error error =>
        rw [takeOne_error htake]
        exact h.distinct
    | ok pair =>
        rw [takeOne_ok htake]
        exact take_distinct h.distinct htake
  · have hstep := takeOne_step hdeny h call k
    rw [hbucket] at hstep
    generalize hbefore : Keyed.find Bucket.key k buckets = before at hstep
    cases hstep with
    | same => exact h.window k bucket hbefore
    | hit => rfl
    | fresh => rfl
  · cases htake : take options buckets call.key (limits.limit call.key) call.now
        (limits.windowMs call.key) with
    | error error =>
        rw [takeOne_error htake]
        exact h.room
    | ok pair =>
        rw [takeOne_ok htake]
        exact take_length hdeny htake h.room

end Histories

section Allowance

variable {options : FixedWindowOptions} {limits : KeyLimits} {buckets : Buckets} {taken : Taken}
  {calls : List TakeCall} {k : String} {before after : Option Bucket} {since till : ℚ}

/-- What is left of the limit in the bucket of the key. -/
def remainder (limit : ℕ) : Option Bucket → ℕ
  | none => 0
  | some bucket => limit - bucket.count

/-- A call that counts in a bucket spends what is left of the limit. -/
theorem remainder_hit {bucket : Bucket} (windowMs : ℚ) {limit : ℕ} {allows : Bool}
    (hlimit : limit < MAX_SAFE_INTEGER)
    (hallows : allows = true ↔ (Bucket.hit bucket windowMs).count ≤ limit) :
    remainder limit (some (Bucket.hit bucket windowMs)) + (if allows then 1 else 0) ≤
      remainder limit (some bucket) := by
  have hcount : (Bucket.hit bucket windowMs).count = min (bucket.count + 1) MAX_SAFE_INTEGER := rfl
  rw [remainder, remainder, hcount]
  rw [hcount] at hallows
  split
  · have hle := hallows.mp ‹_›
    omega
  · omega

theorem remainder_le (limit : ℕ) (before : Option Bucket) : remainder limit before ≤ limit := by
  unfold remainder
  split <;> omega

/-- What a key may still be allowed in an interval: the rest of its bucket, and where that was
made before the interval, another bucket. -/
def allowance (limit : ℕ) (since : ℚ) : Option Bucket → ℕ
  | none => limit
  | some bucket =>
      remainder limit (some bucket) + if since ≤ bucket.start then 0 else limit

theorem allowance_le (limit : ℕ) (since : ℚ) (before : Option Bucket) :
    allowance limit since before ≤ 2 * limit := by
  cases before with
  | none => exact Nat.le_mul_of_pos_left limit (by decide)
  | some bucket =>
      have hrest := remainder_le limit (some bucket)
      rw [allowance]
      split <;> omega

theorem le_of_expired {start now windowMs : ℚ} (h : expired options start now windowMs = true) :
    windowMs ≤ now - start := by
  unfold expired at h
  split at h
  · exact of_decide_eq_true h
  · exact le_of_lt (of_decide_eq_true h)

/-- A bucket that ends in a short interval was made before it. -/
theorem allowance_ended (limit : ℕ) {now : ℚ} (hshort : now - since < limits.windowMs k)
    (h : ∀ bucket, before = some bucket →
      expired options bucket.start now (limits.windowMs k) = true) :
    limit ≤ allowance limit since before := by
  cases before with
  | none => exact Nat.le_refl _
  | some bucket =>
      have hended := le_of_expired (h bucket rfl)
      have hstart : ¬ since ≤ bucket.start := by linarith
      rw [allowance, if_neg hstart]
      exact Nat.le_add_left _ _

theorem allowance_step (hlimit : limits.limit k < MAX_SAFE_INTEGER)
    (h : BucketStep options limits taken k before after) (hsince : since ≤ taken.call.now)
    (hshort : taken.call.now - since < limits.windowMs k) :
    allowance (limits.limit k) since after + (if taken.allows k then 1 else 0) ≤
      allowance (limits.limit k) since before := by
  cases h with
  | same hallows =>
      rw [hallows]
      exact Nat.le_refl _
  | ended hallows hended =>
      rw [hallows]
      exact allowance_ended _ hshort hended
  | @hit bucket hkey hlive hallows =>
      rw [allowance, allowance, Nat.add_right_comm]
      exact Nat.add_le_add_right (remainder_hit _ hlimit hallows) _
  | fresh hkey hended hallows =>
      have hbefore := allowance_ended (limits.limit k) hshort hended
      refine Nat.le_trans ?_ hbefore
      rw [allowance, if_pos hsince, remainder]
      dsimp only
      split
      · have hle := hallows.mp ‹_›
        omega
      · omega

/-- A call of the key in the interval that was allowed. -/
def Taken.allowsWithin (k : String) (since till : ℚ) (taken : Taken) : Bool :=
  taken.allows k && decide (since ≤ taken.call.now) && decide (taken.call.now ≤ till)

theorem takeOne_call (call : TakeCall) : (takeOne options limits buckets call).call = call := by
  unfold takeOne
  split <;> rfl

theorem takeOne_before (call : TakeCall) :
    (takeOne options limits buckets call).before = buckets := by
  unfold takeOne
  split <;> rfl

theorem call_mem_of_takeAll (h : taken ∈ takeAll options limits buckets calls) :
    taken.call ∈ calls := by
  induction calls generalizing buckets with
  | nil => cases h
  | cons call calls ih =>
      rcases List.mem_cons.mp h with rfl | hrest
      · rw [takeOne_call]
        exact List.mem_cons_self
      · exact List.mem_cons_of_mem call (ih hrest)

/-- From the start of a short interval on, a key is allowed what its bucket leaves. -/
theorem allowed_le_allowance (hdeny : options.eviction = .deny)
    (hlimit : limits.limit k < MAX_SAFE_INTEGER) (h : Steady options limits buckets)
    (hclock : calls.Pairwise fun call later => call.now ≤ later.now)
    (hsince : ∀ call ∈ calls, since ≤ call.now) (hshort : till - since < limits.windowMs k) :
    (takeAll options limits buckets calls).countP (Taken.allowsWithin k since till) ≤
      allowance (limits.limit k) since (Keyed.find Bucket.key k buckets) := by
  induction calls generalizing buckets with
  | nil => exact Nat.zero_le _
  | cons call calls ih =>
      obtain ⟨hfirst, hrest⟩ := List.forall_mem_cons.mp hsince
      obtain ⟨hlater, hclock⟩ := List.pairwise_cons.mp hclock
      by_cases htill : call.now ≤ till
      · have hbegun : since ≤ (takeOne options limits buckets call).call.now := by
          rwa [takeOne_call]
        have hstep := allowance_step hlimit (takeOne_step hdeny h call k) hbegun
          (by rw [takeOne_call]; linarith)
        have hnext := ih (takeOne_steady hdeny h call) hclock hrest
        have hspent : (if (takeOne options limits buckets call).allowsWithin k since till then 1
            else 0) ≤ if (takeOne options limits buckets call).allows k then 1 else 0 := by
          rw [Taken.allowsWithin]
          cases (takeOne options limits buckets call).allows k <;> simp
          split <;> omega
        rw [takeAll, List.countP_cons]
        omega
      · rw [List.countP_eq_zero.mpr]
        · exact Nat.zero_le _
        · intro taken htaken hwithin
          rw [Taken.allowsWithin, Bool.and_eq_true, decide_eq_true_eq] at hwithin
          rcases List.mem_cons.mp (call_mem_of_takeAll htaken) with hcall | hmem
          · exact htill (hcall ▸ hwithin.2)
          · exact htill ((hlater _ hmem).trans hwithin.2)

/-- In a short interval a key is allowed no more than twice its limit. -/
theorem allowed_le_twice (hdeny : options.eviction = .deny)
    (hlimit : limits.limit k < MAX_SAFE_INTEGER) (h : Steady options limits buckets)
    (hclock : calls.Pairwise fun call later => call.now ≤ later.now)
    (hshort : till - since < limits.windowMs k) :
    (takeAll options limits buckets calls).countP (Taken.allowsWithin k since till) ≤
      2 * limits.limit k := by
  induction calls generalizing buckets with
  | nil => exact Nat.zero_le _
  | cons call calls ih =>
      obtain ⟨hlater, hclock'⟩ := List.pairwise_cons.mp hclock
      by_cases hsince : since ≤ call.now
      · refine Nat.le_trans (allowed_le_allowance hdeny hlimit h hclock ?_ hshort) ?_
        · exact List.forall_mem_cons.mpr
            ⟨hsince, fun later hmem => hsince.trans (hlater later hmem)⟩
        · exact allowance_le _ _ _
      · have hout : (takeOne options limits buckets call).allowsWithin k since till = false := by
          rw [Taken.allowsWithin, takeOne_call, decide_eq_false hsince, Bool.and_false,
            Bool.false_and]
        rw [takeAll, List.countP_cons, hout]
        exact ih (takeOne_steady hdeny h call) hclock'

end Allowance

section Resets

variable {options : FixedWindowOptions} {limits : KeyLimits} {buckets : Buckets} {taken : Taken}
  {calls : List TakeCall} {k : String} {before after : Option Bucket}

/-- The first call after a reset and the reset itself leave no more than the limit. -/
theorem remainder_first (hlimit : limits.limit k < MAX_SAFE_INTEGER)
    (h : BucketStep options limits taken k before after) :
    remainder (limits.limit k) after + (if taken.allows k then 1 else 0) ≤ limits.limit k := by
  cases h with
  | same hallows =>
      rw [hallows]
      exact remainder_le _ _
  | ended hallows _ =>
      rw [hallows]
      exact Nat.zero_le _
  | hit _ _ hallows =>
      exact Nat.le_trans (remainder_hit _ hlimit hallows) (remainder_le _ _)
  | fresh _ _ hallows =>
      rw [remainder]
      dsimp only
      split
      · have hle := hallows.mp ‹_›
        omega
      · omega

theorem remainder_step (hdeny : options.eviction = .deny)
    (hlimit : limits.limit k < MAX_SAFE_INTEGER) (h : Steady options limits buckets)
    (call : TakeCall)
    (hreset : (takeOne options limits buckets call).resets options limits k = false) :
    remainder (limits.limit k)
        (Keyed.find Bucket.key k (takeOne options limits buckets call).after) +
      (if (takeOne options limits buckets call).allows k then 1 else 0) ≤
      remainder (limits.limit k) (Keyed.find Bucket.key k buckets) := by
  have hstep := takeOne_step hdeny h call k
  generalize hbefore : Keyed.find Bucket.key k buckets = before at hstep
  generalize hafter : Keyed.find Bucket.key k (takeOne options limits buckets call).after = after
    at hstep
  cases hstep with
  | same hallows =>
      rw [hallows]
      exact Nat.le_refl _
  | ended hallows _ =>
      rw [hallows]
      exact Nat.zero_le _
  | hit _ _ hallows => exact remainder_hit _ hlimit hallows
  | fresh hkey hended _ =>
      have hall : before.all (fun bucket => expired options bucket.start
          (takeOne options limits buckets call).call.now (limits.windowMs k)) = true := by
        cases before with
        | none => rfl
        | some bucket => exact hended bucket rfl
      rw [Taken.resets, takeOne_before, hbefore, hall, hafter, decide_eq_true hkey] at hreset
      cases hreset

/-- Without a reset, a key is allowed what is left in its bucket. -/
theorem allowed_le_remainder (hdeny : options.eviction = .deny)
    (hlimit : limits.limit k < MAX_SAFE_INTEGER) {mid rest : List Taken}
    (h : Steady options limits buckets)
    (htaken : takeAll options limits buckets calls = mid ++ rest)
    (hreset : ∀ taken ∈ mid, taken.resets options limits k = false) :
    mid.countP (Taken.allows · k) ≤
      remainder (limits.limit k) (Keyed.find Bucket.key k buckets) := by
  induction mid generalizing buckets calls with
  | nil => exact Nat.zero_le _
  | cons taken mid ih =>
      cases calls with
      | nil => cases htaken
      | cons call calls =>
          obtain ⟨rfl, hrest⟩ := List.cons.inj htaken
          obtain ⟨hfirst, hlater⟩ := List.forall_mem_cons.mp hreset
          have hstep := remainder_step hdeny hlimit h call hfirst
          have hnext := ih (takeOne_steady hdeny h call) hrest hlater
          rw [List.countP_cons]
          omega

/-- From one call up to the next reset, a key is allowed no more than its limit. -/
theorem allowed_between_resets (hdeny : options.eviction = .deny)
    (hlimit : limits.limit k < MAX_SAFE_INTEGER) {front mid rest : List Taken}
    (h : Steady options limits buckets)
    (htaken : takeAll options limits buckets calls = front ++ taken :: (mid ++ rest))
    (hreset : ∀ taken ∈ mid, taken.resets options limits k = false) :
    (taken :: mid).countP (Taken.allows · k) ≤ limits.limit k := by
  induction front generalizing buckets calls with
  | nil =>
      cases calls with
      | nil => cases htaken
      | cons call calls =>
          obtain ⟨rfl, hrest⟩ := List.cons.inj htaken
          have hfirst := remainder_first hlimit (takeOne_step hdeny h call k)
          have hnext := allowed_le_remainder hdeny hlimit (takeOne_steady hdeny h call) hrest hreset
          rw [List.countP_cons]
          omega
  | cons earlier front ih =>
      cases calls with
      | nil => cases htaken
      | cons call calls =>
          obtain ⟨-, hrest⟩ := List.cons.inj htaken
          exact ih (takeOne_steady hdeny h call) hrest

end Resets

section Bounds

variable {options : FixedWindowOptions} {limits : KeyLimits} {buckets : Buckets}
  {calls : List TakeCall}

/-- What every call does from steady buckets holds of every call of a history. -/
theorem takeAll_forall (hdeny : options.eviction = .deny) {p : Taken → Prop}
    (hp : ∀ buckets, Steady options limits buckets → ∀ call,
      p (takeOne options limits buckets call))
    (h : Steady options limits buckets) :
    ∀ taken ∈ takeAll options limits buckets calls, p taken := by
  induction calls generalizing buckets with
  | nil => exact List.forall_mem_nil _
  | cons call calls ih =>
      exact List.forall_mem_cons.mpr ⟨hp buckets h call, ih (takeOne_steady hdeny h call)⟩

/-- A call leaves the bucket of another key that has not ended. -/
theorem takeOne_spares (hdeny : options.eviction = .deny) (h : Steady options limits buckets)
    (call : TakeCall) {bucket : Bucket} (hmem : bucket ∈ buckets) (hkey : bucket.key ≠ call.key)
    (hlive : expired options bucket.start call.now bucket.windowMs = false) :
    bucket ∈ (takeOne options limits buckets call).after := by
  have hbefore := Keyed.find_of_mem h.distinct hmem
  have hwindow := h.window bucket.key bucket hbefore
  have hstep := takeOne_step hdeny h call bucket.key
  rw [hbefore] at hstep
  generalize hafter : Keyed.find Bucket.key bucket.key
    (takeOne options limits buckets call).after = after at hstep
  cases hstep with
  | same => exact Keyed.mem_of_find hafter
  | ended _ hended =>
      have hover := hended bucket rfl
      rw [takeOne_call, ← hwindow, hlive] at hover
      cases hover
  | hit hsame => exact absurd (takeOne_call call ▸ hsame).symm hkey
  | fresh hsame => exact absurd (takeOne_call call ▸ hsame).symm hkey

/-- Over any history of a limiter that refuses new keys when it is full, a key is allowed at most
twice its limit in an interval shorter than its window and at most its limit up to the next reset
of its bucket, no call removes a bucket of another key that has not ended, and the table does not
outgrow its bound. -/
theorem deny_limiter_bounds (options : FixedWindowOptions) (hdeny : options.eviction = .deny)
    (limits : KeyLimits) (calls : List TakeCall)
    (hclock : calls.Pairwise fun call later => call.now ≤ later.now) :
    let history := takeAll options limits [] calls
    (∀ k, limits.limit k < MAX_SAFE_INTEGER →
      (∀ since till, till - since < limits.windowMs k →
        history.countP (Taken.allowsWithin k since till) ≤ 2 * limits.limit k) ∧
      ∀ front taken mid rest, history = front ++ taken :: (mid ++ rest) →
        (∀ taken ∈ mid, taken.resets options limits k = false) →
        (taken :: mid).countP (Taken.allows · k) ≤ limits.limit k) ∧
    ∀ taken ∈ history, taken.after.length ≤ options.maxKeys ∧
      ∀ bucket ∈ taken.before, bucket.key ≠ taken.call.key →
        expired options bucket.start taken.call.now bucket.windowMs = false →
        bucket ∈ taken.after := by
  intro history
  have hsteady : Steady options limits [] := steady_nil
  refine ⟨fun k hlimit => ⟨?_, ?_⟩, takeAll_forall hdeny (fun buckets h call => ⟨?_, ?_⟩) hsteady⟩
  · exact fun since till hshort => allowed_le_twice hdeny hlimit hsteady hclock hshort
  · exact fun front taken mid rest htaken hreset =>
      allowed_between_resets hdeny hlimit hsteady htaken hreset
  · exact (takeOne_steady hdeny h call).room
  · rw [takeOne_call, takeOne_before]
    exact fun bucket hmem hkey hlive => takeOne_spares hdeny h call hmem hkey hlive

def oneSlot : FixedWindowOptions := { windowMs := 10, maxKeys := 1, eviction := .deny }

def oneEach : KeyLimits := { limit := fun _ => 1, windowMs := fun _ => 10 }

def turns : List TakeCall := [⟨"a", 0⟩, ⟨"a", 5⟩, ⟨"b", 6⟩, ⟨"a", 10⟩, ⟨"b", 20⟩]

theorem deny_limiter_bounds_oneSlot :
    let history := takeAll oneSlot oneEach [] turns
    history.map Taken.decision = [some .allowed, some (.refused 5), some (.refused 4),
      some .allowed, some .allowed] ∧
    history.countP (Taken.allowsWithin "a" 1 10) ≤ 2 * 1 ∧
    (history.take 3).countP (Taken.allows · "a") ≤ 1 ∧
    ∀ taken ∈ history, taken.after.length ≤ 1 := by
  intro history
  obtain ⟨hkeys, hall⟩ := deny_limiter_bounds oneSlot rfl oneEach turns (by decide +kernel)
  obtain ⟨htwice, honce⟩ := hkeys "a" (by decide)
  refine ⟨by decide +kernel, htwice 1 10 (by decide +kernel), ?_, fun taken htaken =>
    (hall taken htaken).1⟩
  have hquiet : ((history.take 3).drop 1).all
      (fun taken => !taken.resets oneSlot oneEach "a") = true := by
    decide +kernel
  refine honce [] (takeOne oneSlot oneEach [] ⟨"a", 0⟩) ((history.take 3).drop 1) (history.drop 3)
    rfl fun taken htaken => ?_
  simpa using List.all_eq_true.mp hquiet taken htaken

/-- The greatest limit that is accepted. -/
def highest : KeyLimits := { limit := fun _ => MAX_SAFE_INTEGER, windowMs := fun _ => 1 }

theorem takeOne_highest (count : ℕ) : takeOne oneSlot highest [⟨"a", 0, count, 1⟩] ⟨"a", 0⟩ =
    ⟨⟨"a", 0⟩, [⟨"a", 0, count, 1⟩], [⟨"a", 0, min (count + 1) MAX_SAFE_INTEGER, 1⟩],
      some .allowed⟩ := by
  have hlive : expired oneSlot 0 0 1 = false := by decide +kernel
  have hkept : dropEnded oneSlot [⟨"a", 0, count, 1⟩] "a" 0 1 = [⟨"a", 0, count, 1⟩] := by
    rw [dropEnded, Keyed.find_singleton, if_pos rfl]
    exact if_neg (by rw [hlive]; decide)
  have hopen : openBucket oneSlot [⟨"a", 0, count, 1⟩] "a" 0 1 =
      .ok (⟨"a", 0, count, 1⟩, [⟨"a", 0, count, 1⟩]) := by
    rw [openBucket, hkept]
    rfl
  have hvalid : ¬ ((MAX_SAFE_INTEGER : ℤ) < 0 ∨ (MAX_SAFE_INTEGER : ℤ) < MAX_SAFE_INTEGER ∨
      (1 : ℚ) ≤ 0) := by
    rintro (hneg | hover | hwindow)
    · omega
    · omega
    · exact absurd hwindow (by decide +kernel)
  refine takeOne_ok ((if_neg hvalid).trans ?_)
  rw [show highest.windowMs "a" = 1 from rfl, hopen]
  exact if_pos (Nat.cast_le.mpr (Nat.min_le_right _ _))

/-- A counter that has stopped at the greatest limit refuses nothing. -/
theorem saturated_counter_allows (count n : ℕ) :
    (takeAll oneSlot highest [⟨"a", 0, count, 1⟩] (List.replicate n ⟨"a", 0⟩)).countP
      (Taken.allowsWithin "a" 0 0) = n := by
  induction n generalizing count with
  | zero => rfl
  | succ n ih =>
      rw [List.replicate_succ, takeAll, takeOne_highest, List.countP_cons, ih]
      rfl

theorem highest_allows (n : ℕ) :
    (takeAll oneSlot highest [] (List.replicate (n + 1) ⟨"a", 0⟩)).countP
      (Taken.allowsWithin "a" 0 0) = n + 1 := by
  have hfirst : takeOne oneSlot highest [] ⟨"a", 0⟩ =
      ⟨⟨"a", 0⟩, [], [⟨"a", 0, 1, 1⟩], some .allowed⟩ :=
    takeOne_ok (by decide +kernel)
  rw [List.replicate_succ, takeAll, hfirst, List.countP_cons, saturated_counter_allows]
  rfl

/-- A limit that is the greatest safe integer is no limit. -/
theorem highest_limit_unbounded :
    ¬ ∀ (options : FixedWindowOptions) (limits : KeyLimits) (calls : List TakeCall),
      options.eviction = .deny → (calls.Pairwise fun call later => call.now ≤ later.now) →
      ∀ k since till, till - since < limits.windowMs k →
        (takeAll options limits [] calls).countP (Taken.allowsWithin k since till) ≤
          2 * limits.limit k := by
  intro h
  have hcount := h oneSlot highest (List.replicate (2 * MAX_SAFE_INTEGER + 1) ⟨"a", 0⟩) rfl
    (List.pairwise_replicate.mpr (.inr (le_refl _))) "a" 0 0 (by decide +kernel)
  rw [highest_allows] at hcount
  have hless (limit : ℕ) : ¬ 2 * limit + 1 ≤ 2 * limit := Nat.not_succ_le_self _
  exact hless MAX_SAFE_INTEGER hcount

end Bounds

end Kyberion.Foundation.FixedWindowLimiter
