import Kyberion.Keyed
import Mathlib.Algebra.Order.Field.Rat

/-!
Fixed windows. A key has a bucket that counts its calls since the bucket was made; the bucket ends
with its window, and is removed when the key comes again or when the table has no room.
-/

namespace Kyberion.Foundation

inductive Eviction
  | lru | fifo | deny
  deriving DecidableEq

structure FixedWindowOptions where
  windowMs : ℚ
  maxKeys : ℕ
  eviction : Eviction
  /-- A bucket has ended at the end of its window, and not only after it. -/
  expireAtBoundary : Bool := true

inductive FixedWindowDecision
  | allowed
  | refused (retryAfterMs : ℚ)
  deriving DecidableEq

structure Bucket where
  key : String
  start : ℚ
  count : ℕ
  windowMs : ℚ
  deriving DecidableEq

/-- `Number.MAX_SAFE_INTEGER` -/
def MAX_SAFE_INTEGER : ℕ := 2 ^ 53 - 1

namespace FixedWindowLimiter

variable (options : FixedWindowOptions)

def expired (start now windowMs : ℚ) : Bool :=
  if options.expireAtBoundary then windowMs ≤ now - start else windowMs < now - start

/-- The buckets in the order of the map. -/
abbrev Buckets := List Bucket

/-- The buckets without the one of the key, when that has ended. -/
def dropEnded (buckets : Buckets) (key : String) (now windowMs : ℚ) : Buckets :=
  match Keyed.find Bucket.key key buckets with
  | some bucket =>
      if expired options bucket.start now windowMs then Keyed.remove Bucket.key key buckets
      else buckets
  | none => buckets

/-- The buckets that have not ended, each by its own window. -/
def sweep (buckets : Buckets) (now : ℚ) : Buckets :=
  buckets.filter fun bucket => !expired options bucket.start now bucket.windowMs

/-- Room for one more bucket; a refusal says how long. -/
def makeRoom (buckets : Buckets) (now : ℚ) : Except ℚ Buckets :=
  if buckets.length < options.maxKeys then .ok buckets
  else
    let swept := sweep options buckets now
    if swept.length < options.maxKeys then .ok swept
    else if options.eviction = .deny then
      .error (max 1 ((swept.map fun bucket => bucket.start + bucket.windowMs - now).min?.getD 1))
    else .ok swept.tail

/-- The bucket of the key, which has not ended, and the buckets with it. -/
def openBucket (buckets : Buckets) (key : String) (now windowMs : ℚ) :
    Except ℚ (Bucket × Buckets) :=
  let kept := dropEnded options buckets key now windowMs
  match Keyed.find Bucket.key key kept with
  | none =>
      let fresh : Bucket := { key, start := now, count := 0, windowMs }
      (makeRoom options kept now).map fun room => (fresh, room ++ [fresh])
  | some bucket =>
      if options.eviction = .lru then
        .ok (bucket, Keyed.remove Bucket.key key kept ++ [bucket])
      else .ok (bucket, kept)

/-- One more call; the counter saturates. -/
def Bucket.hit (bucket : Bucket) (windowMs : ℚ) : Bucket :=
  { bucket with windowMs, count := min (bucket.count + 1) MAX_SAFE_INTEGER }

/-- `take`, with the buckets it leaves. -/
def take (buckets : Buckets) (key : String) (limit : ℤ) (now windowMs : ℚ) :
    Except String (FixedWindowDecision × Buckets) :=
  if limit < 0 ∨ MAX_SAFE_INTEGER < limit ∨ windowMs ≤ 0 then
    .error "Fixed window requires a nonnegative integer limit, positive window and finite clock"
  else
    match openBucket options buckets key now windowMs with
    | .error retryAfterMs =>
        .ok (.refused retryAfterMs, sweep options (dropEnded options buckets key now windowMs) now)
    | .ok (bucket, opened) =>
        let counted := Bucket.hit bucket windowMs
        let buckets := Keyed.update Bucket.key key (Bucket.hit · windowMs) opened
        if counted.count ≤ limit then .ok (.allowed, buckets)
        else .ok (.refused (max 1 (windowMs - (now - counted.start))), buckets)

section Spec

variable {options} {buckets buckets' : Buckets} {key : String} {limit : ℤ} {now windowMs : ℚ}
  {bucket : Bucket} {decision : FixedWindowDecision}

/-- No key has two buckets. -/
def Distinct (buckets : Buckets) : Prop :=
  (buckets.map Bucket.key).Nodup

/-- The bucket in which a call of the key is counted. -/
inductive Opens (options : FixedWindowOptions) (buckets : Buckets) (key : String)
    (now windowMs : ℚ) : Bucket → Prop
  | fresh : Opens options buckets key now windowMs ⟨key, now, 0, windowMs⟩
  | live {bucket : Bucket} : bucket ∈ buckets → bucket.key = key →
      expired options bucket.start now windowMs = false → Opens options buckets key now windowMs bucket

/-- The bucket of the key has not ended. -/
def IsLive (options : FixedWindowOptions) (buckets : Buckets) (key : String)
    (now windowMs : ℚ) : Prop :=
  ∃ bucket ∈ buckets, bucket.key = key ∧ expired options bucket.start now windowMs = false

theorem dropEnded_subset : dropEnded options buckets key now windowMs ⊆ buckets := by
  unfold dropEnded
  split
  · split
    · exact fun b hb => List.mem_of_mem_filter hb
    · exact fun b hb => hb
  · exact fun b hb => hb

theorem dropEnded_distinct (h : Distinct buckets) :
    Distinct (dropEnded options buckets key now windowMs) := by
  unfold dropEnded
  split
  · split
    · exact Keyed.nodup_remove h
    · exact h
  · exact h

theorem sweep_distinct (h : Distinct buckets) : Distinct (sweep options buckets now) :=
  List.Nodup.sublist (List.filter_sublist.map _) h

theorem find_dropEnded :
    Keyed.find Bucket.key key (dropEnded options buckets key now windowMs) =
      (Keyed.find Bucket.key key buckets).filter fun bucket =>
        !expired options bucket.start now windowMs := by
  unfold dropEnded
  cases hfind : Keyed.find Bucket.key key buckets with
  | none => exact hfind
  | some bucket =>
      dsimp only
      split
      · rename_i hended
        rw [Keyed.find_remove, if_pos rfl, Option.filter_some, hended]
        rfl
      · rename_i hlive
        rw [hfind, Option.filter_some, Bool.eq_false_of_not_eq_true hlive]
        rfl

theorem makeRoom_subset (h : makeRoom options buckets now = .ok buckets') :
    List.Sublist buckets' buckets := by
  unfold makeRoom at h
  split at h
  · obtain rfl := Except.ok.inj h
    exact List.Sublist.refl _
  · dsimp only at h
    split at h
    · obtain rfl := Except.ok.inj h
      exact List.filter_sublist
    · split at h
      · cases h
      · obtain rfl := Except.ok.inj h
        exact (List.tail_sublist _).trans List.filter_sublist

theorem makeRoom_error {retry : ℚ} (h : makeRoom options buckets now = .error retry) :
    options.maxKeys ≤ (sweep options buckets now).length := by
  unfold makeRoom at h
  split at h
  · cases h
  · dsimp only at h
    split at h
    · cases h
    · rename_i hfull
      exact Nat.le_of_not_lt hfull

/-- What opening a bucket does to the others. -/
structure Opened (options : FixedWindowOptions) (buckets : Buckets) (key : String)
    (now windowMs : ℚ) (bucket : Bucket) (opened : Buckets) : Prop where
  opens : Opens options buckets key now windowMs bucket
  distinct : Distinct opened
  mem : bucket ∈ opened
  others : ∀ other ∈ opened, other.key ≠ key → other ∈ buckets

theorem Opens.key_eq (h : Opens options buckets key now windowMs bucket) : bucket.key = key := by
  cases h with
  | fresh => rfl
  | live _ hkey _ => exact hkey

theorem openBucket_ok {opened : Buckets} (hdistinct : Distinct buckets)
    (h : openBucket options buckets key now windowMs = .ok (bucket, opened)) :
    Opened options buckets key now windowMs bucket opened := by
  have hkept : Distinct (dropEnded options buckets key now windowMs) :=
    dropEnded_distinct hdistinct
  unfold openBucket at h
  dsimp only at h
  split at h
  · rename_i hnone
    cases hroom : makeRoom options (dropEnded options buckets key now windowMs) now with
    | error retry =>
        rw [hroom] at h
        cases h
    | ok room =>
        rw [hroom] at h
        obtain ⟨rfl, rfl⟩ := Prod.mk.inj (Except.ok.inj h)
        have hsub := makeRoom_subset hroom
        refine ⟨.fresh, ?_, List.mem_append_right _ (List.mem_singleton_self _), ?_⟩
        · unfold Distinct
          rw [List.map_append, List.map_singleton, List.nodup_append]
          refine ⟨hkept.sublist (hsub.map _), List.nodup_singleton _, fun k hk k' hk' => ?_⟩
          obtain rfl := List.mem_singleton.mp hk'
          rintro rfl
          exact Keyed.find_eq_none.mp hnone ((hsub.map _).subset hk)
        · intro other hother hne
          obtain hother | hother := List.mem_append.mp hother
          · exact dropEnded_subset (hsub.subset hother)
          · exact absurd (congrArg Bucket.key (List.mem_singleton.mp hother)) hne
  · rename_i found hfound
    have hlive : expired options found.start now windowMs = false := by
      rw [find_dropEnded] at hfound
      simpa using (Option.filter_eq_some_iff.mp hfound).2
    have hmem := Keyed.mem_of_find hfound
    have hkey := Keyed.key_of_find hfound
    have hopens : Opens options buckets key now windowMs found :=
      .live (dropEnded_subset hmem) hkey hlive
    split at h
    · obtain ⟨rfl, rfl⟩ := Prod.mk.inj (Except.ok.inj h)
      refine ⟨hopens, ?_, List.mem_append_right _ (List.mem_singleton_self _), ?_⟩
      · unfold Distinct
        rw [List.map_append, List.map_singleton, List.nodup_append]
        refine ⟨Keyed.nodup_remove hkept, List.nodup_singleton _, fun k hk k' hk' => ?_⟩
        obtain rfl := List.mem_singleton.mp hk'
        obtain ⟨other, hother, rfl⟩ := List.mem_map.mp hk
        have hne : other.key ≠ key := by simpa using (List.mem_filter.mp hother).2
        exact fun heq => hne (heq.trans hkey)
      · intro other hother hne
        obtain hother | hother := List.mem_append.mp hother
        · exact dropEnded_subset (List.mem_of_mem_filter hother)
        · rw [List.mem_singleton.mp hother] at hne
          exact absurd hkey hne
    · obtain ⟨rfl, rfl⟩ := Prod.mk.inj (Except.ok.inj h)
      exact ⟨hopens, hkept, hmem, fun other hother _ => dropEnded_subset hother⟩

theorem openBucket_error {retry : ℚ} (h : openBucket options buckets key now windowMs =
      .error retry) :
    Keyed.find Bucket.key key (dropEnded options buckets key now windowMs) = none ∧
      options.maxKeys ≤ (sweep options (dropEnded options buckets key now windowMs) now).length := by
  unfold openBucket at h
  dsimp only at h
  split at h
  · rename_i hnone
    refine ⟨hnone, ?_⟩
    cases hroom : makeRoom options (dropEnded options buckets key now windowMs) now with
    | error _ => exact makeRoom_error hroom
    | ok room =>
        rw [hroom] at h
        cases h
  · split at h <;> cases h

/-- A call that found no room. -/
structure NoRoom (options : FixedWindowOptions) (buckets : Buckets) (key : String)
    (now windowMs : ℚ) (buckets' : Buckets) : Prop where
  absent : Keyed.find Bucket.key key (dropEnded options buckets key now windowMs) = none
  full : options.maxKeys ≤ buckets'.length
  swept : buckets' = sweep options (dropEnded options buckets key now windowMs) now

/-- A call that was counted. -/
structure Counted (options : FixedWindowOptions) (buckets : Buckets) (key : String)
    (now windowMs : ℚ) (bucket : Bucket) (buckets' : Buckets) : Prop where
  opens : Opens options buckets key now windowMs bucket
  distinct : Distinct buckets'
  mem : Bucket.hit bucket windowMs ∈ buckets'
  others : ∀ other ∈ buckets', other = Bucket.hit bucket windowMs ∨
    (other ∈ buckets ∧ other.key ≠ key)

theorem Opened.counted {opened : Buckets}
    (h : Opened options buckets key now windowMs bucket opened) :
    Counted options buckets key now windowMs bucket
      (Keyed.update Bucket.key key (Bucket.hit · windowMs) opened) := by
  have hkeys : (Keyed.update Bucket.key key (Bucket.hit · windowMs) opened).map Bucket.key =
      opened.map Bucket.key := Keyed.map_update _ fun _ hkey => hkey
  have hsame (other : Bucket) (hother : other ∈ opened) (hkey : other.key = key) :
      other = bucket :=
    List.inj_on_of_nodup_map h.distinct hother h.mem (hkey.trans h.opens.key_eq.symm)
  refine ⟨h.opens, ?_, ?_, fun other hother => ?_⟩
  · unfold Distinct
    rw [hkeys]
    exact h.distinct
  · have hmem : key ∈ (Keyed.update Bucket.key key (Bucket.hit · windowMs) opened).map
        Bucket.key := by
      rw [hkeys]
      exact List.mem_map.mpr ⟨bucket, h.mem, h.opens.key_eq⟩
    obtain ⟨other, hother, hkey⟩ := List.mem_map.mp hmem
    obtain ⟨-, hne⟩ | ⟨first, hfirst, hk, rfl⟩ := Keyed.mem_update h.distinct hother
    · exact absurd hkey hne
    · rwa [← hsame first hfirst hk]
  · obtain ⟨hother, hne⟩ | ⟨first, hfirst, hk, rfl⟩ := Keyed.mem_update h.distinct hother
    · exact .inr ⟨h.others other hother hne, hne⟩
    · exact .inl (by rw [hsame first hfirst hk])

/-- What a call does, by whether it found room for a counter. -/
theorem take_cases (hdistinct : Distinct buckets)
    (h : take options buckets key limit now windowMs = .ok (decision, buckets')) :
    (decision ≠ .allowed ∧ NoRoom options buckets key now windowMs buckets') ∨
      ∃ bucket, Counted options buckets key now windowMs bucket buckets' ∧
        (decision = .allowed ↔ ((Bucket.hit bucket windowMs).count : ℤ) ≤ limit) := by
  unfold take at h
  split at h
  · cases h
  · cases hopen : openBucket options buckets key now windowMs with
    | error retry =>
        rw [hopen] at h
        obtain ⟨rfl, rfl⟩ := Prod.mk.inj (Except.ok.inj h)
        obtain ⟨habsent, hfull⟩ := openBucket_error hopen
        exact .inl ⟨by rintro ⟨⟩, habsent, hfull, rfl⟩
    | ok pair =>
        obtain ⟨bucket, opened⟩ := pair
        rw [hopen] at h
        dsimp only at h
        refine .inr ⟨bucket, ?_⟩
        split at h <;> obtain ⟨rfl, rfl⟩ := Prod.mk.inj (Except.ok.inj h)
        · rename_i hle
          exact ⟨(openBucket_ok hdistinct hopen).counted, fun _ => hle, fun _ => rfl⟩
        · rename_i hover
          exact ⟨(openBucket_ok hdistinct hopen).counted, by rintro ⟨⟩, fun hle => absurd hle hover⟩

end Spec

end FixedWindowLimiter

end Kyberion.Foundation
