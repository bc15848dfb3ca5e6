import Kyberion.Store.Coverage

/-!
A traversal sees every key at least as new as when it began. While a round
reads, what it has yielded is the kept copies followed by rows that the store
still covers; a live read that meets no newer unpublished copy completes it. A
round that did meet one has to be followed by another.
-/

namespace Kyberion.Store

open Transition

universe u v

section Lists

variable {β : Type u} {κ : Type v} (fmt : Format β κ)

theorem yielded_append (xs ys : List (Row β)) :
    fmt.yielded (xs ++ ys) = fmt.yielded xs ++ fmt.yielded ys :=
  List.filter_append ..

theorem readable_of_rowKey {r : Row β} {k : κ} (h : fmt.onRows.rowKey r = some k) :
    fmt.readable r.line = true := by
  unfold Format.rowKey at h
  split at h
  · assumption
  · cases h

theorem yielded_covers (xs : List (Row β)) :
    Covers fmt.onRows.rowKey Row.stamp (fmt.yielded xs) xs :=
  .of_subset (List.filter_subset_self _)

theorem lastFor_yielded [DecidableEq κ] (k : κ) (xs : List (Row β)) :
    lastFor fmt.onRows.rowKey k (fmt.yielded xs) = lastFor fmt.onRows.rowKey k xs :=
  lastFor_filter fun _ _ hk => readable_of_rowKey fmt hk

/-- Looking a copy up by name in a listing with distinct names. -/
theorem find_name {copies : List (Parked (Row β))}
    (h : copies.Pairwise fun a b => a.name < b.name) {n : ℕ} (hn : n < copies.length) :
    copies.find? (fun copy => copy.name = copies[n].name) = some copies[n] := by
  induction copies generalizing n with
  | nil => simp at hn
  | cons c copies ih =>
      obtain ⟨hhead, htail⟩ := List.pairwise_cons.mp h
      cases n with
      | zero => simp
      | succ n =>
          have hn' : n < copies.length := by simpa using hn
          have hne : c.name ≠ copies[n].name := Nat.ne_of_lt (hhead _ (List.getElem_mem hn'))
          simp [hne, ih htail hn']

theorem copyLines_getElem {s : State (Row β)} (h : s.staging.Pairwise fun a b => a.name < b.name)
    {n : ℕ} (hn : n < s.staging.length) :
    s.copyLines s.staging[n].name = s.staging[n].lines := by
  rw [State.copyLines, find_name h hn]

theorem linesOf_take_succ {copies : List (Parked (Row β))} {n : ℕ} (hn : n < copies.length) :
    linesOf (copies.take (n + 1)) = linesOf (copies.take n) ++ copies[n].lines := by
  rw [List.take_succ_eq_append_getElem hn, linesOf_append, linesOf_single]

end Lists

variable {β : Type u} {κ : Type v} [DecidableEq κ]

/-- Every key the store held when the traversal began was yielded at least as new. -/
def Complete (fmt : Format β κ) (begun out : List (Row β)) : Prop :=
  ∀ a ∈ begun, ∀ k, fmt.onRows.rowKey a = some k →
    ∃ b, lastFor fmt.onRows.rowKey k out = some b ∧ a.stamp ≤ b.stamp

/-- What the round in progress has read of the copies listed at its start. -/
structure Reading (fmt : Format β κ) (s : Traversal β) (snapshot : List (Parked (Row β)))
    (n : ℕ) (copied : List (Row β)) : Prop where
  within : n ≤ snapshot.length
  listed : s.reader.listed = snapshot.map (·.name)
  todo : s.reader.todo = (snapshot.drop n).map (·.name)
  names : snapshot.Pairwise fun a b => a.name < b.name
  kept : s.store.kept <+: snapshot
  mark : s.reader.mark ≤ s.store.nextPark
  out : s.reader.roundOut = fmt.yielded (linesOf (s.store.kept.take n)) ++ copied
  first : n ≤ s.store.kept.length → copied = []
  covered : Covers fmt.onRows.rowKey Row.stamp copied s.store.active
  /-- As long as the run of the listing is unpublished, nothing listed is gone. -/
  quiet : s.store.liveRestored = false → s.store.copies ≠ [] →
    (∀ copy ∈ s.store.copies, copy.name < s.reader.mark) →
    snapshot = s.store.staging ∧ s.reader.roundOut = fmt.yielded (linesOf (snapshot.take n))

structure ReaderOk (fmt : Format β κ) (s : Traversal β) : Prop where
  /-- What the traversal must still find is in the kept copies or the active part. -/
  target : s.reader.phase ≠ .notStarted → Covers fmt.onRows.rowKey Row.stamp s.reader.begun
    (linesOf s.store.kept ++ s.store.active)
  reading : s.reader.phase = .reading → ∃ snapshot n copied, Reading fmt s snapshot n copied
  tail : s.reader.phase ≠ .notStarted → ∃ earlier, s.reader.out = earlier ++ s.reader.roundOut
  relisting : s.reader.phase = .relisting → s.reader.missed = false →
    Complete fmt s.reader.begun s.reader.out
  done : s.reader.phase = .done → Complete fmt s.reader.begun s.reader.out

/-- Every round that met an unpublished copy newer than its listing is followed by another,
and no restore replaces a live file. -/
def followsUp (s : Traversal β) : Move β → Bool
  | .tick => replacesNothing s.store (.tick false [])
  | .read =>
      !(s.reader.phase = .relisting && s.reader.missed) || s.reader.rereads s.store
  | _ => true

/-- A round answers like the log in append order of everything that counts. -/
theorem lastFor_round {fmt : Format β κ} {s : Traversal β} {snapshot : List (Parked (Row β))}
    {n : ℕ} {copied : List (Row β)} (hread : Reading fmt s snapshot n copied)
    (htodo : s.reader.todo = [])
    (hmissed : s.store.unpublishedSince s.reader.mark = false) (k : κ) :
    lastFor fmt.onRows.rowKey k (s.reader.roundOut ++ fmt.yielded (s.store.live.getD [])) =
      lastFor fmt.onRows.rowKey k (linesOf s.store.kept ++ s.store.active) := by
  have hn : snapshot.length ≤ n := by
    have hdrop := hread.todo
    rw [htodo] at hdrop
    simpa using hdrop.symm
  by_cases hquiet : s.store.liveRestored = false ∧ s.store.copies ≠ []
  · obtain ⟨hopen, hne⟩ := hquiet
    have hold : ∀ copy ∈ s.store.copies, copy.name < s.reader.mark := by
      intro copy hcopy
      simp only [State.unpublishedSince, hopen, Bool.not_false, Bool.true_and,
        List.any_eq_false, decide_eq_true_eq] at hmissed
      exact Nat.lt_of_not_le (hmissed copy hcopy)
    obtain ⟨hsnapshot, hout⟩ := hread.quiet hopen hne hold
    rw [hout, List.take_of_length_le hn, hsnapshot, ← yielded_append, lastFor_yielded]
    simp [State.staging, linesOf_append, State.active, hopen]
  · have hactive : s.store.active = s.store.live.getD [] := by
      unfold State.active
      cases hopen : s.store.liveRestored with
      | true => simp
      | false =>
          have hnone : s.store.copies = [] := by
            by_contra hne
            exact hquiet ⟨hopen, hne⟩
          simp [hnone]
    have hkept : s.store.kept.take n = s.store.kept :=
      List.take_of_length_le (Nat.le_trans hread.kept.length_le hn)
    rw [hread.out, hkept, lastFor_append, lastFor_append, lastFor_append, lastFor_yielded,
      lastFor_yielded, hactive]
    cases hlive : lastFor fmt.onRows.rowKey k (s.store.live.getD []) with
    | some c => simp
    | none =>
        have hcopied : lastFor fmt.onRows.rowKey k copied = none := by
          rw [lastFor_eq_none]
          intro a ha hk
          obtain ⟨b, hb, hkb, -⟩ := hread.covered a ha k hk
          rw [hactive] at hb
          exact lastFor_eq_none.mp hlive b hb hkb
        simp [hcopied]

/-- The end of a round that missed nothing. -/
theorem complete_of_live_read {fmt : Format β κ} {s : Traversal β} {clock : ℕ}
    (hord : Ordered fmt s.store clock) {snapshot : List (Parked (Row β))} {n : ℕ}
    {copied : List (Row β)} (hread : Reading fmt s snapshot n copied)
    (htodo : s.reader.todo = [])
    (htarget : Covers fmt.onRows.rowKey Row.stamp s.reader.begun
      (linesOf s.store.kept ++ s.store.active))
    (hmissed : s.store.unpublishedSince s.reader.mark = false) :
    Complete fmt s.reader.begun
      (s.reader.roundOut ++ fmt.yielded (s.store.live.getD [])) := by
  intro a ha k hk
  obtain ⟨b, hb, hkb, hab⟩ := htarget a ha k hk
  obtain ⟨c, hc⟩ := exists_lastFor hb hkb
  refine ⟨c, ?_, Nat.le_trans hab (hord.order.lastFor_newest hb hkb hc)⟩
  rw [lastFor_round hread htodo hmissed, hc]

theorem Complete.append {fmt : Format β κ} {begun earlier out : List (Row β)}
    (h : Complete fmt begun out) : Complete fmt begun (earlier ++ out) := by
  intro a ha k hk
  obtain ⟨b, hb, hab⟩ := h a ha k hk
  refine ⟨b, ?_, hab⟩
  rw [lastFor_append, hb]
  rfl

omit [DecidableEq κ] in
/-- A listing starts a round about the copies on disk. -/
theorem reading_begin {fmt : Format β κ} {s : Traversal β} {clock : ℕ}
    (hord : Ordered fmt s.store clock) (r : Reader β) (round : ℕ) :
    Reading fmt { s with reader := r.beginRound s.store round } s.store.staging 0 [] where
  within := Nat.zero_le _
  listed := rfl
  todo := rfl
  names := hord.names
  kept := List.prefix_append _ _
  mark := Nat.le_refl _
  out := by simp [Reader.beginRound, linesOf, Format.yielded]
  first _ := rfl
  covered := .of_subset (by simp)
  quiet _ _ _ := ⟨rfl, by simp [Reader.beginRound, linesOf, Format.yielded]⟩

omit [DecidableEq κ] in
/-- A name past the kept copies is read from the running rewrite's copies, or is gone. -/
theorem covers_copyLines {fmt : Format β κ} {s : Traversal β} {clock : ℕ}
    (hord : Ordered fmt s.store clock) {snapshot : List (Parked (Row β))} {n : ℕ}
    {copied : List (Row β)} (hread : Reading fmt s snapshot n copied) (hn : n < snapshot.length)
    (hlate : s.store.kept.length ≤ n) :
    Covers fmt.onRows.rowKey Row.stamp (s.store.copyLines snapshot[n].name) s.store.active := by
  unfold State.copyLines
  split
  · rename_i copy hfind
    have hname : copy.name = snapshot[n].name := by simpa using List.find?_some hfind
    rcases List.mem_append.mp (List.mem_of_find?_eq_some hfind) with hkept | hcopy
    · exfalso
      obtain ⟨j, hj, rfl⟩ := List.getElem_of_mem hkept
      have hjs : j < snapshot.length := by omega
      have hpre : s.store.kept[j] = snapshot[j] := hread.kept.getElem hj
      have hlt := List.pairwise_iff_getElem.mp hread.names j n (by omega) hn (by omega)
      rw [hpre] at hname
      omega
    · refine Covers.trans (.of_subset ?_) hord.copies_covered
      intro r hr
      exact List.mem_flatten.mpr ⟨copy.lines, List.mem_map.mpr ⟨copy, hcopy, rfl⟩, hr⟩
  · exact .of_subset (by simp)

omit [DecidableEq κ] in
/-- The next copy of the listing. -/
theorem reading_copy {fmt : Format β κ} {s : Traversal β} {clock : ℕ}
    (hord : Ordered fmt s.store clock) {snapshot : List (Parked (Row β))} {n : ℕ}
    {copied : List (Row β)} (hread : Reading fmt s snapshot n copied) {name : ℕ} {rest : List ℕ}
    (htodo : s.reader.todo = name :: rest) :
    ∃ copied', Reading fmt { s with reader :=
      { s.reader.emit (fmt.yielded (s.store.copyLines name)) with todo := rest } }
      snapshot (n + 1) copied' := by
  have hn : n < snapshot.length := by
    by_contra hge
    have hdrop := hread.todo
    rw [htodo, List.drop_of_length_le (Nat.le_of_not_lt hge)] at hdrop
    cases hdrop
  have hcons := hread.todo
  rw [htodo, List.drop_eq_getElem_cons hn, List.map_cons] at hcons
  obtain ⟨rfl, rfl⟩ := List.cons.inj hcons
  have hquiet : s.store.liveRestored = false → s.store.copies ≠ [] →
      (∀ copy ∈ s.store.copies, copy.name < s.reader.mark) →
      snapshot = s.store.staging ∧
        s.reader.roundOut ++ fmt.yielded (s.store.copyLines snapshot[n].name) =
          fmt.yielded (linesOf (snapshot.take (n + 1))) := by
    intro hopen hne hold
    obtain ⟨rfl, hout⟩ := hread.quiet hopen hne hold
    refine ⟨rfl, ?_⟩
    rw [hout, copyLines_getElem hord.names hn, ← yielded_append, ← linesOf_take_succ hn]
  by_cases hearly : n < s.store.kept.length
  · have hpre : s.store.kept[n] = snapshot[n] := hread.kept.getElem hearly
    have hlines : s.store.copyLines snapshot[n].name = s.store.kept[n].lines := by
      have hstaging : n < s.store.staging.length := by
        rw [State.staging, List.length_append]
        omega
      have hget : s.store.staging[n] = s.store.kept[n] := List.getElem_append_left hearly
      rw [← hpre, ← hget, copyLines_getElem hord.names hstaging]
    have hnone : copied = [] := hread.first (Nat.le_of_lt hearly)
    subst hnone
    refine ⟨[], hn, hread.listed, rfl, hread.names, hread.kept, hread.mark, ?_,
      fun _ => rfl, .of_subset (by simp), hquiet⟩
    change s.reader.roundOut ++ _ = _
    rw [hread.out, hlines, List.append_nil, List.append_nil, ← yielded_append,
      ← linesOf_take_succ hearly]
  · have hlate : s.store.kept.length ≤ n := Nat.le_of_not_lt hearly
    refine ⟨copied ++ fmt.yielded (s.store.copyLines snapshot[n].name), hn, hread.listed, rfl,
      hread.names, hread.kept, hread.mark, ?_, ?_, ?_, hquiet⟩
    · change s.reader.roundOut ++ _ = _
      rw [hread.out, List.append_assoc, List.take_of_length_le hlate,
        List.take_of_length_le (Nat.le_succ_of_le hlate)]
    · intro hle
      exact absurd hle (Nat.not_le_of_lt (Nat.lt_succ_of_le hlate))
    · exact hread.covered.append
        ((yielded_covers fmt _).trans (covers_copyLines hord hread hn hlate))

omit [DecidableEq κ] in
/-- A store step that retains what counts, and parks above the mark if it parks. -/
theorem Reading.stable {fmt : Format β κ} {s t : Traversal β} {snapshot : List (Parked (Row β))}
    {n : ℕ} {copied : List (Row β)} (h : Reading fmt s snapshot n copied)
    (hreader : t.reader = s.reader) (hretains : Retains fmt s.store t.store)
    (hnext : s.store.nextPark ≤ t.store.nextPark)
    (hquiet : t.store.liveRestored = false → t.store.copies ≠ [] →
      (∀ copy ∈ t.store.copies, copy.name < s.reader.mark) →
      s.store.liveRestored = false ∧ t.store.copies = s.store.copies) :
    Reading fmt t snapshot n copied := by
  refine ⟨h.within, ?_, ?_, h.names, ?_, ?_, ?_, ?_, h.covered.trans hretains.active, ?_⟩
  · rw [hreader, h.listed]
  · rw [hreader, h.todo]
  · rw [hretains.kept]
    exact h.kept
  · rw [hreader]
    exact Nat.le_trans h.mark hnext
  · rw [hreader, hretains.kept, h.out]
  · rw [hretains.kept]
    exact h.first
  · intro hopen hne hold
    rw [hreader] at hold ⊢
    obtain ⟨hopen', hcopies⟩ := hquiet hopen hne hold
    have hstaging : t.store.staging = s.store.staging := by
      rw [State.staging, State.staging, hretains.kept, hcopies]
    rw [hstaging]
    rw [hcopies] at hne hold
    exact h.quiet hopen' hne hold

omit [DecidableEq κ] in
theorem Effect.reading {fmt : Format β κ} {s t : Traversal β} {snapshot : List (Parked (Row β))}
    {n : ℕ} {copied : List (Row β)} (h : Reading fmt s snapshot n copied)
    (hreader : t.reader = s.reader) (hretains : Retains fmt s.store t.store)
    (heffect : Effect fmt s.store t.store) : Reading fmt t snapshot n copied := by
  cases heffect with
  | quiet hkeeps hpark =>
      exact h.stable hreader hretains (Nat.le_of_eq hpark.symm)
        fun hopen _ _ => ⟨hkeeps.liveRestored ▸ hopen, hkeeps.copies⟩
  | empty hcopies hlive hkept hcopies' hpark hpub =>
      exact h.stable hreader hretains (Nat.le_of_eq hpark.symm)
        fun hopen => absurd hpub (by simp [hopen])
  | park lines hlive hlive' hkept hcopies hpark hopen hopen' =>
      refine h.stable hreader hretains (by omega) fun _ _ hold => ?_
      have hnew := hold ⟨s.store.nextPark, lines⟩ (by simp [hcopies])
      exact absurd hnew (Nat.not_lt_of_le h.mark)
  | publish content hlive hlive' hkept hcopies hpark hopen hpub hsub hcovers =>
      exact h.stable hreader hretains (Nat.le_of_eq hpark.symm)
        fun hopen => absurd hpub (by simp [hopen])
  | clean hlive hkept hcopies hpark hpub hpub' =>
      exact h.stable hreader hretains (Nat.le_of_eq hpark.symm)
        fun hopen => absurd hpub' (by simp [hopen])

/-- A store step leaves the reader's own facts alone. -/
theorem ReaderOk.stable {fmt : Format β κ} {s t : Traversal β} (h : ReaderOk fmt s)
    (hreader : t.reader = s.reader) (hretains : Retains fmt s.store t.store)
    (hreading : ∀ snapshot n copied, Reading fmt s snapshot n copied →
      Reading fmt t snapshot n copied) : ReaderOk fmt t := by
  refine ⟨?_, ?_, ?_, ?_, ?_⟩
  · intro hphase
    rw [hreader] at hphase ⊢
    refine (h.target hphase).trans ?_
    rw [hretains.kept]
    refine Covers.append (.of_subset (by simp)) ?_
    exact hretains.active.mono_right (by simp)
  · intro hphase
    rw [hreader] at hphase
    obtain ⟨snapshot, n, copied, hread⟩ := h.reading hphase
    exact ⟨snapshot, n, copied, hreading snapshot n copied hread⟩
  · rw [hreader]
    exact h.tail
  · rw [hreader]
    exact h.relisting
  · rw [hreader]
    exact h.done

/-- The reader's own steps. -/
theorem readerOk_read {fmt : Format β κ} {s : Traversal β} {clock : ℕ} {r : Reader β}
    (h : ReaderOk fmt s) (hord : Ordered fmt s.store clock) (hok : followsUp s .read = true)
    (hstep : s.reader.step fmt s.store = some r) : ReaderOk fmt { s with reader := r } := by
  unfold Reader.step at hstep
  cases hphase : s.reader.phase with
  | notStarted =>
      simp only [hphase] at hstep
      obtain rfl := Option.some.inj hstep
      refine ⟨fun _ => ?_, fun _ => ⟨_, _, _, reading_begin hord _ 0⟩, fun _ => ⟨_, by
        simp [Reader.start, Reader.beginRound]; rfl⟩, fun hp => ?_, fun hp => ?_⟩
      · change Covers _ _ (linesOf s.store.staging ++ s.store.live.getD []) _
        rw [State.staging, linesOf_append, List.append_assoc]
        refine Covers.append (.of_subset (by simp)) (Covers.append ?_ ?_)
        · exact hord.copies_covered.mono_right (by simp)
        · refine .of_subset ?_
          intro a ha
          simp [State.active, ha]
      · simp [Reader.start, Reader.beginRound] at hp
      · simp [Reader.start, Reader.beginRound] at hp
  | reading =>
      simp only [hphase] at hstep
      obtain ⟨snapshot, n, copied, hread⟩ := h.reading hphase
      obtain ⟨earlier, hout⟩ := h.tail (by simp [hphase])
      have htarget := h.target (by simp [hphase])
      split at hstep
      · rename_i name rest htodo
        obtain rfl := Option.some.inj hstep
        obtain ⟨copied', hread'⟩ := reading_copy hord hread htodo
        refine ⟨fun _ => htarget, fun _ => ⟨_, _, _, hread'⟩, fun _ => ⟨earlier, ?_⟩,
          fun hp => ?_, fun hp => ?_⟩
        · simp [Reader.emit, hout]
        · simp [Reader.emit, hphase] at hp
        · simp [Reader.emit, hphase] at hp
      · rename_i htodo
        obtain rfl := Option.some.inj hstep
        refine ⟨fun _ => htarget, fun hp => by simp at hp, fun _ => ⟨earlier, ?_⟩,
          fun _ hmissed => ?_, fun hp => by simp at hp⟩
        · simp [Reader.emit, hout]
        · change Complete fmt s.reader.begun (s.reader.out ++ _)
          rw [hout, List.append_assoc]
          exact (complete_of_live_read hord hread htodo htarget hmissed).append
  | relisting =>
      simp only [hphase] at hstep
      obtain rfl := Option.some.inj hstep
      have htarget := h.target (by simp [hphase])
      split
      · refine ⟨fun _ => htarget, fun _ => ⟨_, _, _, reading_begin hord _ _⟩,
          fun _ => ⟨s.reader.out, ?_⟩, fun hp => ?_, fun hp => ?_⟩
        · simp [Reader.beginRound]
        · simp [Reader.beginRound] at hp
        · simp [Reader.beginRound] at hp
      · rename_i hstop
        have hmissed : s.reader.missed = false := by
          by_contra hyes
          simp [followsUp, hphase, hyes, hstop] at hok
        refine ⟨fun _ => htarget, fun hp => by simp at hp, fun _ => h.tail (by simp [hphase]),
          fun hp => by simp at hp, fun _ => ?_⟩
        exact h.relisting hphase hmissed
  | done => simp [hphase] at hstep

variable [DecidableEq β]

/-- The invariant of a traversal across calm compactions. -/
structure TraversalOk (fmt : Format β κ) (s : Traversal β) : Prop where
  accounted : Accounted s.store
  calm : Calm fmt s.store
  ordered : Ordered fmt s.store s.clock
  reader : ReaderOk fmt s

theorem traversalOk_initial {fmt : Format β κ} {s : Traversal β} (h : s.Initial) :
    TraversalOk fmt s := by
  have hidle := h.store.idle
  have hcopies := h.store.copies
  have hactive : s.store.active = s.store.live.getD [] := by
    simp [State.active, hcopies]
  refine ⟨accounted_initial h.store, ⟨?_, ?_, ?_⟩, ⟨?_, ?_, ?_, ?_, ?_⟩, ?_⟩
  · simpa [CalmPc, hidle] using hcopies
  · exact fun hbusy => absurd hidle hbusy
  · exact fun hbusy => absurd hidle hbusy
  · simpa [State.staging, hcopies] using h.names
  · simpa [State.staging, hcopies] using h.store.names
  · simpa [hactive] using h.order
  · simpa [hactive] using h.clock
  · intro _
    rw [hcopies]
    exact .of_subset (by simp)
  · constructor <;> simp [h.reader, Reader.fresh]

theorem traversalOk_step {fmt : Format β κ} {s t : Traversal β} {m : Move β}
    (h : TraversalOk fmt s) (hok : followsUp s m = true)
    (hstep : s.step fmt m = some t) : TraversalOk fmt t := by
  cases m with
  | append line =>
      obtain rfl := Option.some.inj hstep
      obtain ⟨hord, hretains⟩ := ordered_append h.ordered line
      refine ⟨⟨h.accounted.pcOk, bounded_append h.accounted.bounded _⟩,
        ⟨h.calm.pc, h.calm.options, h.calm.filter⟩, hord, ?_⟩
      refine h.reader.stable rfl hretains fun snapshot n copied hread => ?_
      exact hread.stable rfl hretains (Nat.le_refl _) fun hopen _ _ => ⟨hopen, rfl⟩
  | compact =>
      simp only [Traversal.step, State.step, Option.map_eq_some_iff] at hstep
      obtain ⟨store, hbegin, rfl⟩ := hstep
      split at hbegin
      · rename_i hidle
        obtain rfl := Option.some.inj hbegin
        have hcopies : s.store.copies = [] := by
          simpa [CalmPc, hidle] using h.calm.pc
        obtain ⟨hord, hretains⟩ := ordered_begin h.ordered hcopies fmt.onRows.compactFilter {}
        refine ⟨⟨rfl, bounded_begin h.accounted.bounded _ _⟩, ⟨rfl, fun _ => rfl, fun _ => rfl⟩,
          hord, ?_⟩
        refine h.reader.stable rfl hretains fun snapshot n copied hread => ?_
        exact hread.stable rfl hretains (Nat.le_refl _) fun _ hne => absurd rfl hne
      · cases hbegin
  | tick =>
      simp only [Traversal.step, Option.map_eq_some_iff] at hstep
      obtain ⟨store, htick, rfl⟩ := hstep
      obtain ⟨heffect, hcalm⟩ := effect_tick h.accounted.pcOk h.calm hok htick
      obtain ⟨hord, hretains⟩ := heffect.ordered h.ordered
      refine ⟨accounted_tick h.accounted hok htick, hcalm, hord, ?_⟩
      refine h.reader.stable rfl hretains fun snapshot n copied hread => ?_
      exact heffect.reading hread rfl hretains
  | read =>
      simp only [Traversal.step, Option.map_eq_some_iff] at hstep
      obtain ⟨r, hread, rfl⟩ := hstep
      exact ⟨h.accounted, h.calm, h.ordered, readerOk_read h.reader h.ordered hok hread⟩

/-- A traversal whose missed rounds are followed up yields every key, as new as at its start. -/
theorem traversal_complete (fmt : Format β κ) {s : Traversal β}
    (hs : (readerSystem fmt).Reach (fun s m => followsUp s m) s)
    (hdone : s.reader.phase = .done) : Complete fmt s.reader.begun s.reader.out := by
  have hinv : TraversalOk fmt s :=
    hs.invariant (fun _ h => traversalOk_initial h)
      (fun _ _ _ h hok hstep => traversalOk_step h hok hstep)
  exact hinv.reader.done hdone

/-- Every line is a record that is its own key. -/
def selfKeyed : Format String String where
  oversized _ := false
  blank _ := false
  parses _ := true
  key line := some line

/-- A store with one live record and a reader about to begin. -/
def oneRecord : Traversal String where
  store := {
    live := some [⟨0, "k"⟩]
    kept := []
    copies := []
    nextPark := 0
    pc := .idle
    filter := selfKeyed.onRows.compactFilter
    options := {}
    published := false
    liveRestored := false
    archived := false
    entered := [⟨0, "k"⟩]
    dropped := [] }
  clock := 1
  reader := Reader.fresh

theorem oneRecord_initial : oneRecord.Initial := by
  refine ⟨⟨rfl, rfl, rfl, rfl, ?_⟩, List.Pairwise.nil, ?_, ?_, rfl⟩
  · intro copy hcopy
    simp [oneRecord] at hcopy
  · exact List.pairwise_singleton _ _
  · intro r hr
    obtain rfl : r = ⟨0, "k"⟩ := by simpa [oneRecord, linesOf] using hr
    exact Nat.lt_succ_self 0

def compactSteps (n : ℕ) : List (Move String) :=
  List.replicate n .tick

/-- The park lands before the live read; the copy is still listed, and a second round reads it. -/
theorem traversal_complete_second_round :
    ∃ s : Traversal String, s.reader.phase = .done ∧ s.reader.round = 1 ∧
      Complete selfKeyed s.reader.begun s.reader.out := by
  obtain ⟨s, hs, hdone, hround⟩ := System.exists_reach_of_execOk
    (S := readerSystem selfKeyed) followsUp (s := oneRecord)
    (.read :: .compact :: compactSteps 2 ++ [.read, .read, .read, .read, .read])
    (fun s => s.reader.phase = .done ∧ s.reader.round = 1) oneRecord_initial (by decide)
  exact ⟨s, hdone, hround, traversal_complete selfKeyed hs hdone⟩

/-- The park lands before the live read, publication and unlink before the second listing. -/
theorem traversal_misses_record :
    ¬ ∀ s : Traversal String, (readerSystem selfKeyed).Reachable s → s.reader.phase = .done →
      Complete selfKeyed s.reader.begun s.reader.out := by
  intro h
  obtain ⟨s, hs, hdone, hbegun, hout⟩ := System.exists_reachable_of_exec
    (S := readerSystem selfKeyed) (s := oneRecord)
    (.read :: .compact :: compactSteps 2 ++ .read :: compactSteps 7 ++ [.read])
    (fun s => s.reader.phase = .done ∧ s.reader.begun = [⟨0, "k"⟩] ∧ s.reader.out = [])
    oneRecord_initial (by decide)
  obtain ⟨b, hb, -⟩ := h s hs hdone ⟨0, "k"⟩ (by simp [hbegun]) "k" rfl
  rw [hout, lastFor_nil] at hb
  cases hb

end Kyberion.Store
