import Mathlib.Data.List.Basic
import Mathlib.Data.List.Induction
import Mathlib.Data.List.Pairwise

/-!
Logs read by key: the entry that counts for a key is the last one that carries
it. `Covers` compares two logs by the newest stamp each holds for every key,
and a log in stamp order answers with its newest entry.
-/

namespace Kyberion

universe u v

variable {α : Type u} {κ : Type v}

section Covers

variable (key : α → Option κ) (stamp : α → ℕ)

/-- Every keyed entry of `xs` has one in `ys` that is at least as new. -/
def Covers (xs ys : List α) : Prop :=
  ∀ a ∈ xs, ∀ k, key a = some k → ∃ b ∈ ys, key b = some k ∧ stamp a ≤ stamp b

variable {key stamp}

theorem Covers.of_subset {xs ys : List α} (h : xs ⊆ ys) : Covers key stamp xs ys :=
  fun a ha _ hk => ⟨a, h ha, hk, Nat.le_refl _⟩

theorem Covers.trans {xs ys zs : List α} (h : Covers key stamp xs ys)
    (h' : Covers key stamp ys zs) : Covers key stamp xs zs := by
  intro a ha k hk
  obtain ⟨b, hb, hkb, hab⟩ := h a ha k hk
  obtain ⟨c, hc, hkc, hbc⟩ := h' b hb k hkb
  exact ⟨c, hc, hkc, Nat.le_trans hab hbc⟩

theorem Covers.append {xs ys zs : List α} (h : Covers key stamp xs zs)
    (h' : Covers key stamp ys zs) : Covers key stamp (xs ++ ys) zs := by
  intro a ha
  rcases List.mem_append.mp ha with hx | hy
  · exact h a hx
  · exact h' a hy

theorem Covers.mono_right {xs ys zs : List α} (h : Covers key stamp xs ys) (hsub : ys ⊆ zs) :
    Covers key stamp xs zs :=
  h.trans (.of_subset hsub)

end Covers

variable [DecidableEq κ] {stamp : α → ℕ}

/-- The last entry of a log that carries the key. -/
def lastFor (key : α → Option κ) (k : κ) (log : List α) : Option α :=
  (log.filter fun a => key a = some k).getLast?

@[simp] theorem lastFor_nil (key : α → Option κ) (k : κ) : lastFor key k [] = none := rfl

theorem lastFor_append (key : α → Option κ) (k : κ) (xs ys : List α) :
    lastFor key k (xs ++ ys) = (lastFor key k ys).or (lastFor key k xs) := by
  simp only [lastFor, List.filter_append, List.getLast?_append]

theorem lastFor_concat (key : α → Option κ) (k : κ) (xs : List α) (a : α) :
    lastFor key k (xs ++ [a]) = if key a = some k then some a else lastFor key k xs := by
  rw [lastFor_append]
  by_cases h : key a = some k <;> simp [lastFor, h]

theorem mem_of_lastFor {key : α → Option κ} {k : κ} {log : List α} {a : α}
    (h : lastFor key k log = some a) : a ∈ log ∧ key a = some k := by
  have hmem := List.mem_of_getLast? h
  simpa using hmem

theorem lastFor_eq_none {key : α → Option κ} {k : κ} {log : List α} :
    lastFor key k log = none ↔ ∀ a ∈ log, key a ≠ some k := by
  simp [lastFor]

theorem exists_lastFor {key : α → Option κ} {k : κ} {log : List α} {a : α} (ha : a ∈ log)
    (hk : key a = some k) : ∃ b, lastFor key k log = some b := by
  cases h : lastFor key k log with
  | none => exact absurd hk (lastFor_eq_none.mp h a ha)
  | some b => exact ⟨b, rfl⟩

/-- Rewriting the entries under their keys. -/
theorem lastFor_map {key : α → Option κ} {f : α → α} (hkey : ∀ a, key (f a) = key a) (k : κ)
    (log : List α) : lastFor key k (log.map f) = (lastFor key k log).map f := by
  rw [lastFor, List.filter_map, List.getLast?_map, lastFor]
  congr 2
  apply List.filter_congr
  intro a _
  simp [hkey]

theorem lastFor_map_comp {β : Type u} {key : β → Option κ} (f : α → β) (k : κ) (log : List α) :
    lastFor key k (log.map f) = (lastFor (fun a => key (f a)) k log).map f := by
  rw [lastFor, List.filter_map, List.getLast?_map, lastFor]
  rfl

theorem lastFor_congr {key key' : α → Option κ} {log : List α} (h : ∀ a ∈ log, key a = key' a)
    (k : κ) : lastFor key k log = lastFor key' k log := by
  rw [lastFor, lastFor]
  congr 1
  exact List.filter_congr fun a ha => by rw [h a ha]

/-- Where the stamps of a key never fall, its last entry carries the highest. -/
theorem lastFor_greatest {key : α → Option κ} {k : κ} {log : List α} {a b : α}
    (h : log.Pairwise fun a b => key a = key b → stamp a ≤ stamp b) (ha : a ∈ log)
    (hk : key a = some k) (hb : lastFor key k log = some b) : stamp a ≤ stamp b := by
  induction log using List.reverseRecOn with
  | nil => cases ha
  | append_singleton log r ih =>
      obtain ⟨hlog, -, hlast⟩ := List.pairwise_append.mp h
      rw [lastFor_concat] at hb
      split at hb
      · rename_i hr
        obtain rfl := Option.some.inj hb
        rcases List.mem_append.mp ha with hold | hnew
        · exact hlast a hold r (List.mem_singleton_self r) (hk.trans hr.symm)
        · exact (List.mem_singleton.mp hnew) ▸ Nat.le_refl _
      · rename_i hr
        rcases List.mem_append.mp ha with hold | hnew
        · exact ih hlog hold hb
        · exact absurd (List.mem_singleton.mp hnew ▸ hk) hr

/-- Entries that carry no key do not change the answer. -/
theorem lastFor_filter {key : α → Option κ} {k : κ} {p : α → Bool} {log : List α}
    (h : ∀ a ∈ log, key a = some k → p a = true) :
    lastFor key k (log.filter p) = lastFor key k log := by
  simp only [lastFor, List.filter_filter]
  congr 1
  apply List.filter_congr
  intro a ha
  by_cases hk : key a = some k
  · simp [hk, h a ha hk]
  · simp [hk]

/-- One record entered into a map by key: it takes the place of an older one. -/
def latestStep (key : α → Option κ) (index : List α) (r : α) : List α :=
  match key r with
  | none => index
  | some k =>
      if index.any fun q => key q = some k then index.map fun q => if key q = some k then r else q
      else index ++ [r]

/-- The current record of every key, in the order in which the keys first came up. -/
def latestById (key : α → Option κ) (records : List α) : List α :=
  records.foldl (latestStep key) []

theorem latestById_concat (key : α → Option κ) (records : List α) (r : α) :
    latestById key (records ++ [r]) = latestStep key (latestById key records) r := by
  simp [latestById, List.foldl_append]

theorem mem_latestStep {key : α → Option κ} {index : List α} {r q : α} {k : κ}
    (hk : key r = some k) :
    q ∈ latestStep key index r ↔ q = r ∨ q ∈ index ∧ key q ≠ some k := by
  simp only [latestStep, hk]
  split
  · rename_i hany
    obtain ⟨p, hp, hpk⟩ := List.any_eq_true.mp hany
    constructor
    · intro hq
      obtain ⟨x, hx, rfl⟩ := List.mem_map.mp hq
      by_cases hxk : key x = some k
      · exact .inl (if_pos hxk)
      · rw [if_neg hxk]
        exact .inr ⟨hx, hxk⟩
    · rintro (rfl | ⟨hq, hqk⟩)
      · exact List.mem_map.mpr ⟨p, hp, if_pos (by simpa using hpk)⟩
      · exact List.mem_map.mpr ⟨q, hq, if_neg hqk⟩
  · rename_i hnone
    have habsent : ∀ p ∈ index, key p ≠ some k := by simpa using hnone
    constructor
    · intro hq
      rcases List.mem_append.mp hq with hq | hq
      · exact .inr ⟨hq, habsent q hq⟩
      · exact .inl (List.mem_singleton.mp hq)
    · rintro (rfl | ⟨hq, -⟩)
      · exact List.mem_append_right _ (List.mem_singleton_self _)
      · exact List.mem_append_left _ hq

/-- The map holds, for every key, the last record that carries it. -/
theorem mem_latestById {key : α → Option κ} {records : List α} {q : α} :
    q ∈ latestById key records ↔ ∃ k, key q = some k ∧ lastFor key k records = some q := by
  induction records using List.reverseRecOn with
  | nil => simp [latestById]
  | append_singleton records r ih =>
      rw [latestById_concat]
      cases hr : key r with
      | none =>
          rw [latestStep, hr, ih]
          simp [lastFor_concat, hr]
      | some k =>
          rw [mem_latestStep hr, ih]
          constructor
          · rintro (rfl | ⟨⟨k', hq, hlast⟩, hne⟩)
            · exact ⟨k, hr, by rw [lastFor_concat, if_pos hr]⟩
            · refine ⟨k', hq, ?_⟩
              rw [lastFor_concat, if_neg]
              · exact hlast
              · rintro heq
                exact hne (by rw [hq, ← hr, heq])
          · rintro ⟨k', hq, hlast⟩
            rw [lastFor_concat] at hlast
            split at hlast
            · exact .inl (Option.some.inj hlast).symm
            · rename_i hne
              refine .inr ⟨⟨k', hq, hlast⟩, ?_⟩
              rw [hq]
              rintro heq
              exact hne (hr.trans heq.symm)

theorem latestStep_pairwise {key : α → Option κ} {index : List α} {r : α}
    (h : index.Pairwise fun a b => key a ≠ key b) :
    (latestStep key index r).Pairwise fun a b => key a ≠ key b := by
  unfold latestStep
  split
  · exact h
  · rename_i k hk
    split
    · rw [List.pairwise_map]
      refine h.imp fun {a b} hab => ?_
      -- a replaced record keeps the key of the place it takes
      have hkey (q : α) : key (if key q = some k then r else q) = key q := by
        by_cases hq : key q = some k
        · rw [if_pos hq, hk, hq]
        · rw [if_neg hq]
      rw [hkey, hkey]
      exact hab
    · rename_i hnone
      have habsent : ∀ p ∈ index, key p ≠ some k := by simpa using hnone
      refine List.pairwise_append.mpr ⟨h, List.pairwise_singleton _ _, fun a ha b hb => ?_⟩
      rw [List.mem_singleton.mp hb, hk]
      exact habsent a ha

/-- No two current records share a key. -/
theorem latestById_pairwise (key : α → Option κ) (records : List α) :
    (latestById key records).Pairwise fun a b => key a ≠ key b := by
  induction records using List.reverseRecOn with
  | nil => exact List.Pairwise.nil
  | append_singleton records r ih =>
      rw [latestById_concat]
      exact latestStep_pairwise ih

/-- Finding a key among the current records finds its last record. -/
theorem find_current {key : α → Option κ} {records current : List α} {k : κ}
    (h : ∀ q, q ∈ current ↔ q ∈ latestById key records) :
    current.find? (fun q => key q = some k) = lastFor key k records := by
  cases hfind : current.find? fun q => key q = some k with
  | none =>
      cases hlast : lastFor key k records with
      | none => rfl
      | some q =>
          have hq := (mem_of_lastFor hlast).2
          have hmem := (h q).mpr (mem_latestById.mpr ⟨k, hq, hlast⟩)
          have habsent := List.find?_eq_none.mp hfind q hmem
          simp [hq] at habsent
  | some q =>
      have hq : key q = some k := by simpa using List.find?_some hfind
      obtain ⟨k', hk', hlast⟩ := mem_latestById.mp ((h q).mp (List.mem_of_find?_eq_some hfind))
      rw [hq] at hk'
      obtain rfl := Option.some.inj hk'
      exact hlast.symm

section Compaction

variable {key folded : α → Option κ}

/-- The log without the entries whose key comes up again; entries without a key stay. -/
def compactByKey (folded : α → Option κ) : List α → List α
  | [] => []
  | r :: rest =>
      if (folded r).any fun k => rest.any fun q => folded q = some k then compactByKey folded rest
      else r :: compactByKey folded rest

theorem compactByKey_sublist (folded : α → Option κ) (log : List α) :
    (compactByKey folded log).Sublist log := by
  induction log with
  | nil => exact List.Sublist.slnil
  | cons r rest ih =>
      rw [compactByKey]
      split
      · exact ih.cons r
      · exact ih.cons_cons r

/-- Compaction keeps the last entry of a key when entries fold together only within the key. -/
theorem lastFor_compactByKey {k : κ} {log : List α}
    (h : ∀ a b j, key a = some k → folded a = some j → folded b = some j → key b = some k) :
    lastFor key k (compactByKey folded log) = lastFor key k log := by
  induction log with
  | nil => rfl
  | cons r rest ih =>
      have hcons (l : List α) : lastFor key k (r :: l) = (lastFor key k l).or (lastFor key k [r]) :=
        lastFor_append key k [r] l
      rw [hcons rest, compactByKey]
      split
      · rename_i hagain
        obtain ⟨j, hj, hany⟩ := (Option.any_eq_true _ _).mp hagain
        obtain ⟨q, hq, hqj⟩ := List.any_eq_true.mp hany
        rw [ih]
        by_cases hr : key r = some k
        · obtain ⟨b, hb⟩ := exists_lastFor hq (h r q j hr hj (by simpa using hqj))
          rw [hb, Option.some_or]
        · have hnone : lastFor key k [r] = none := lastFor_eq_none.mpr (by simpa using hr)
          rw [hnone, Option.or_none]
      · rw [hcons, ih]

/-- An entry without a key is kept. -/
theorem mem_compactByKey_of_none {log : List α} {a : α} (ha : a ∈ log) (h : folded a = none) :
    a ∈ compactByKey folded log := by
  induction log with
  | nil => cases ha
  | cons r rest ih =>
      rw [compactByKey]
      rcases List.mem_cons.mp ha with rfl | hrest
      · rw [h, Option.any_none, if_neg (by decide)]
        exact List.mem_cons_self
      · split
        · exact ih hrest
        · exact List.mem_cons_of_mem r (ih hrest)

theorem compactByKey_map {β : Type u} {folded : α → Option κ} {folded' : β → Option κ} {f : α → β}
    {log : List α} (h : ∀ a ∈ log, folded' (f a) = folded a) :
    compactByKey folded' (log.map f) = (compactByKey folded log).map f := by
  induction log with
  | nil => rfl
  | cons r rest ih =>
      obtain ⟨hfirst, hrest⟩ := List.forall_mem_cons.mp h
      have hany : ((folded' (f r)).any fun k => (rest.map f).any fun q => folded' q = some k) =
          (folded r).any fun k => rest.any fun q => folded q = some k := by
        rw [hfirst]
        congr 1
        funext k
        rw [List.any_map, Bool.eq_iff_iff, List.any_eq_true, List.any_eq_true]
        refine exists_congr fun q => and_congr_right fun hq => ?_
        rw [Function.comp_apply, hrest q hq]
      rw [List.map_cons, compactByKey, compactByKey, hany, ih hrest]
      split <;> rfl

/-- A compacted log stays as it is. -/
theorem compactByKey_self (folded : α → Option κ) (log : List α) :
    compactByKey folded (compactByKey folded log) = compactByKey folded log := by
  induction log with
  | nil => rfl
  | cons r rest ih =>
      rw [compactByKey]
      split
      · exact ih
      · rename_i hnone
        rw [compactByKey, ih, if_neg]
        intro hagain
        refine hnone ?_
        obtain ⟨k, hk, hany⟩ := (Option.any_eq_true _ _).mp hagain
        obtain ⟨q, hq, hqk⟩ := List.any_eq_true.mp hany
        exact (Option.any_eq_true _ _).mpr
          ⟨k, hk, List.any_eq_true.mpr ⟨q, (compactByKey_sublist folded rest).mem hq, hqk⟩⟩

end Compaction

/-- A log in stamp order. -/
def InOrder (stamp : α → ℕ) (log : List α) : Prop :=
  log.Pairwise fun a b => stamp a < stamp b

/-- In a log in stamp order the last entry for a key is its newest. -/
theorem InOrder.lastFor_newest {log : List α} (h : InOrder stamp log) {k : κ} {a b : α}
    (ha : a ∈ log) (hk : key a = some k) (hb : lastFor key k log = some b) :
    stamp a ≤ stamp b := by
  have hsub : InOrder stamp (log.filter fun a => key a = some k) := h.filter _
  have hmem : a ∈ log.filter fun a => key a = some k := by simpa [hk] using ha
  obtain ⟨init, hinit⟩ := List.getLast?_eq_some_iff.mp hb
  rw [hinit] at hsub hmem
  rcases List.mem_append.mp hmem with hold | hlast
  · exact Nat.le_of_lt ((List.pairwise_append.mp hsub).2.2 a hold b (by simp))
  · exact (List.mem_singleton.mp hlast) ▸ Nat.le_refl _

/-- The last entry that satisfies a predicate, with what comes before and after it. -/
theorem exists_last_split {p : α → Prop} {log : List α} (h : ∃ a ∈ log, p a) :
    ∃ pre b post, log = pre ++ b :: post ∧ p b ∧ ∀ c ∈ post, ¬ p c := by
  induction log with
  | nil =>
      obtain ⟨a, ha, -⟩ := h
      cases ha
  | cons x log ih =>
      by_cases hrest : ∃ a ∈ log, p a
      · obtain ⟨pre, b, post, rfl, hb, hpost⟩ := ih hrest
        exact ⟨x :: pre, b, post, rfl, hb, hpost⟩
      · refine ⟨[], x, log, rfl, ?_, fun c hc hpc => hrest ⟨c, hc, hpc⟩⟩
        obtain ⟨a, ha, hpa⟩ := h
        rcases List.mem_cons.mp ha with rfl | hmem
        · exact hpa
        · exact absurd ⟨a, hmem, hpa⟩ hrest

end Kyberion
