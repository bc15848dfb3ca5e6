import Kyberion.Tool.OutcomeGovernor
import Mathlib.Data.List.PeriodicityLemma

/-!
When the governor of tool outcomes asks for a stop. It looks for cycles from the shortest period
up, and the first one that passes the warning decides.
-/

namespace Kyberion.Tool

section Words

variable {α β : Type} {w : List α} {k n p : ℕ}

/-- The word ends with `k` copies of a block of `p` letters. -/
def EndsInCopies (k p : ℕ) (w : List α) : Prop :=
  ∃ before block, w = before ++ (List.replicate k block).flatten ∧ block.length = p

theorem length_copies {block : List α} (h : block.length = p) :
    (List.replicate k block).flatten.length = k * p := by
  simp [List.length_flatten, h]

theorem EndsInCopies.le_length (h : EndsInCopies k p w) : k * p ≤ w.length := by
  obtain ⟨before, block, rfl, hblock⟩ := h
  rw [List.length_append, length_copies hblock]
  exact Nat.le_add_left _ _

theorem EndsInCopies.mono {j : ℕ} (hjk : j ≤ k) (h : EndsInCopies k p w) :
    EndsInCopies j p w := by
  obtain ⟨before, block, rfl, hblock⟩ := h
  refine ⟨before ++ (List.replicate (k - j) block).flatten, block, ?_, hblock⟩
  rw [List.append_assoc, ← List.flatten_append, ← List.replicate_add]
  congr 3
  omega

theorem endsInCopies_one (h : p ≤ w.length) : EndsInCopies 1 p w := by
  refine ⟨w.take (w.length - p), w.drop (w.length - p), by simp, ?_⟩
  rw [List.length_drop]
  omega

/-- One more copy. -/
theorem endsInCopies_succ_iff {before block : List α} (hk : 1 ≤ k) (hblock : block.length = p)
    (hw : w = before ++ (List.replicate k block).flatten) :
    EndsInCopies (k + 1) p w ↔ p ≤ before.length ∧ before.drop (before.length - p) = block := by
  constructor
  · rintro ⟨earlier, other, hsplit, hother⟩
    rw [List.replicate_succ, List.flatten_cons, ← List.append_assoc, hw] at hsplit
    obtain ⟨rfl, hcopies⟩ := List.append_inj' hsplit (by
      rw [length_copies hblock, length_copies hother])
    obtain ⟨k, rfl⟩ := Nat.exists_eq_add_of_le hk
    rw [Nat.add_comm, List.replicate_succ, List.replicate_succ, List.flatten_cons,
      List.flatten_cons] at hcopies
    obtain ⟨rfl, -⟩ := List.append_inj hcopies (hblock.trans hother.symm)
    rw [List.length_append]
    refine ⟨by omega, ?_⟩
    exact List.drop_left' (by omega)
  · rintro ⟨hlength, hdrop⟩
    refine ⟨before.take (before.length - p), block, ?_, hblock⟩
    rw [hw, List.replicate_succ, List.flatten_cons, ← List.append_assoc]
    congr 1
    conv_lhs => rw [← List.take_append_drop (before.length - p) before, hdrop]

theorem EndsInCopies.rtake_iff (h : k * p ≤ n) :
    EndsInCopies k p (w.rtake n) ↔ EndsInCopies k p w := by
  constructor
  · rintro ⟨before, block, hsplit, hblock⟩
    refine ⟨w.take (w.length - n) ++ before, block, ?_, hblock⟩
    rw [List.append_assoc, ← hsplit]
    exact (List.take_append_drop _ _).symm
  · rintro ⟨before, block, rfl, hblock⟩
    refine ⟨before.drop (before.length + k * p - n), block, ?_, hblock⟩
    rw [List.rtake, List.length_append, length_copies hblock, List.drop_append]
    congr 1
    rw [Nat.sub_eq_zero_of_le (by omega), List.drop_zero]

/-- The copies are those of the last letters. -/
theorem endsInCopies_iff_rtake (hk : 1 ≤ k) : EndsInCopies k p w ↔
    k * p ≤ w.length ∧ w.rtake (k * p) = (List.replicate k (w.rtake p)).flatten := by
  constructor
  · intro h
    refine ⟨h.le_length, ?_⟩
    obtain ⟨before, block, rfl, hblock⟩ := h
    have hall : (before ++ (List.replicate k block).flatten).rtake (k * p) =
        (List.replicate k block).flatten := by
      rw [List.rtake, List.length_append, length_copies hblock, Nat.add_sub_cancel, List.drop_left]
    have hlast : (before ++ (List.replicate k block).flatten).rtake p = block := by
      obtain ⟨k, rfl⟩ := Nat.exists_eq_add_of_le' hk
      rw [List.replicate_succ', List.flatten_append, List.flatten_singleton, ← List.append_assoc,
        List.rtake, List.length_append, hblock, Nat.add_sub_cancel, List.drop_left]
    rw [hall, hlast]
  · rintro ⟨hlength, hcopies⟩
    refine ⟨w.take (w.length - k * p), w.rtake p, ?_, ?_⟩
    · rw [← hcopies]
      exact (List.take_append_drop _ _).symm
    · have : p ≤ w.length := (Nat.le_mul_of_pos_left p hk).trans hlength
      rw [List.rtake, List.length_drop]
      omega

theorem rtake_rtake (l : List α) (h : p ≤ n) : (l.rtake n).rtake p = l.rtake p := by
  rw [List.rtake, List.rtake, List.rtake, List.drop_drop, List.length_drop]
  congr 1
  omega

theorem rtake_map (f : α → β) : (w.map f).rtake n = (w.rtake n).map f := by
  rw [List.rtake, List.rtake, List.length_map, List.map_drop]

theorem endsInCopies_map_iff {f : α → β} (hf : Function.Injective f) (hk : 1 ≤ k) :
    EndsInCopies k p (w.map f) ↔ EndsInCopies k p w := by
  rw [endsInCopies_iff_rtake hk, endsInCopies_iff_rtake hk, List.length_map, rtake_map, rtake_map,
    ← List.map_replicate, ← List.map_flatten, (List.map_injective_iff.mpr hf).eq_iff]

end Words

section Periods

variable {α : Type} {u w : List α} {k n p q : ℕ}

theorem hasPeriod_copies {block : List α} (hblock : block.length = p) :
    (List.replicate k block).flatten.HasPeriod p := by
  cases k with
  | zero => simp
  | succ k =>
      have htake : (List.replicate (k + 1) block).flatten.take p = block := by
        rw [List.replicate_succ, List.flatten_cons, ← hblock, List.take_left]
      have hsnoc : (List.replicate (k + 1 + 1) block).flatten =
          (List.replicate (k + 1) block).flatten ++ block := by
        rw [List.replicate_succ', List.flatten_append, List.flatten_singleton]
      rw [List.HasPeriod, htake]
      exact ⟨block, hsnoc.symm⟩

theorem hasPeriod_suffix (h : w.HasPeriod p) (hsuffix : u <:+ w) : u.HasPeriod p :=
  List.HasPeriod.infix h hsuffix.isInfix

theorem eq_copies_of_hasPeriod (hlength : u.length = k * p) (h : u.HasPeriod p) :
    u = (List.replicate k (u.take p)).flatten := by
  induction k generalizing u with
  | zero =>
      rw [Nat.zero_mul] at hlength
      rw [List.length_eq_zero_iff.mp hlength]
      rfl
  | succ k ih =>
      have hlater : (u.drop p).length = k * p := by
        rw [List.length_drop, hlength, Nat.succ_mul, Nat.add_sub_cancel]
      have hrest := ih hlater (hasPeriod_suffix h (List.drop_suffix p u))
      rw [List.replicate_succ, List.flatten_cons]
      conv_lhs => rw [← List.take_append_drop p u, hrest]
      congr 1
      cases k with
      | zero => rfl
      | succ k =>
          congr 2
          obtain ⟨more, hmore⟩ := h.drop_prefix
          conv_rhs => rw [← hmore]
          rw [List.take_append_of_le_length]
          rw [hlater, Nat.succ_mul]
          exact Nat.le_add_left _ _

theorem endsInCopies_iff_hasPeriod (hk : 1 ≤ k) : EndsInCopies k p w ↔
    k * p ≤ w.length ∧ (w.rtake (k * p)).HasPeriod p := by
  constructor
  · intro h
    obtain ⟨hlength, hcopies⟩ := (endsInCopies_iff_rtake hk).mp h
    have hp : p ≤ w.length := (Nat.le_mul_of_pos_left p hk).trans hlength
    refine ⟨hlength, hcopies ▸ hasPeriod_copies ?_⟩
    rw [List.rtake, List.length_drop]
    omega
  · rintro ⟨hlength, hperiod⟩
    have hall : (w.rtake (k * p)).length = k * p := by
      rw [List.rtake, List.length_drop]
      omega
    refine ⟨w.take (w.length - k * p), (w.rtake (k * p)).take p, ?_, ?_⟩
    · rw [← eq_copies_of_hasPeriod hall hperiod]
      exact (List.take_append_drop _ _).symm
    · rw [List.length_take, hall]
      exact min_eq_left (Nat.le_mul_of_pos_left p hk)

theorem rtake_suffix (h : n ≤ k) : w.rtake n <:+ w.rtake k := by
  rw [← rtake_rtake w h]
  exact List.drop_suffix _ _

/-- A word whose period is long, and whose last letters have a period that divides it. -/
theorem hasPeriod_of_block {g : ℕ} (hq : 0 < q) (hdvd : g ∣ q) (h : w.HasPeriod q)
    (hblock : (w.take q).HasPeriod g) : w.HasPeriod g := by
  rw [List.hasPeriod_iff_forall_getElem?_mod] at *
  intro i hi
  have hiq : i % q < q := Nat.mod_lt i hq
  have hlt : i % q < (w.take q).length := by
    rw [List.length_take]
    exact lt_min hiq ((Nat.mod_le i q).trans_lt hi)
  have hig : i % g < q :=
    (Nat.mod_lt i (Nat.pos_of_dvd_of_pos hdvd hq)).trans_le (Nat.le_of_dvd hq hdvd)
  have hplace := hblock (i % q) hlt
  rw [Nat.mod_mod_of_dvd i hdvd, List.getElem?_take_of_lt hiq,
    List.getElem?_take_of_lt hig] at hplace
  rw [h i hi, hplace]

theorem hasPeriod_of_dvd {g : ℕ} (hdvd : g ∣ p) (h : w.HasPeriod g) : w.HasPeriod p := by
  rw [List.hasPeriod_iff_forall_getElem?_mod] at *
  intro i hi
  rw [h i hi, h (i % p) ((Nat.mod_le i p).trans_lt hi), Nat.mod_mod_of_dvd i hdvd]

/-- A cycle that comes round `j` times in front of a longer one comes round as often as the longer
one does, unless the longer period exceeds what `j` rounds can overlap. -/
theorem EndsInCopies.extend {j : ℕ} (hp : EndsInCopies j p w) (hq : EndsInCopies k q w)
    (hj : 1 ≤ j) (hk : 2 ≤ k) (hpos : 1 ≤ p) (hpq : p < q)
    (hoverlap : q ≤ (j - 1) * p + p.gcd q) : EndsInCopies k p w := by
  obtain ⟨hplength, hpperiod⟩ := (endsInCopies_iff_hasPeriod hj).mp hp
  obtain ⟨hqlength, hqperiod⟩ := (endsInCopies_iff_hasPeriod (by omega)).mp hq
  obtain ⟨j, rfl⟩ := Nat.exists_eq_add_of_le' hj
  obtain ⟨k, rfl⟩ := Nat.exists_eq_add_of_le' hk
  have hgp : p.gcd q ≤ p := Nat.gcd_le_left q hpos
  have hp' : (j + 1) * p = j * p + p := by ring
  have hq' : (k + 2) * q = k * q + (q + q) := by ring
  rw [Nat.add_sub_cancel] at hoverlap
  -- the letters that both words share
  have hshared : (w.rtake (p + q - p.gcd q)).HasPeriod (p.gcd q) := by
    refine List.HasPeriod.gcd (hasPeriod_suffix hpperiod (rtake_suffix (by omega)))
      (hasPeriod_suffix hqperiod (rtake_suffix (by omega))) ?_
    rw [List.rtake, List.length_drop]
    omega
  have hlast : (w.rtake q).HasPeriod (p.gcd q) :=
    hasPeriod_suffix hshared (rtake_suffix (by omega))
  have hlong : (w.rtake ((k + 2) * q)).HasPeriod p := by
    refine hasPeriod_of_dvd (Nat.gcd_dvd_left p q)
      (hasPeriod_of_block (by omega) (Nat.gcd_dvd_right p q) hqperiod ?_)
    have hcopies := ((endsInCopies_iff_rtake (by omega)).mp hq).2
    have hblock : (w.rtake q).length = q := by
      rw [List.rtake, List.length_drop]
      omega
    rw [hcopies, List.replicate_succ, List.flatten_cons, List.take_left' hblock]
    exact hlast
  have hkp : (k + 2) * p ≤ (k + 2) * q := Nat.mul_le_mul_left _ hpq.le
  exact (endsInCopies_iff_hasPeriod (by omega)).mpr
    ⟨hkp.trans hqlength, hasPeriod_suffix hlong (rtake_suffix hkp)⟩

end Periods

section Counting

variable {history : List OutcomeEntry} {period cycles : ℕ}

/-- What two entries of one outcome share. -/
def OutcomeEntry.key (entry : OutcomeEntry) : String × String :=
  (entry.signature, entry.resultHash)

theorem sameOutcome_iff (left right : OutcomeEntry) :
    sameOutcome left right = true ↔ left.key = right.key := by
  simp [sameOutcome, OutcomeEntry.key]

/-- The two places that the loop compares for an index. -/
theorem repeatsAt_iff_getElem? (hlength : period * (cycles + 1) ≤ history.length)
    (hcycles : 1 ≤ cycles) :
    repeatsAt history period cycles = true ↔ ∀ index < period,
      (history.map (·.key))[history.length - period * (cycles + 1) + index]? =
        (history.map (·.key))[history.length - period + index]? := by
  have hmul : period ≤ period * (cycles + 1) := Nat.le_mul_of_pos_right _ (Nat.succ_pos _)
  unfold repeatsAt
  simp only [List.all_eq_true, List.mem_range, List.getElem?_map]
  refine forall_congr' fun index => imp_congr_right fun hindex => ?_
  have hmore : period * 2 ≤ period * (cycles + 1) := Nat.mul_le_mul_left _ (by omega)
  have hleft : history.length - period * (cycles + 1) + index < history.length := by omega
  have hright : history.length - period + index < history.length := by omega
  rw [List.getElem?_eq_getElem hleft, List.getElem?_eq_getElem hright]
  simp only [Option.map_some, Option.some.injEq]
  exact sameOutcome_iff _ _

theorem repeatsAt_iff {before block : List (String × String)} (hcycles : 1 ≤ cycles)
    (hblock : block.length = period) (hlength : period ≤ before.length)
    (hsplit : history.map (·.key) = before ++ (List.replicate cycles block).flatten) :
    repeatsAt history period cycles = true ↔ before.drop (before.length - period) = block := by
  obtain ⟨k, rfl⟩ := Nat.exists_eq_add_of_le' hcycles
  have hwhole : history.length = before.length + (k + 1) * period := by
    rw [← length_copies hblock, ← List.length_append, ← hsplit, List.length_map]
  have hmul : period * (k + 1 + 1) = (k + 1) * period + period := by ring
  have hmul' : (k + 1) * period = k * period + period := by ring
  rw [repeatsAt_iff_getElem? (by omega) hcycles]
  have hleft (index : ℕ) (hindex : index < period) :
      (history.map (·.key))[history.length - period * (k + 1 + 1) + index]? =
        (before.drop (before.length - period))[index]? := by
    rw [hsplit, List.getElem?_append_left (by omega), List.getElem?_drop]
    congr 1
    omega
  have hright (index : ℕ) :
      (history.map (·.key))[history.length - period + index]? = block[index]? := by
    rw [hsplit, List.replicate_succ', List.flatten_append, List.flatten_singleton,
      ← List.append_assoc, List.getElem?_append_right
        (by rw [List.length_append, length_copies hblock]; omega),
      List.length_append, length_copies hblock]
    congr 1
    omega
  constructor
  · intro hsame
    refine List.ext_getElem? fun index => ?_
    by_cases hindex : index < period
    · rw [← hleft index hindex, ← hright]
      exact hsame index hindex
    · rw [List.getElem?_eq_none (by rw [List.length_drop]; omega),
        List.getElem?_eq_none (by omega)]
  · intro hsame index hindex
    rw [hleft index hindex, hright, hsame]

/-- The loop goes on exactly while there is another copy. -/
theorem countCycles_guard (hcycles : 1 ≤ cycles)
    (hcopies : EndsInCopies cycles period (history.map (·.key))) :
    (period * (cycles + 1) ≤ history.length ∧ repeatsAt history period cycles = true) ↔
      EndsInCopies (cycles + 1) period (history.map (·.key)) := by
  obtain ⟨before, block, hsplit, hblock⟩ := hcopies
  have hwhole : history.length = before.length + cycles * period := by
    rw [← length_copies hblock, ← List.length_append, ← hsplit, List.length_map]
  have hmul : period * (cycles + 1) = cycles * period + period := by ring
  rw [endsInCopies_succ_iff hcycles hblock hsplit]
  constructor
  · rintro ⟨hlength, hrepeats⟩
    have hlength : period ≤ before.length := by omega
    exact ⟨hlength, (repeatsAt_iff hcycles hblock hlength hsplit).mp hrepeats⟩
  · rintro ⟨hlength, hdrop⟩
    exact ⟨by omega, (repeatsAt_iff hcycles hblock hlength hsplit).mpr hdrop⟩

/-- The loop finds as many copies as there are. -/
theorem countCycles_spec (rounds : ℕ) (hcycles : 1 ≤ cycles) (hperiod : 1 ≤ period)
    (hcopies : EndsInCopies cycles period (history.map (·.key)))
    (hrounds : history.length < rounds + cycles) (k : ℕ) :
    k ≤ countCycles history period rounds cycles ↔
      k ≤ cycles ∨ EndsInCopies k period (history.map (·.key)) := by
  induction rounds generalizing cycles with
  | zero =>
      refine ⟨.inl, fun h => h.elim id fun hk => ?_⟩
      have hle := hk.le_length
      rw [List.length_map] at hle
      have : k ≤ k * period := Nat.le_mul_of_pos_right _ hperiod
      unfold countCycles
      omega
  | succ rounds ih =>
      have hguard := countCycles_guard hcycles hcopies
      rw [countCycles]
      split
      · rename_i hmore
        have hnext := hguard.mp hmore
        rw [ih (by omega) hnext (by omega)]
        constructor
        · rintro (hle | hk)
          · obtain hle | rfl := Nat.le_succ_iff.mp hle
            · exact .inl hle
            · exact .inr hnext
          · exact .inr hk
        · rintro (hle | hk)
          · exact .inl (by omega)
          · exact .inr hk
      · rename_i hstop
        refine ⟨.inl, fun h => h.elim id fun hk => ?_⟩
        by_contra hlt
        exact hstop (hguard.mpr (hk.mono (by omega)))

theorem le_cyclesOf_iff (hperiod : 1 ≤ period) (hlength : period ≤ history.length) {k : ℕ}
    (hk : 1 ≤ k) :
    k ≤ cyclesOf history period ↔ EndsInCopies k period (history.map (·.key)) := by
  have hone : EndsInCopies 1 period (history.map (·.key)) :=
    endsInCopies_one (by rwa [List.length_map])
  rw [cyclesOf, countCycles_spec history.length le_rfl hperiod hone (by omega)]
  constructor
  · rintro (hle | hcopies)
    · obtain rfl := Nat.le_antisymm hle hk
      exact hone
    · exact hcopies
  · exact .inr

end Counting

section Cycles

variable {sha256 : String → String} {w : List ToolObservation} {k n p : ℕ}

def ToolObservation.outcome (observation : ToolObservation) : String × String :=
  (observation.call, observation.resultText)

/-- The outcomes end with `k` copies of a block of `p` outcomes that is not constant and whose last
copy is not all declared repeatable. -/
structure OutcomeCycle (k p : ℕ) (w : List ToolObservation) : Prop where
  copies : EndsInCopies k p (w.map (·.outcome))
  varies : ∃ x ∈ w.rtake p, ∃ y ∈ w.rtake p, x.outcome ≠ y.outcome
  unrepeatable : ∃ x ∈ w.rtake p, x.repeatable = false

theorem OutcomeCycle.mono {j : ℕ} (hjk : j ≤ k) (h : OutcomeCycle k p w) : OutcomeCycle j p w :=
  ⟨h.copies.mono hjk, h.varies, h.unrepeatable⟩

/-- What the governor keeps of the observations. -/
def keptEntries (sha256 : String → String) (n : ℕ) (w : List ToolObservation) :
    List OutcomeEntry :=
  (w.map (·.entry sha256)).rtake n

theorem keptEntries_nil : keptEntries sha256 n [] = [] := by
  simp [keptEntries]

theorem keptEntries_snoc (observation : ToolObservation) :
    (keptEntries sha256 n w ++ [observation.entry sha256]).rtake n =
      keptEntries sha256 n (w ++ [observation]) := by
  unfold keptEntries
  rw [List.map_append, List.map_singleton]
  generalize w.map (·.entry sha256) = entries
  simp only [List.rtake, List.length_append, List.length_drop, List.length_singleton,
    List.drop_append, List.drop_drop]
  congr 2 <;> omega

theorem keptEntries_keys (hash : Function.Injective sha256) (hk : 1 ≤ k) (h : k * p ≤ n) :
    EndsInCopies k p ((keptEntries sha256 n w).map (·.key)) ↔
      EndsInCopies k p (w.map (·.outcome)) := by
  have hkey : (keptEntries sha256 n w).map (·.key) =
      ((w.map (·.outcome)).map (Prod.map sha256 sha256)).rtake n := by
    rw [keptEntries, ← rtake_map, List.map_map, List.map_map]
    rfl
  rw [hkey, EndsInCopies.rtake_iff h, endsInCopies_map_iff (hash.prodMap hash) hk]

theorem rtake_keptEntries (h : p ≤ n) :
    (keptEntries sha256 n w).rtake p = (w.rtake p).map (·.entry sha256) := by
  rw [keptEntries, rtake_rtake _ h, rtake_map]

theorem constantTail_eq_false_iff (tail : List OutcomeEntry) :
    constantTail tail = false ↔ ∃ x ∈ tail, ∃ y ∈ tail, x.key ≠ y.key := by
  cases tail with
  | nil => simp [constantTail]
  | cons first rest =>
      have hall : constantTail (first :: rest) = true ↔
          ∀ x ∈ first :: rest, x.key = first.key := by
        simp [constantTail, sameOutcome_iff]
      rw [← Bool.not_eq_true, hall]
      constructor
      · intro hvaries
        push Not at hvaries
        obtain ⟨x, hx, hne⟩ := hvaries
        exact ⟨x, hx, first, List.mem_cons_self, hne⟩
      · rintro ⟨x, hx, y, hy, hne⟩ hconstant
        exact hne ((hconstant x hx).trans (hconstant y hy).symm)

/-- A period passes the warning when the outcomes end with so many cycles of it. -/
theorem passesWarning_iff (hash : Function.Injective sha256) (hk : 1 ≤ k) (hp : 1 ≤ p)
    (h : k * p ≤ n) : passesWarning (keptEntries sha256 n w) k p = true ↔ OutcomeCycle k p w := by
  have hpn : p ≤ n := (Nat.le_mul_of_pos_left p hk).trans h
  have hvaries : constantTail ((keptEntries sha256 n w).rtake p) = false ↔
      ∃ x ∈ w.rtake p, ∃ y ∈ w.rtake p, x.outcome ≠ y.outcome := by
    rw [constantTail_eq_false_iff, rtake_keptEntries hpn]
    simp only [List.mem_map, exists_exists_and_eq_and]
    refine exists_congr fun x => and_congr_right fun _ => exists_congr fun y =>
      and_congr_right fun _ => not_congr ?_
    change Prod.map sha256 sha256 x.outcome = Prod.map sha256 sha256 y.outcome ↔ _
    exact (hash.prodMap hash).eq_iff
  have hrepeatable : ((keptEntries sha256 n w).rtake p).all (·.repeatable) = false ↔
      ∃ x ∈ w.rtake p, x.repeatable = false := by
    rw [rtake_keptEntries hpn]
    simp [ToolObservation.entry]
  unfold passesWarning
  simp only [Bool.and_eq_true, Bool.not_eq_true', decide_eq_true_eq, hvaries, hrepeatable]
  constructor
  · rintro ⟨⟨⟨hlength, hvaries⟩, hcycles⟩, hrepeatable⟩
    have hlength : p ≤ (keptEntries sha256 n w).length := by
      rw [List.rtake, List.length_drop] at hlength
      omega
    exact ⟨(keptEntries_keys hash hk h).mp ((le_cyclesOf_iff hp hlength hk).mp hcycles),
      hvaries, hrepeatable⟩
  · intro hcycle
    have hcopies := (keptEntries_keys (w := w) hash hk h).mpr hcycle.copies
    have hlength : p ≤ (keptEntries sha256 n w).length := by
      have hle := hcopies.le_length
      rw [List.length_map] at hle
      exact (Nat.le_mul_of_pos_left p hk).trans hle
    refine ⟨⟨⟨?_, hcycle.varies⟩, (le_cyclesOf_iff hp hlength hk).mpr hcopies⟩,
      hcycle.unrepeatable⟩
    rw [List.rtake, List.length_drop]
    omega

/-- The cycles of a period that comes round. -/
theorem OutcomeCycle.le_cyclesOf_iff (h : OutcomeCycle k p w) (hash : Function.Injective sha256)
    {j : ℕ} (hk : 1 ≤ k) (hj : 1 ≤ j) (hp : 1 ≤ p) (hn : j * p ≤ n) :
    j ≤ cyclesOf (keptEntries sha256 n w) p ↔ OutcomeCycle j p w := by
  have hlength : p ≤ (keptEntries sha256 n w).length := by
    have hle := h.copies.le_length
    rw [List.length_map] at hle
    have hpw : p ≤ w.length := (Nat.le_mul_of_pos_left p hk).trans hle
    have hpn : p ≤ n := (Nat.le_mul_of_pos_left p hj).trans hn
    rw [keptEntries, List.rtake, List.length_drop, List.length_map]
    omega
  rw [Kyberion.Tool.le_cyclesOf_iff hp hlength hj, keptEntries_keys hash hj hn]
  exact ⟨fun hcopies => ⟨hcopies, h.varies, h.unrepeatable⟩, (·.copies)⟩

end Cycles

section Runs

variable (sha256 : String → String) (config : ToolCallRepeatGovernorConfig)

/-- A governed run, with the observations since its last progress beside the state. -/
structure GovernedRun where
  state : ToolCallOutcomeState := createToolCallOutcomeState
  since : List ToolObservation := []

def GovernedRun.observe (run : GovernedRun) (observation : ToolObservation) : GovernedRun where
  state := (advanceToolCallOutcomeGovernor sha256 config run.state observation).state
  since := if progresses sha256 run.state observation then [] else run.since ++ [observation]

def governedRun (observations : List ToolObservation) : GovernedRun :=
  observations.foldl (GovernedRun.observe sha256 config) {}

/-- A shorter period has passed the warning without a full cycle, in front of a full cycle. -/
def HiddenCycle (w : List ToolObservation) : Prop :=
  ∃ p, 2 ≤ p ∧ p ≤ maxPeriod config ∧ OutcomeCycle (warnAfter config) p w ∧
    (∀ p', 2 ≤ p' → p' ≤ p → ¬ OutcomeCycle (stopAfter config) p' w) ∧
    ∃ q, q ≤ maxPeriod config ∧ p < q ∧ OutcomeCycle (stopAfter config) q w

variable {sha256 config} {run : GovernedRun}

/-- The history is what the governor keeps of the observations since the last progress. -/
def GovernedRun.Keeps (sha256 : String → String) (config : ToolCallRepeatGovernorConfig)
    (run : GovernedRun) : Prop :=
  run.state.history = keptEntries sha256 (maxPeriod config * stopAfter config) run.since

theorem GovernedRun.Keeps.observe (h : run.Keeps sha256 config) (observation : ToolObservation) :
    (run.observe sha256 config observation).Keeps sha256 config := by
  unfold Keeps at *
  unfold GovernedRun.observe advanceToolCallOutcomeGovernor
  split
  · exact keptEntries_nil.symm
  · dsimp only
    rw [h, keptEntries_snoc]
    split <;> rfl

theorem governedRun_keeps (observations : List ToolObservation) :
    (governedRun sha256 config observations).Keeps sha256 config := by
  induction observations using List.reverseRecOn with
  | nil => exact keptEntries_nil.symm
  | append_singleton earlier observation ih =>
      rw [governedRun, List.foldl_append]
      exact ih.observe observation

/-- What a step decides, over the observations since the last progress. -/
theorem GovernedRun.Keeps.stops_iff (hash : Function.Injective sha256)
    (h : run.Keeps sha256 config) (observation : ToolObservation) :
    (advanceToolCallOutcomeGovernor sha256 config run.state observation).shouldForceStop = true ↔
      ∃ p, 2 ≤ p ∧ p ≤ maxPeriod config ∧
        (∀ p', 2 ≤ p' → p' < p → ¬ OutcomeCycle (warnAfter config) p'
          (run.observe sha256 config observation).since) ∧
        OutcomeCycle (stopAfter config) p (run.observe sha256 config observation).since := by
  unfold GovernedRun.observe advanceToolCallOutcomeGovernor
  split
  · refine ⟨nofun, fun ⟨p, _, _, _, hcycle⟩ => ?_⟩
    obtain ⟨x, hx, -⟩ := hcycle.unrepeatable
    simp at hx
  · dsimp only
    rw [h, keptEntries_snoc]
    generalize run.since ++ [observation] = w
    have hwarn := two_le_warnAfter config
    have hstop := warnAfter_le_stopAfter config
    have hpasses (p : ℕ) (hp : 2 ≤ p) (hmax : p ≤ maxPeriod config) :
        passesWarning (keptEntries sha256 (maxPeriod config * stopAfter config) w)
          (warnAfter config) p = true ↔ OutcomeCycle (warnAfter config) p w := by
      refine passesWarning_iff hash (by omega) (by omega) ?_
      rw [Nat.mul_comm (maxPeriod config)]
      exact Nat.mul_le_mul hstop hmax
    cases hfind : (List.range' 2 (maxPeriod config - 1)).find? (passesWarning
        (keptEntries sha256 (maxPeriod config * stopAfter config) w) (warnAfter config)) with
    | none =>
        rw [List.find?_range'_eq_none] at hfind
        refine ⟨nofun, fun ⟨p, hp, hmax, _, hfull⟩ => ?_⟩
        have hnone := hfind p hp (by omega)
        rw [(hpasses p hp hmax).mpr (hfull.mono hstop)] at hnone
        cases hnone
    | some p =>
        obtain ⟨hp, hmem, hfirst⟩ := List.find?_range'_eq_some.mp hfind
        rw [List.mem_range'_1] at hmem
        have hmax : p ≤ maxPeriod config := by omega
        have hwarns := (hpasses p hmem.1 hmax).mp hp
        have hbefore (p' : ℕ) (hp' : 2 ≤ p') (hlt : p' < p) :
            ¬ OutcomeCycle (warnAfter config) p' w := by
          rw [← hpasses p' hp' (by omega)]
          simpa using hfirst p' hp' hlt
        have hcycles : stopAfter config ≤ cyclesOf
            (keptEntries sha256 (maxPeriod config * stopAfter config) w) p ↔
              OutcomeCycle (stopAfter config) p w := by
          refine hwarns.le_cyclesOf_iff hash (by omega) (by omega) (by omega) ?_
          rw [Nat.mul_comm (maxPeriod config)]
          exact Nat.mul_le_mul le_rfl hmax
        dsimp only
        rw [decide_eq_true_iff, hcycles]
        constructor
        · exact fun hfull => ⟨p, hmem.1, hmax, hbefore, hfull⟩
        · rintro ⟨q, hq, hqmax, hqfirst, hfull⟩
          obtain hlt | rfl | hlt := lt_trichotomy q p
          · exact absurd (hfull.mono hstop) (hbefore q hq hlt)
          · exact hfull
          · exact absurd hwarns (hqfirst p hmem.1 hlt)

/-- A step asks for a stop exactly on full cycles, as long as no full cycle is hidden. -/
theorem governor_stops_on_cycles (hash : Function.Injective sha256)
    (earlier : List ToolObservation) (observation : ToolObservation) :
    ((advanceToolCallOutcomeGovernor sha256 config (governedRun sha256 config earlier).state
        observation).shouldForceStop = true ↔
      ∃ p, 2 ≤ p ∧ p ≤ maxPeriod config ∧ OutcomeCycle (stopAfter config) p
        (governedRun sha256 config (earlier ++ [observation])).since) ↔
      ¬ HiddenCycle config (governedRun sha256 config (earlier ++ [observation])).since := by
  have hrun : governedRun sha256 config (earlier ++ [observation]) =
      (governedRun sha256 config earlier).observe sha256 config observation := List.foldl_append
  rw [(governedRun_keeps earlier).stops_iff hash observation, hrun]
  generalize ((governedRun sha256 config earlier).observe sha256 config observation).since = w
  constructor
  · rintro hexact ⟨p, hp, hmax, hwarns, hnone, q, hqmax, hpq, hfull⟩
    obtain ⟨r, hr, -, hfirst, hstops⟩ := hexact.mpr ⟨q, by omega, hqmax, hfull⟩
    by_cases hrp : r ≤ p
    · exact hnone r hr hrp hstops
    · exact hfirst p hp (by omega) hwarns
  · intro hvisible
    constructor
    · rintro ⟨p, hp, hmax, -, hfull⟩
      exact ⟨p, hp, hmax, hfull⟩
    · rintro ⟨q, hq, hqmax, hfull⟩
      -- the shortest period that passes the warning
      have hwarns : ∃ p, 2 ≤ p ∧ OutcomeCycle (warnAfter config) p w :=
        ⟨q, hq, hfull.mono (warnAfter_le_stopAfter config)⟩
      classical
      have hmin := Nat.find_min' hwarns ⟨hq, hfull.mono (warnAfter_le_stopAfter config)⟩
      obtain ⟨hp, hwarning⟩ := Nat.find_spec hwarns
      have hfirst (p' : ℕ) (hp' : 2 ≤ p') (hlt : p' < Nat.find hwarns) :
          ¬ OutcomeCycle (warnAfter config) p' w :=
        fun h => Nat.find_min hwarns hlt ⟨hp', h⟩
      generalize Nat.find hwarns = p at *
      refine ⟨p, hp, by omega, hfirst, ?_⟩
      by_contra hnot
      have hnone (p' : ℕ) (hp' : 2 ≤ p') (hle : p' ≤ p) :
          ¬ OutcomeCycle (stopAfter config) p' w := by
        obtain hlt | rfl := Nat.lt_or_eq_of_le hle
        · exact fun h => hfirst p' hp' hlt (h.mono (warnAfter_le_stopAfter config))
        · exact hnot
      have hpq : p < q := lt_of_not_ge fun hle => hnone q hq hle hfull
      exact hvisible ⟨p, hp, by omega, hwarning, hnone, q, hqmax, hpq, hfull⟩

/-- No cycle is hidden where the warning comes late enough for the periods to overlap. -/
theorem not_hiddenCycle_of_overlap {w : List ToolObservation}
    (h : ∀ p q, 2 ≤ p → p < q → q ≤ maxPeriod config →
      q ≤ (warnAfter config - 1) * p + p.gcd q) : ¬ HiddenCycle config w := by
  rintro ⟨p, hp, -, hwarns, hnone, q, hq, hpq, hfull⟩
  have hwarn := two_le_warnAfter config
  have hstop := warnAfter_le_stopAfter config
  exact hnone p hp le_rfl ⟨hwarns.copies.extend hfull.copies (by omega) (by omega) (by omega) hpq
    (h p q hp hpq hq), hwarns.varies, hwarns.unrepeatable⟩

/-- Periods up to four, as by default, overlap whenever the warning comes. -/
theorem not_hiddenCycle_of_maxPeriod {w : List ToolObservation} (h : maxPeriod config ≤ 4) :
    ¬ HiddenCycle config w := by
  refine not_hiddenCycle_of_overlap fun p q hp hpq hq => ?_
  have hwarn := two_le_warnAfter config
  have hround : p ≤ (warnAfter config - 1) * p := Nat.le_mul_of_pos_left p (by omega)
  have hgcd : 0 < p.gcd q := Nat.gcd_pos_of_pos_left q (by omega)
  obtain ⟨rfl, rfl⟩ | hnear : (p = 2 ∧ q = 4) ∨ q = p + 1 := by omega
  · change 4 ≤ _ + 2
    omega
  · omega

end Runs

section Example

/-- Short cycles are looked for with an early warning. -/
def earlyWarning : ToolCallRepeatGovernorConfig where
  cycleMaxPeriod := some 5
  cycleWarnAfter := some 2
  cycleStopAfter := some 3

def calls (names : List String) : List ToolObservation :=
  names.map fun name => { call := name, resultText := "same" }

/-- Three rounds of five calls that end alike, but for the last call. -/
def hiddenRounds : List String :=
  ["c", "a", "b", "a", "b", "c", "a", "b", "a", "b", "c", "a", "b", "a"]

/-- The short end of a long cycle hides it. -/
theorem shortCycle_hides :
    ¬ ∀ (sha256 : String → String) (config : ToolCallRepeatGovernorConfig)
      (earlier : List ToolObservation) (observation : ToolObservation),
      Function.Injective sha256 →
      ((advanceToolCallOutcomeGovernor sha256 config (governedRun sha256 config earlier).state
          observation).shouldForceStop = true ↔
        ∃ p, 2 ≤ p ∧ p ≤ maxPeriod config ∧ OutcomeCycle (stopAfter config) p
          (governedRun sha256 config (earlier ++ [observation])).since) := by
  intro hall
  have hstops := (hall id earlyWarning (calls hiddenRounds) ⟨"b", "same", false, false⟩
    Function.injective_id).mpr
  have hsince : (governedRun id earlyWarning
      (calls hiddenRounds ++ [⟨"b", "same", false, false⟩])).since =
        calls (hiddenRounds ++ ["b"]) := by decide +kernel
  rw [hsince] at hstops
  have hstop := hstops ⟨5, by omega, by decide +kernel,
    ⟨[], (calls ["c", "a", "b", "a", "b"]).map (·.outcome), by decide +kernel, rfl⟩,
    by decide +kernel, by decide +kernel⟩
  revert hstop
  decide +kernel

theorem governor_stops_on_cycles_default :
    ((advanceToolCallOutcomeGovernor id {} (governedRun id {} (calls hiddenRounds)).state
        ⟨"b", "same", false, false⟩).shouldForceStop = true ↔
      ∃ p, 2 ≤ p ∧ p ≤ maxPeriod {} ∧ OutcomeCycle (stopAfter {}) p
        (governedRun id {} (calls hiddenRounds ++ [⟨"b", "same", false, false⟩])).since) :=
  (governor_stops_on_cycles Function.injective_id _ _).mpr
    (not_hiddenCycle_of_maxPeriod (by decide +kernel))

end Example

end Kyberion.Tool
