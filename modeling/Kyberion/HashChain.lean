import Mathlib.Data.List.Basic
import Mathlib.Data.List.Infix
import Mathlib.Data.List.Nodup

/-!
Lists of entries that each name the hash of the entry before them. A chain
whose hashes determine what they cover and never return to the anchor has
pairwise distinct hashes, so every chain from the same anchor that is put
together from its entries is one of its prefixes.
-/

namespace Kyberion

universe u v w

variable {ε : Type u} {η : Type v} {β : Type w} {prev hash : ε → η} {body : ε → β}

/-- Each entry's `prev` is the hash before it; the first one's is the anchor. -/
def Linked (prev hash : ε → η) : η → List ε → Prop
  | _, [] => True
  | anchor, e :: es => prev e = anchor ∧ Linked prev hash (hash e) es

theorem Linked.append {anchor : η} {es fs : List ε} (h : Linked prev hash anchor es)
    (h' : ∀ last, (anchor :: es.map hash).getLast? = some last → Linked prev hash last fs) :
    Linked prev hash anchor (es ++ fs) := by
  induction es generalizing anchor with
  | nil => exact h' anchor rfl
  | cons e es ih =>
      refine ⟨h.1, ih h.2 fun last hlast => h' last ?_⟩
      rwa [List.map_cons, List.getLast?_cons_cons]

theorem Linked.left {anchor : η} {es fs : List ε} (h : Linked prev hash anchor (es ++ fs)) :
    Linked prev hash anchor es := by
  induction es generalizing anchor with
  | nil => trivial
  | cons e es ih => exact ⟨h.1, ih h.2⟩

theorem Linked.right {anchor last : η} {es fs : List ε} (h : Linked prev hash anchor (es ++ fs))
    (hlast : (anchor :: es.map hash).getLast? = some last) : Linked prev hash last fs := by
  induction es generalizing anchor with
  | nil =>
      obtain rfl := Option.some.inj hlast
      exact h
  | cons e es ih =>
      rw [List.map_cons, List.getLast?_cons_cons] at hlast
      exact ih h.2 hlast

theorem Linked.prev_getElem {anchor : η} {es : List ε} (h : Linked prev hash anchor es) {n : ℕ}
    (hn : n < es.length) :
    (anchor :: es.map hash)[n]? = some (prev es[n]) := by
  induction es generalizing anchor n with
  | nil => simp at hn
  | cons e es ih =>
      cases n with
      | zero => simp [h.1]
      | succ n =>
          have hn' : n < es.length := by simpa using hn
          simpa using ih h.2 hn'

/-- What holds of the anchor and of every hash holds of every `prev`. -/
theorem Linked.forall_prev {P : η → Prop} {anchor : η} {es : List ε}
    (h : Linked prev hash anchor es) (hanchor : P anchor) (hhash : ∀ e ∈ es, P (hash e)) :
    ∀ e ∈ es, P (prev e) := by
  induction es generalizing anchor with
  | nil => exact fun e he => absurd he List.not_mem_nil
  | cons f es ih =>
      intro e he
      rcases List.mem_cons.mp he with rfl | hrest
      · rw [h.1]
        exact hanchor
      · exact ih h.2 (hhash f List.mem_cons_self)
          (fun g hg => hhash g (List.mem_cons_of_mem f hg)) e hrest

/-- Hashes that determine what they cover are pairwise distinct along a chain. -/
theorem Linked.hash_ne {anchor : η} {es : List ε} (h : Linked prev hash anchor es)
    (hanchor : ∀ e ∈ es, hash e ≠ anchor)
    (hcover : ∀ e ∈ es, ∀ f ∈ es, hash e = hash f → prev e = prev f) {i j : ℕ}
    (hj : j ≤ es.length) (hij : i < j) :
    (anchor :: es.map hash)[i]? ≠ (anchor :: es.map hash)[j]? := by
  induction i generalizing j with
  | zero =>
      obtain ⟨j, rfl⟩ := Nat.exists_eq_succ_of_ne_zero (Nat.ne_of_gt hij)
      have hlt : j < es.length := hj
      intro heq
      have hback : hash es[j] = anchor := by simpa [hlt] using heq.symm
      exact hanchor _ (List.getElem_mem hlt) hback
  | succ i ih =>
      obtain ⟨j, rfl⟩ := Nat.exists_eq_succ_of_ne_zero (Nat.ne_of_gt (Nat.zero_lt_of_lt hij))
      have hlt : j < es.length := hj
      have hlti : i < es.length := by omega
      intro heq
      have hhash : hash es[i] = hash es[j] := by simpa [hlt, hlti] using heq
      refine ih (Nat.le_of_lt hlt) (Nat.lt_of_succ_lt_succ hij) ?_
      rw [h.prev_getElem hlti, h.prev_getElem hlt,
        hcover _ (List.getElem_mem hlti) _ (List.getElem_mem hlt) hhash]

/-- A chain put together from entries of another one is a prefix of it. -/
theorem Linked.map_prefix {anchor : η} {es rs : List ε} (hes : Linked prev hash anchor es)
    (hrs : Linked prev hash anchor rs) (hanchor : ∀ r ∈ rs, hash r ≠ anchor)
    (hcover : ∀ r ∈ rs, ∀ s ∈ rs, hash r = hash s → prev r = prev s)
    (hfrom : ∀ e ∈ es, ∃ r ∈ rs, body e = body r ∧ prev e = prev r ∧ hash e = hash r) :
    es.map body <+: rs.map body := by
  have hpoint : ∀ n, ∀ hn : n < es.length, ∃ hr : n < rs.length,
      body es[n] = body rs[n] ∧ hash es[n] = hash rs[n] := by
    intro n
    induction n with
    | zero =>
        intro hn
        obtain ⟨r, hr, hbody, hprev, hhash⟩ := hfrom _ (List.getElem_mem hn)
        obtain ⟨j, hj, rfl⟩ := List.getElem_of_mem hr
        have hfirst := hes.prev_getElem hn
        rw [hprev, ← hrs.prev_getElem hj] at hfirst
        cases j with
        | zero => exact ⟨hj, hbody, hhash⟩
        | succ j =>
            exact absurd hfirst (hrs.hash_ne hanchor hcover (Nat.le_of_lt hj) (Nat.succ_pos j))
    | succ n ih =>
        intro hn
        obtain ⟨hlt, -, hbefore⟩ := ih (Nat.lt_of_succ_lt hn)
        obtain ⟨r, hr, hbody, hprev, hhash⟩ := hfrom _ (List.getElem_mem hn)
        obtain ⟨j, hj, rfl⟩ := List.getElem_of_mem hr
        have hnext := hes.prev_getElem hn
        have hsame : (anchor :: es.map hash)[n + 1]? = (anchor :: rs.map hash)[n + 1]? := by
          simp [Nat.lt_of_succ_lt hn, hlt, hbefore]
        rw [hprev, ← hrs.prev_getElem hj, hsame] at hnext
        rcases Nat.lt_trichotomy (n + 1) j with hbelow | rfl | habove
        · exact absurd hnext (hrs.hash_ne hanchor hcover (Nat.le_of_lt hj) hbelow)
        · exact ⟨hj, hbody, hhash⟩
        · exact absurd hnext.symm (hrs.hash_ne hanchor hcover hlt habove)
  rw [List.prefix_iff_getElem?]
  intro n hn
  rw [List.length_map] at hn
  obtain ⟨hr, hbody, -⟩ := hpoint n hn
  simp [hr, hbody]

end Kyberion
