import Mathlib.Logic.Relation
import Mathlib.Order.Basic

/-!
Labelled transition systems with one outcome per label; choices that the
environment makes are part of the label. `Reach ok` collects the states of the
runs whose every step meets a side condition, and its invariant rule is the one
induction the protocol modules share.
-/

namespace Kyberion.Transition

universe u v w

structure System (σ : Type u) (α : Type v) where
  init : σ → Prop
  step : σ → α → Option σ

namespace System

variable {σ : Type u} {α : Type v} (S : System σ α)

/-- Replays a list of labels; a label that is not enabled stops the replay. -/
def exec : σ → List α → Option σ
  | s, [] => some s
  | s, a :: as => (S.step s a).bind fun t => exec t as

@[simp] theorem exec_nil (s : σ) : S.exec s [] = some s := rfl

theorem exec_cons (s : σ) (a : α) (as : List α) :
    S.exec s (a :: as) = (S.step s a).bind fun t => S.exec t as := rfl

theorem exec_append (s : σ) (as bs : List α) :
    S.exec s (as ++ bs) = (S.exec s as).bind fun t => S.exec t bs := by
  induction as generalizing s with
  | nil => rfl
  | cons a as ih =>
      simp only [List.cons_append, exec_cons, Option.bind_assoc, ih]

/-- States of the runs whose every step `(s, a)` satisfies `ok s a`. -/
inductive Reach (ok : σ → α → Prop) : σ → Prop
  | start {s : σ} : S.init s → Reach ok s
  | next {s t : σ} {a : α} : Reach ok s → ok s a → S.step s a = some t → Reach ok t

/-- All runs. -/
def Reachable (s : σ) : Prop :=
  S.Reach (fun _ _ => True) s

variable {S}

theorem Reach.mono {ok ok' : σ → α → Prop} (h : ∀ s a, ok s a → ok' s a) {s : σ}
    (hs : S.Reach ok s) : S.Reach ok' s := by
  induction hs with
  | start h0 => exact .start h0
  | next _ hok hstep ih => exact .next ih (h _ _ hok) hstep

theorem Reach.reachable {ok : σ → α → Prop} {s : σ} (hs : S.Reach ok s) : S.Reachable s :=
  hs.mono fun _ _ _ => trivial

/-- What holds initially and survives every admitted step holds throughout. -/
theorem Reach.invariant {ok : σ → α → Prop} {I : σ → Prop} (h0 : ∀ s, S.init s → I s)
    (hstep : ∀ s a t, I s → ok s a → S.step s a = some t → I t) {s : σ}
    (hs : S.Reach ok s) : I s := by
  induction hs with
  | start h => exact h0 _ h
  | next _ hok ht ih => exact hstep _ _ _ ih hok ht

theorem Reach.exec {ok : σ → α → Prop} {s t : σ} {as : List α} (hs : S.Reach ok s)
    (hok : ∀ s a, a ∈ as → ok s a) (h : S.exec s as = some t) : S.Reach ok t := by
  induction as generalizing s with
  | nil =>
      obtain rfl := Option.some.inj h
      exact hs
  | cons a as ih =>
      obtain ⟨u, hu, ht⟩ := Option.bind_eq_some_iff.mp h
      exact ih (.next hs (hok s a List.mem_cons_self) hu)
        (fun s b hb => hok s b (List.mem_cons_of_mem a hb)) ht

/-- Where the steps that meet a side condition lead to. -/
def Leads (S : System σ α) (ok : σ → α → Prop) : σ → σ → Prop :=
  Relation.ReflTransGen fun s t => ∃ a, ok s a ∧ S.step s a = some t

theorem Reach.leads {ok : σ → α → Prop} {s t : σ} (hs : S.Reach ok s) (h : S.Leads ok s t) :
    S.Reach ok t := by
  induction h with
  | refl => exact hs
  | tail _ hstep ih =>
      obtain ⟨a, hok, hstep⟩ := hstep
      exact .next ih hok hstep

theorem Leads.mono {ok ok' : σ → α → Prop} (h : ∀ s a, ok s a → ok' s a) {s t : σ}
    (hlead : S.Leads ok s t) : S.Leads ok' s t := by
  induction hlead with
  | refl => exact .refl
  | tail _ hstep ih =>
      obtain ⟨a, hok, hstep⟩ := hstep
      exact ih.tail ⟨a, h _ _ hok, hstep⟩

/-- What every admitted step from a reached state preserves, a run from there preserves. -/
theorem Leads.preserves {ok : σ → α → Prop} {R : σ → σ → Prop} (hrefl : ∀ s, R s s)
    (htrans : ∀ s t u, R s t → R t u → R s u)
    (hstep : ∀ s a t, S.Reach ok s → ok s a → S.step s a = some t → R s t) {s t : σ}
    (hs : S.Reach ok s) (h : S.Leads ok s t) : R s t := by
  induction h with
  | refl => exact hrefl s
  | tail hlead hlast ih =>
      obtain ⟨a, hok, hlast⟩ := hlast
      exact htrans _ _ _ ih (hstep _ a _ (hs.leads hlead) hok hlast)

/-- A replay from an initial state ends in a reachable state. -/
theorem reachable_of_exec {s t : σ} {as : List α} (h0 : S.init s)
    (h : S.exec s as = some t) : S.Reachable t :=
  Reach.exec (.start h0) (fun _ _ _ => trivial) h

/-- What a replay from an initial state ends in is reachable. -/
theorem exists_reachable_of_exec {s : σ} (as : List α) (P : σ → Prop) [DecidablePred P]
    (h0 : S.init s) (h : (S.exec s as).any (fun t => decide (P t)) = true) :
    ∃ t, S.Reachable t ∧ P t := by
  cases hexec : S.exec s as with
  | none => simp [hexec] at h
  | some t => exact ⟨t, reachable_of_exec h0 hexec, by simpa [hexec] using h⟩

/-- A replay all of whose steps meet a decidable side condition. -/
def execOk (S : System σ α) (ok : σ → α → Bool) : σ → List α → Option σ
  | s, [] => some s
  | s, a :: as => if ok s a then (S.step s a).bind fun t => execOk S ok t as else none

theorem reach_of_execOk {ok : σ → α → Bool} {s t : σ} {as : List α}
    (hs : S.Reach (fun s a => ok s a) s) (h : execOk S ok s as = some t) :
    S.Reach (fun s a => ok s a) t := by
  induction as generalizing s with
  | nil =>
      obtain rfl := Option.some.inj h
      exact hs
  | cons a as ih =>
      simp only [execOk] at h
      split at h
      · rename_i ha
        obtain ⟨u, hu, ht⟩ := Option.bind_eq_some_iff.mp h
        exact ih (.next hs ha hu) ht
      · cases h

/-- A replay whose steps meet a decidable side condition, by labels that meet another. -/
theorem exists_reach_of_execOk_mem (ok : σ → α → Bool) {Q : α → Prop} {s : σ} (as : List α)
    (P : σ → Prop) [DecidablePred P] (hQ : ∀ a ∈ as, Q a) (h0 : S.init s)
    (h : (execOk S ok s as).any (fun t => decide (P t)) = true) :
    ∃ t, S.Reach (fun s a => Q a ∧ ok s a) t ∧ P t := by
  suffices hreach : ∀ s t, S.Reach (fun s a => Q a ∧ ok s a) s → execOk S ok s as = some t →
      S.Reach (fun s a => Q a ∧ ok s a) t by
    cases hexec : execOk S ok s as with
    | none => simp [hexec] at h
    | some t => exact ⟨t, hreach s t (.start h0) hexec, by simpa [hexec] using h⟩
  clear h
  induction as with
  | nil =>
      intro s t hs hexec
      exact Option.some.inj hexec ▸ hs
  | cons a as ih =>
      intro s t hs hexec
      simp only [execOk] at hexec
      split at hexec
      · rename_i ha
        obtain ⟨u, hu, ht⟩ := Option.bind_eq_some_iff.mp hexec
        exact ih (fun b hb => hQ b (List.mem_cons_of_mem a hb)) u t
          (.next hs ⟨hQ a List.mem_cons_self, ha⟩ hu) ht
      · cases hexec

theorem leads_of_execOk {ok : σ → α → Bool} {s t : σ} {as : List α}
    (h : execOk S ok s as = some t) : S.Leads (fun s a => ok s a) s t := by
  induction as generalizing s with
  | nil =>
      obtain rfl := Option.some.inj h
      exact .refl
  | cons a as ih =>
      simp only [execOk] at h
      split at h
      · rename_i ha
        obtain ⟨u, hu, ht⟩ := Option.bind_eq_some_iff.mp h
        exact .head ⟨a, ha, hu⟩ (ih ht)
      · cases h

/-- A replay, and one that goes on from where it ends. -/
theorem exists_leads_of_execOk (ok : σ → α → Bool) {s : σ} (as bs : List α) (P : σ → σ → Prop)
    [∀ t u, Decidable (P t u)] (h0 : S.init s)
    (h : (execOk S ok s as).any
      (fun t => (execOk S ok t bs).any fun u => decide (P t u)) = true) :
    ∃ t u, S.Reach (fun s a => ok s a) t ∧ S.Leads (fun s a => ok s a) t u ∧ P t u := by
  obtain ⟨t, ht, h⟩ := (Option.any_eq_true _ _).mp h
  obtain ⟨u, hu, h⟩ := (Option.any_eq_true _ _).mp h
  exact ⟨t, u, reach_of_execOk (.start h0) ht, leads_of_execOk hu, of_decide_eq_true h⟩

theorem exists_reach_of_execOk (ok : σ → α → Bool) {s : σ} (as : List α) (P : σ → Prop)
    [DecidablePred P] (h0 : S.init s)
    (h : (execOk S ok s as).any (fun t => decide (P t)) = true) :
    ∃ t, S.Reach (fun s a => ok s a) t ∧ P t := by
  cases hexec : execOk S ok s as with
  | none => simp [hexec] at h
  | some t => exact ⟨t, reach_of_execOk (.start h0) hexec, by simpa [hexec] using h⟩

end System

end Kyberion.Transition
