import Mathlib.Data.List.Basic

/-!
Calls that run under a lock: a call reads and writes one state, and what it
wrote before it throws stays written. `wp` is the weakest condition under which
a return satisfies `Q` and a throw satisfies `E`; its rules follow the
constructors, so a proof about a call goes through it from the front.
-/

namespace Kyberion

/-- What a call leaves behind, and what it returns or throws. -/
structure Call (σ ε α : Type) where
  run : σ → σ × Except ε α

namespace Call

variable {σ ε α β : Type}

def ret (a : α) : Call σ ε α :=
  ⟨fun s => (s, .ok a)⟩

def andThen (m : Call σ ε α) (f : α → Call σ ε β) : Call σ ε β :=
  ⟨fun s => match m.run s with
    | (t, .ok a) => (f a).run t
    | (t, .error e) => (t, .error e)⟩

instance : Monad (Call σ ε) where
  pure := ret
  bind := andThen

def read : Call σ ε σ :=
  ⟨fun s => (s, .ok s)⟩

def write (f : σ → σ) : Call σ ε Unit :=
  ⟨fun s => (f s, .ok ())⟩

def fail (e : ε) : Call σ ε α :=
  ⟨fun s => (s, .error e)⟩

/-- `if (c) throw e` -/
def refuse (c : Prop) [Decidable c] (e : ε) : Call σ ε Unit :=
  if c then fail e else ret ()

/-- A computation that does not touch the state. -/
def lift (r : Except ε α) : Call σ ε α :=
  ⟨fun s => (s, r)⟩

/-- `for (const a of l) f(a)` -/
def each (f : α → Call σ ε Unit) : List α → Call σ ε Unit
  | [] => pure ()
  | a :: l => f a >>= fun _ => each f l

/-- The call, without what it returns. -/
def void (m : Call σ ε α) : Call σ ε Unit :=
  m >>= fun _ => pure ()

def wp (m : Call σ ε α) (Q : α → σ → Prop) (E : σ → Prop) (s : σ) : Prop :=
  match m.run s with
  | (t, .ok a) => Q a t
  | (t, .error _) => E t

variable {Q R : α → σ → Prop} {E F : σ → Prop} {s : σ}

@[simp] theorem wp_pure (a : α) : wp (pure a : Call σ ε α) Q E = Q a :=
  rfl

@[simp] theorem wp_bind (m : Call σ ε α) (f : α → Call σ ε β) {Q : β → σ → Prop} :
    wp (m >>= f) Q E = wp m (fun a => wp (f a) Q E) E := by
  funext s
  have hrun : (m >>= f).run s = (andThen m f).run s := rfl
  simp only [wp, hrun, andThen]
  cases hm : m.run s with
  | mk t r => cases r <;> rfl

@[simp] theorem wp_read {Q : σ → σ → Prop} : wp (read : Call σ ε σ) Q E = fun s => Q s s :=
  rfl

@[simp] theorem wp_write (f : σ → σ) {Q : Unit → σ → Prop} :
    wp (write f : Call σ ε Unit) Q E = fun s => Q () (f s) :=
  rfl

@[simp] theorem wp_fail (e : ε) : wp (fail e : Call σ ε α) Q E = E :=
  rfl

@[simp] theorem wp_refuse (c : Prop) [Decidable c] (e : ε) {Q : Unit → σ → Prop} :
    wp (refuse c e : Call σ ε Unit) Q E = fun s => (c → E s) ∧ (¬ c → Q () s) := by
  by_cases h : c
  · simp [refuse, h]
  · simp [refuse, h, show (ret () : Call σ ε Unit) = pure () from rfl]

@[simp] theorem wp_lift (r : Except ε α) :
    wp (lift r : Call σ ε α) Q E =
      fun s => (∀ a, r = .ok a → Q a s) ∧ ∀ e, r = .error e → E s := by
  funext s
  cases r <;> simp [wp, lift]

@[simp] theorem wp_ite (c : Prop) [Decidable c] (m n : Call σ ε α) :
    wp (if c then m else n) Q E = fun s => (c → wp m Q E s) ∧ (¬ c → wp n Q E s) := by
  by_cases h : c <;> simp [h]

theorem wp_mono {m : Call σ ε α} (hQ : ∀ a t, Q a t → R a t) (hE : ∀ t, E t → F t)
    (h : wp m Q E s) : wp m R F s := by
  unfold wp at h ⊢
  cases hm : m.run s with
  | mk t r =>
      rw [hm] at h
      cases r with
      | ok a => exact hQ a t h
      | error e => exact hE t h

theorem wp_and {m : Call σ ε α} (h : wp m Q E s) (h' : wp m R F s) :
    wp m (fun a t => Q a t ∧ R a t) (fun t => E t ∧ F t) s := by
  unfold wp at h h' ⊢
  cases hm : m.run s with
  | mk t r =>
      rw [hm] at h h'
      cases r with
      | ok a => exact ⟨h, h'⟩
      | error e => exact ⟨h, h'⟩

@[simp] theorem wp_void (m : Call σ ε α) {Q : Unit → σ → Prop} :
    wp m.void Q E = wp m (fun _ => Q ()) E :=
  wp_bind m _

/-- A loop whose rounds use up what holds of the rest of the list. -/
theorem wp_each_rest {f : α → Call σ ε Unit} {I : List α → σ → Prop} {l : List α}
    (h : ∀ a l s, I (a :: l) s → wp (f a) (fun _ => I l) E s) (hs : I l s) :
    wp (each f l) (fun _ => I []) E s := by
  induction l generalizing s with
  | nil => exact hs
  | cons a l ih =>
      rw [each, wp_bind]
      exact wp_mono (fun _ t ht => ih ht) (fun _ ht => ht) (h a l s hs)

/-- A loop keeps what each of its rounds keeps. -/
theorem wp_each {f : α → Call σ ε Unit} {I : σ → Prop} {l : List α}
    (h : ∀ a ∈ l, ∀ s, I s → wp (f a) (fun _ => I) I s) (hs : I s) :
    wp (each f l) (fun _ => I) I s := by
  have hrest := wp_each_rest (f := f) (I := fun rest t => (∀ a ∈ rest, a ∈ l) ∧ I t) (E := I)
    (fun a rest t ⟨hsub, ht⟩ => ?_) ⟨fun _ ha => ha, hs⟩
  · exact wp_mono (fun _ _ ht => ht.2) (fun _ ht => ht) hrest
  · refine wp_mono (fun _ u hu => ⟨fun b hb => hsub b (List.mem_cons_of_mem a hb), hu⟩)
      (fun _ hu => hu) (h a (hsub a List.mem_cons_self) t ht)

/-- What holds of the state whichever way a call ends. -/
theorem wp_fst {m : Call σ ε α} {I : σ → Prop} : wp m (fun _ => I) I s ↔ I (m.run s).1 := by
  unfold wp
  cases hm : m.run s with
  | mk t r => cases r <;> rfl

@[simp] theorem void_fst (m : Call σ ε α) : (m.void.run s).1 = (m.run s).1 := by
  have hrun : m.void.run s = (andThen m fun _ => ret ()).run s := rfl
  rw [hrun, andThen]
  dsimp only
  cases hm : m.run s with
  | mk t r => cases r <;> rfl

/-- What holds of the state when a call returns. -/
theorem wp_ok {m : Call σ ε α} {a : α} (h : wp m Q E s) (hret : (m.run s).2 = .ok a) :
    Q a (m.run s).1 := by
  unfold wp at h
  cases hm : m.run s with
  | mk t r =>
      rw [hm] at h hret
      obtain rfl : r = .ok a := hret
      exact h

/-- What holds of the state when a call throws. -/
theorem wp_error {m : Call σ ε α} {e : ε} (h : wp m Q E s) (hthrow : (m.run s).2 = .error e) :
    E (m.run s).1 := by
  unfold wp at h
  cases hm : m.run s with
  | mk t r =>
      rw [hm] at h hthrow
      obtain rfl : r = .error e := hthrow
      exact h

/-- A call that returns one value from one state only. -/
theorem run_of_wp {m : Call σ ε α} {a : α} {t : σ}
    (h : wp m (fun b u => b = a ∧ u = t) (fun _ => False) s) : m.run s = (t, .ok a) := by
  unfold wp at h
  cases hm : m.run s with
  | mk u r =>
      rw [hm] at h
      cases r with
      | ok b =>
          obtain ⟨rfl, rfl⟩ := h
          rfl
      | error e => exact h.elim

-- a goal about a call is taken apart by the rules only
attribute [irreducible] wp

end Call

end Kyberion
