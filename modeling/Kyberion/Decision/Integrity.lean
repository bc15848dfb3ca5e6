import Kyberion.Decision.Ledger
import Mathlib.Data.List.Nodup
import Mathlib.Data.List.Pairwise

/-!
Integrity of the decision ledger. The ids that the ledger assigns are new as long as the numbers of
the ids before them are below `2 ^ 53`; from there on `max + 1` rounds back to an id in use.
-/

namespace Kyberion.Decision

open Kyberion.Js Kyberion.Transition

variable {rs rs' : List DecisionRecord} {v r r' : DecisionRecord}

section Ids

/-- The numbers of the ids are below the first whole number that a double skips. -/
def idsBelow (rs : List DecisionRecord) : Bool :=
  rs.all fun r => (idNumber r.id).all fun n => n < 2 ^ 53

theorem largest_of_idsBelow (h : idsBelow rs = true) {acc : ℕ} (hacc : acc < 2 ^ 53) :
    ∃ m, rs.foldl largerNumber (some acc) = some m ∧
      acc ≤ m ∧ m < 2 ^ 53 ∧ ∀ r ∈ rs, ∀ n, idNumber r.id = some n → n ≤ m := by
  induction rs generalizing acc with
  | nil => exact ⟨acc, rfl, le_rfl, hacc, fun r hr => nomatch hr⟩
  | cons item rest ih =>
      simp only [idsBelow, List.all_cons, Bool.and_eq_true] at h
      obtain ⟨hitem, hrest⟩ := h
      rw [List.foldl_cons, largerNumber]
      cases hn : idNumber item.id with
      | none =>
          obtain ⟨m, hm, hle, hlt, hall⟩ := ih hrest hacc
          refine ⟨m, hm, hle, hlt, List.forall_mem_cons.mpr ⟨fun n h => ?_, hall⟩⟩
          rw [hn] at h
          cases h
      | some k =>
          have hk : k < 2 ^ 53 := by simpa [hn] using hitem
          simp only [toDouble_of_le hk.le, maxDouble]
          obtain ⟨m, hm, hle, hlt, hall⟩ := ih hrest (max_lt hacc hk)
          refine ⟨m, hm, by omega, hlt, List.forall_mem_cons.mpr ⟨fun n h => ?_, hall⟩⟩
          rw [hn] at h
          have : k = n := Option.some.inj h
          omega

theorem idNumber_padStart (n : ℕ) : idNumber ("D-" ++ padStart 4 (toString n)) = some n := by
  have hlength := le_length_padStart 4 (toString n)
  have hdigits : (padStart 4 (toString n)).toList.all Char.isDigit = true :=
    List.all_eq_true.mpr fun c hc => isDigit_of_mem_padStart hc
  have hne : (padStart 4 (toString n)).toList.isEmpty = false := by
    rw [List.isEmpty_eq_false_iff, ← List.length_pos_iff]
    omega
  have htext : ("D-" ++ padStart 4 (toString n)).toList =
      'D' :: '-' :: (padStart 4 (toString n)).toList := by
    rw [String.toList_append]
    rfl
  rw [idNumber, idDigits, htext]
  simp only [hne, hdigits, Bool.not_false, Bool.and_self, if_true, Option.map_some,
    digitsValue_padStart]

/-- The id that the ledger assigns is not in use. -/
theorem nextDecisionId_fresh (h : idsBelow rs = true) : nextDecisionId rs ∉ rs.map (·.id) := by
  obtain ⟨m, hm, -, hlt, hall⟩ := largest_of_idsBelow h (by decide : 0 < 2 ^ 53)
  have hnext : nextDecisionId rs = "D-" ++ padStart 4 (toString (m + 1)) := by
    rw [nextDecisionId, hm]
    simp only [addOne, Option.bind_some, toDouble_of_le (show m + 1 ≤ 2 ^ 53 by omega),
      numberText_of_le (show m + 1 ≤ 2 ^ 53 by omega)]
  intro hmem
  obtain ⟨r, hr, hid⟩ := List.mem_map.mp hmem
  have := hall r hr (m + 1) (by rw [hid, hnext, idNumber_padStart])
  omega

end Ids

section Accepted

/-- What validation and the schema say of the record that joins the working copy. -/
structure Admitted (rs : List DecisionRecord) (v : DecisionRecord) : Prop where
  active : v.active = true
  fresh : v.id ∉ rs.map (·.id)
  supersedes : ∀ id, v.supersedes = some id →
    ∃ r ∈ rs, r.active = true ∧ r.item = v.item ∧ r.key = v.key ∧ r.id = id
  alone : v.supersedes = none → ∀ r ∈ rs, r.active = true → ¬ (r.item = v.item ∧ r.key = v.key)

@[simp] theorem supersede_toDecisionContent (v r : DecisionRecord) :
    (supersede v r).toDecisionContent = r.toDecisionContent := by
  unfold supersede
  split <;> rfl

@[simp] theorem supersede_id (v r : DecisionRecord) : (supersede v r).id = r.id := by
  unfold supersede
  split <;> rfl

@[simp] theorem supersede_case_id (v r : DecisionRecord) : (supersede v r).case_id = r.case_id := by
  unfold supersede
  split <;> rfl

/-- No record becomes active again. -/
theorem active_of_supersede (h : (supersede v r).active = true) : r.active = true := by
  unfold supersede at h
  split at h
  · exact absurd h (by simp [DecisionRecord.active])
  · exact h

theorem supersede_named (hid : v.supersedes = some r.id) (hne : r.id ≠ "") :
    (supersede v r).active = false := by
  unfold supersede
  split
  · simp [DecisionRecord.active]
  · rename_i h
    cases hr : r.active with
    | false => rfl
    | true => exact absurd ⟨by simpa [hid, truthy] using hne, hid, hr⟩ h

theorem inactive_of_supersede (h : (supersede v r).active = false) :
    r.active = false ∨ v.supersedes = some r.id := by
  unfold supersede at h
  split at h
  · rename_i hnamed
    exact .inr hnamed.2.1
  · exact .inl h

theorem isDecisionId_ne_empty {id : String} (h : isDecisionId id = true) : id ≠ "" := by
  rintro rfl
  exact absurd h (by decide)

theorem truthy_iff {s : String} : truthy (some s) = true ↔ s ≠ "" := by
  simp [truthy]

theorem mem_live {input : DecisionAppendInput} :
    r ∈ live rs input ↔ r ∈ rs ∧ r.active = true ∧ r.item = input.item ∧ r.key = input.key := by
  simp [live, and_assoc]

theorem validateAppend_nil {input : DecisionAppendInput} (h : validateAppend rs input = []) :
    (∀ id, input.id = some id → id ≠ "" → id ∉ rs.map (·.id)) ∧
      (live rs input ≠ [] → truthy input.supersedes = true) ∧
      (truthy input.supersedes = true → ∃ r ∈ live rs input, some r.id = input.supersedes) := by
  have hnone : ∀ check ∈ _, _ := List.filterMap_eq_nil_iff.mp h
  simp only [List.forall_mem_cons, ite_eq_right_iff, reduceCtorEq, imp_false,
    Bool.not_eq_true, Bool.and_eq_false_imp, Bool.not_eq_eq_eq_not, Bool.not_true, Bool.not_false,
    List.any_eq_true, List.any_eq_false, decide_eq_true_eq, List.isEmpty_eq_false_iff]
    at hnone
  obtain ⟨-, -, -, -, -, -, hid, hneeds, hnames, -⟩ := hnone
  refine ⟨fun id hinput hne hmem => ?_, fun hlive => hneeds hlive, fun ht => ?_⟩
  · obtain ⟨r, hr, rfl⟩ := List.mem_map.mp hmem
    exact hid (by rw [hinput, truthy_iff]; exact hne) r hr hinput.symm
  · obtain ⟨r, hr, hname⟩ := hnames ht
    exact ⟨r, hr, hname⟩

/-- The number of the next id is exact, or the input brings its own id. -/
def assignsExactly (rs : List DecisionRecord) (input : DecisionAppendInput) : Bool :=
  input.id.isSome || idsBelow rs

theorem admitted_of_validated {caseId : String} {input : DecisionAppendInput}
    (hok : assignsExactly rs input = true) (hvalid : validateAppend rs input = [])
    (hfits : (fullRecord caseId rs input).fitsSchema = true) :
    Admitted rs (fullRecord caseId rs input) := by
  obtain ⟨hid, hneeds, hnames⟩ := validateAppend_nil hvalid
  simp only [DecisionRecord.fitsSchema, Bool.and_eq_true] at hfits
  obtain ⟨⟨⟨⟨⟨⟨⟨⟨⟨hidText, -⟩, -⟩, -⟩, -⟩, -⟩, -⟩, -⟩, -⟩, hsupersedes⟩ := hfits
  refine ⟨rfl, ?_, fun id hname => ?_, fun hname r hr hactive hsame => ?_⟩
  · change input.id.getD (nextDecisionId rs) ∉ _
    cases hinput : input.id with
    | none =>
        refine nextDecisionId_fresh ?_
        simpa [assignsExactly, hinput] using hok
    | some id =>
        refine hid id hinput (isDecisionId_ne_empty ?_)
        simpa [fullRecord, hinput] using hidText
  · have hinput : input.supersedes = some id := hname
    have hpattern : isDecisionId id = true := by simpa [hname] using hsupersedes
    obtain ⟨r, hr, hname⟩ := hnames (by rw [hinput, truthy_iff]; exact isDecisionId_ne_empty hpattern)
    obtain ⟨hmem, hactive, hitem, hkey⟩ := mem_live.mp hr
    exact ⟨r, hmem, hactive, hitem, hkey, Option.some.inj (hname.trans hinput)⟩
  · have htruthy := hneeds (List.ne_nil_of_mem (mem_live.mpr ⟨hr, hactive, hsame⟩))
    rw [show input.supersedes = none from hname] at htruthy
    cases htruthy

end Accepted

section Working

/-- Two records that would both be the current word on one item and key. -/
def Rivals (r r' : DecisionRecord) : Prop :=
  r.active = true ∧ r'.active = true ∧ r.item = r'.item ∧ r.key = r'.key

instance : Std.Symm fun r r' => ¬ Rivals r r' where
  symm _ _ h h' := h ⟨h'.2.1, h'.1, h'.2.2.1.symm, h'.2.2.2.symm⟩

/-- What every batch and promotion keeps of the records. -/
structure Integral (rs : List DecisionRecord) : Prop where
  distinct : (rs.map (·.id)).Nodup
  texts : ∀ r ∈ rs, r.id ≠ ""
  current : rs.Pairwise fun r r' => ¬ Rivals r r'
  once : (rs.filterMap (·.supersedes)).Nodup
  earlier : ∀ (j : ℕ) (r' : DecisionRecord), rs[j]? = some r' → ∀ id, r'.supersedes = some id →
    ∃ (i : ℕ) (r : DecisionRecord), i < j ∧ rs[i]? = some r ∧ r.id = id ∧ r.active = false ∧
      r.item = r'.item ∧ r.key = r'.key
  named : ∀ r ∈ rs, r.active = false → r.id ∈ rs.filterMap (·.supersedes)

theorem Integral.nil : Integral [] := by
  constructor <;> simp

/-- Records with one id are one record. -/
theorem Integral.eq_of_id (h : Integral rs) (hr : r ∈ rs) (hr' : r' ∈ rs) (hid : r.id = r'.id) :
    r = r' :=
  List.inj_on_of_nodup_map h.distinct hr hr' hid

/-- Active records of one item and key are one record. -/
theorem Integral.eq_of_active (h : Integral rs) (hr : r ∈ rs) (hr' : r' ∈ rs)
    (hrivals : Rivals r r') : r = r' := by
  by_contra hne
  exact h.current.forall hr hr' hne hrivals

/-- What a record supersedes was superseded before it. -/
theorem Integral.inactive_of_named (h : Integral rs) (hr : r ∈ rs)
    (hname : r.id ∈ rs.filterMap (·.supersedes)) : r.active = false := by
  obtain ⟨r', hr', hid⟩ := List.mem_filterMap.mp hname
  obtain ⟨j, hj⟩ := List.mem_iff_getElem?.mp hr'
  obtain ⟨i, t, -, hi, hit, hinactive, -⟩ := h.earlier j r' hj _ hid
  rw [h.eq_of_id hr (List.mem_of_getElem? hi) hit.symm]
  exact hinactive

theorem filterMap_supersede (v : DecisionRecord) (rs : List DecisionRecord) :
    (rs.map (supersede v)).filterMap (·.supersedes) = rs.filterMap (·.supersedes) := by
  rw [List.filterMap_map]
  congr 1
  funext r
  exact congrArg DecisionContent.supersedes (supersede_toDecisionContent v r)

theorem map_supersede_id (v : DecisionRecord) (rs : List DecisionRecord) :
    (rs.map (supersede v)).map (·.id) = rs.map (·.id) := by
  rw [List.map_map]
  congr 1
  funext r
  exact supersede_id v r

theorem getElem?_push {i : ℕ} (h : (rs.map (supersede v) ++ [v])[i]? = some r') :
    (∃ r, rs[i]? = some r ∧ supersede v r = r') ∨ i = rs.length ∧ v = r' := by
  rw [List.getElem?_append, List.length_map] at h
  split at h
  · rw [List.getElem?_map, Option.map_eq_some_iff] at h
    exact .inl h
  · rename_i hi
    rw [List.getElem?_singleton] at h
    split at h
    · exact .inr ⟨by omega, Option.some.inj h⟩
    · cases h

theorem push_getElem? {i : ℕ} (h : rs[i]? = some r) :
    (rs.map (supersede v) ++ [v])[i]? = some (supersede v r) := by
  have hi : i < (rs.map (supersede v)).length := by
    rw [List.length_map]
    exact (List.getElem?_eq_some_iff.mp h).1
  rw [List.getElem?_append_left hi, List.getElem?_map, h, Option.map_some]

@[simp] theorem supersede_item (v r : DecisionRecord) : (supersede v r).item = r.item :=
  congrArg DecisionContent.item (supersede_toDecisionContent v r)

@[simp] theorem supersede_key (v r : DecisionRecord) : (supersede v r).key = r.key :=
  congrArg DecisionContent.key (supersede_toDecisionContent v r)

@[simp] theorem supersede_supersedes (v r : DecisionRecord) :
    (supersede v r).supersedes = r.supersedes :=
  congrArg DecisionContent.supersedes (supersede_toDecisionContent v r)

theorem inactive_supersede (h : r.active = false) : (supersede v r).active = false := by
  cases hs : (supersede v r).active with
  | false => rfl
  | true =>
      rw [active_of_supersede hs] at h
      cases h

/-- An admitted record is the only active one on its item and key. -/
theorem Integral.not_rivals_admitted (h : Integral rs) (hv : Admitted rs v) (hr : r ∈ rs) :
    ¬ Rivals (supersede v r) v := by
  rintro ⟨hactive, -, hitem, hkey⟩
  rw [supersede_item] at hitem
  rw [supersede_key] at hkey
  have hwas := active_of_supersede hactive
  cases hname : v.supersedes with
  | none => exact hv.alone hname r hr hwas ⟨hitem, hkey⟩
  | some id =>
      obtain ⟨t, ht, htactive, htitem, htkey, rfl⟩ := hv.supersedes id hname
      obtain rfl := h.eq_of_active hr ht
        ⟨hwas, htactive, hitem.trans htitem.symm, hkey.trans htkey.symm⟩
      rw [supersede_named hname (h.texts r hr)] at hactive
      cases hactive

/-- What an admitted record supersedes, no record before it has superseded. -/
theorem Integral.not_named (h : Integral rs) (hv : Admitted rs v) {id : String}
    (hname : v.supersedes = some id) : id ∉ rs.filterMap (·.supersedes) := by
  intro hmem
  obtain ⟨r, hr, hactive, -, -, rfl⟩ := hv.supersedes id hname
  rw [h.inactive_of_named hr hmem] at hactive
  cases hactive

theorem Integral.push (h : Integral rs) (hv : Admitted rs v) (htext : v.id ≠ "") :
    Integral (rs.map (supersede v) ++ [v]) where
  distinct := by
    rw [List.map_append, map_supersede_id, List.map_singleton]
    exact h.distinct.append (List.nodup_singleton _) (by simpa using hv.fresh)
  texts := by
    intro r hr
    rcases List.mem_append.mp hr with hr | hr
    · obtain ⟨t, ht, rfl⟩ := List.mem_map.mp hr
      rw [supersede_id]
      exact h.texts t ht
    · rw [List.mem_singleton.mp hr]
      exact htext
  current := by
    rw [List.pairwise_append, List.pairwise_map]
    refine ⟨?_, List.pairwise_singleton _ _, ?_⟩
    · refine h.current.imp fun hnot hrivals => hnot ?_
      obtain ⟨ha, ha', hsame⟩ := hrivals
      simp only [supersede_item, supersede_key] at hsame
      exact ⟨active_of_supersede ha, active_of_supersede ha', hsame⟩
    · intro a ha b hb
      obtain ⟨t, ht, rfl⟩ := List.mem_map.mp ha
      rw [List.mem_singleton.mp hb]
      exact h.not_rivals_admitted hv ht
  once := by
    rw [List.filterMap_append, filterMap_supersede]
    refine h.once.append ?_ ?_
    · cases hname : v.supersedes <;> simp [hname]
    · cases hname : v.supersedes with
      | none => simp [hname]
      | some id => simpa [hname] using h.not_named hv hname
  earlier := by
    intro j r' hj id hname
    rcases getElem?_push hj with ⟨r, hr, rfl⟩ | ⟨rfl, rfl⟩
    · rw [supersede_supersedes] at hname
      obtain ⟨i, t, hi, hit, hid, hinactive, hitem, hkey⟩ := h.earlier j r hr id hname
      exact ⟨i, supersede v t, hi, push_getElem? hit, by simpa using hid,
        inactive_supersede hinactive, by simpa using hitem, by simpa using hkey⟩
    · obtain ⟨t, ht, -, hitem, hkey, rfl⟩ := hv.supersedes id hname
      obtain ⟨i, hi⟩ := List.mem_iff_getElem?.mp ht
      exact ⟨i, supersede v t, (List.getElem?_eq_some_iff.mp hi).1, push_getElem? hi,
        supersede_id v t, supersede_named hname (h.texts t ht), by simpa using hitem,
        by simpa using hkey⟩
  named := by
    intro r hr hinactive
    rw [List.filterMap_append, filterMap_supersede, List.mem_append]
    rcases List.mem_append.mp hr with hr | hr
    · obtain ⟨t, ht, rfl⟩ := List.mem_map.mp hr
      rw [supersede_id]
      rcases inactive_of_supersede hinactive with hwas | hname
      · exact .inl (h.named t ht hwas)
      · exact .inr (by simp [hname])
    · rw [List.mem_singleton.mp hr, hv.active] at hinactive
      cases hinactive

end Working

section Batch

variable {caseId : String} {w w' : Working}

/-- Every record of the one list is in the other, in its place, with at most its status changed. -/
def Keeps (rs rs' : List DecisionRecord) : Prop :=
  ∀ (i : ℕ) (r : DecisionRecord), rs[i]? = some r → ∃ r', rs'[i]? = some r' ∧ r.same r'

theorem Keeps.refl (rs : List DecisionRecord) : Keeps rs rs :=
  fun _ r hr => ⟨r, hr, rfl, rfl, rfl⟩

theorem Keeps.trans {rs'' : List DecisionRecord} (h : Keeps rs rs') (h' : Keeps rs' rs'') :
    Keeps rs rs'' := by
  intro i r hr
  obtain ⟨r', hr', hcontent, hid, hcase⟩ := h i r hr
  obtain ⟨r'', hr'', hcontent', hid', hcase'⟩ := h' i r' hr'
  exact ⟨r'', hr'', hcontent'.trans hcontent, hid'.trans hid, hcase'.trans hcase⟩

theorem Keeps.push (rs : List DecisionRecord) (v : DecisionRecord) :
    Keeps rs (rs.map (supersede v) ++ [v]) :=
  fun _ r hr => ⟨supersede v r, push_getElem? hr, supersede_toDecisionContent v r,
    supersede_id v r, supersede_case_id v r⟩

/-- A round either notes a problem or adds the record of its input. -/
theorem appendRecord_ok {round : DecisionAppendInput × ℕ}
    (h : appendRecord caseId w round = .ok w') :
    (validateAppend w.working round.1 ≠ [] ∧ w'.working = w.working ∧ w'.problems ≠ []) ∨
      validateAppend w.working round.1 = [] ∧
        (fullRecord caseId w.working round.1).fitsSchema = true ∧ w'.problems = w.problems ∧
          w'.working = w.working.map (supersede (fullRecord caseId w.working round.1)) ++
            [fullRecord caseId w.working round.1] := by
  unfold appendRecord at h
  dsimp only at h
  split at h
  · rename_i herrors
    obtain rfl := Except.ok.inj h
    exact .inl ⟨herrors, rfl, by simp⟩
  · rename_i herrors
    obtain ⟨v, hv, h⟩ := except_bind_ok h
    obtain rfl := Except.ok.inj h
    unfold validate at hv
    split at hv
    · rename_i hfits
      obtain rfl := Except.ok.inj hv
      exact .inr ⟨not_ne_iff.mp herrors, hfits, rfl, rfl⟩
    · cases hv

theorem appendRecord_keeps {round : DecisionAppendInput × ℕ}
    (h : appendRecord caseId w round = .ok w') : Keeps w.working w'.working := by
  rcases appendRecord_ok h with ⟨-, hsame, -⟩ | ⟨-, -, -, hpush⟩
  · rw [hsame]
    exact .refl _
  · rw [hpush]
    exact .push _ _

theorem appendRecord_integral {round : DecisionAppendInput × ℕ} (hw : Integral w.working)
    (hok : validateAppend w.working round.1 = [] → assignsExactly w.working round.1 = true)
    (h : appendRecord caseId w round = .ok w') : Integral w'.working := by
  rcases appendRecord_ok h with ⟨-, hsame, -⟩ | ⟨hvalid, hfits, -, hpush⟩
  · rw [hsame]
    exact hw
  · rw [hpush]
    refine hw.push (admitted_of_validated (hok hvalid) hvalid hfits) (isDecisionId_ne_empty ?_)
    simp only [DecisionRecord.fitsSchema, Bool.and_eq_true] at hfits
    obtain ⟨⟨⟨⟨⟨⟨⟨⟨⟨hid, -⟩, -⟩, -⟩, -⟩, -⟩, -⟩, -⟩, -⟩, -⟩ := hfits
    exact hid

/-- At each id that the batch has the ledger assign, its number is exact. -/
def batchAssignsExactly (caseId : String) : List (DecisionAppendInput × ℕ) → Working → Bool
  | [], _ => true
  | round :: rounds, w =>
      (validateAppend w.working round.1 ≠ [] || assignsExactly w.working round.1) &&
        match appendRecord caseId w round with
        | .ok w' => batchAssignsExactly caseId rounds w'
        | .error _ => true

theorem batch_keeps {rounds : List (DecisionAppendInput × ℕ)}
    (h : rounds.foldlM (appendRecord caseId) w = .ok w') : Keeps w.working w'.working := by
  induction rounds generalizing w with
  | nil =>
      obtain rfl := Except.ok.inj h
      exact .refl _
  | cons round rounds ih =>
      rw [List.foldlM_cons] at h
      obtain ⟨u, hu, h⟩ := except_bind_ok h
      exact (appendRecord_keeps hu).trans (ih h)

theorem batch_integral {rounds : List (DecisionAppendInput × ℕ)} (hw : Integral w.working)
    (hok : batchAssignsExactly caseId rounds w = true)
    (h : rounds.foldlM (appendRecord caseId) w = .ok w') : Integral w'.working := by
  induction rounds generalizing w with
  | nil =>
      obtain rfl := Except.ok.inj h
      exact hw
  | cons round rounds ih =>
      rw [List.foldlM_cons] at h
      obtain ⟨u, hu, h⟩ := except_bind_ok h
      rw [batchAssignsExactly, hu, Bool.and_eq_true, Bool.or_eq_true, decide_eq_true_eq] at hok
      refine ih (appendRecord_integral hw (fun hvalid => ?_) hu) hok.2 h
      exact hok.1.resolve_left fun hne => hne hvalid

end Batch

section Lines

@[simp] theorem printed_printed (r : DecisionRecord) : r.printed.printed = r.printed := by
  have hvalue : ∀ v : Json, v.printed.printed = v.printed :=
    fun v => Json.printed_of_exact v.printed (Json.exact_printed v)
  simp [DecisionRecord.printed, DecisionContent.printed, Function.comp_def, hvalue]

/-- Reading the lines and printing them again changes nothing. -/
def Printed (rs : List DecisionRecord) : Prop :=
  ∀ r ∈ rs, r.printed = r

theorem Printed.map (rs : List DecisionRecord) : Printed (rs.map DecisionRecord.printed) := by
  intro r hr
  obtain ⟨t, -, rfl⟩ := List.mem_map.mp hr
  exact printed_printed t

theorem Keeps.printed (hrs : Printed rs) (h : Keeps rs rs') :
    Keeps rs (rs'.map DecisionRecord.printed) := by
  intro i r hr
  obtain ⟨r', hr', hcontent, hid, hcase⟩ := h i r hr
  refine ⟨r'.printed, by rw [List.getElem?_map, hr', Option.map_some], ?_, hid, hcase⟩
  have hprinted := congrArg DecisionRecord.toDecisionContent (hrs r (List.mem_of_getElem? hr))
  calc r'.toDecisionContent.printed
      _ = r.toDecisionContent.printed := by rw [hcontent]
      _ = r.toDecisionContent := hprinted

theorem Integral.printed (h : Integral rs) : Integral (rs.map DecisionRecord.printed) where
  distinct := by
    rw [List.map_map]
    exact h.distinct
  texts := List.forall_mem_map.mpr h.texts
  current := by
    rw [List.pairwise_map]
    exact h.current
  once := by
    rw [List.filterMap_map]
    exact h.once
  earlier := by
    intro j r' hj id hname
    rw [List.getElem?_map, Option.map_eq_some_iff] at hj
    obtain ⟨t, ht, rfl⟩ := hj
    obtain ⟨i, r, hi, hr, hid⟩ := h.earlier j t ht id hname
    exact ⟨i, r.printed, hi, by rw [List.getElem?_map, hr, Option.map_some], hid⟩
  named := by
    rw [List.filterMap_map]
    exact List.forall_mem_map.mpr h.named

theorem readLedger_ok {file : Ledger} {existing : List DecisionRecord}
    (h : readLedger file = .ok existing) : existing = file := by
  suffices hall : ∀ (lines : List (DecisionRecord × ℕ)) out,
      lines.mapM readLine = .ok out → out = lines.map (·.1) by
    rw [hall _ _ h, List.zipIdx_map_fst]
  intro lines
  induction lines with
  | nil =>
      intro out hout
      exact (Except.ok.inj hout).symm
  | cons line lines ih =>
      intro out hout
      rw [List.mapM_cons] at hout
      obtain ⟨r, hr, hout⟩ := except_bind_ok hout
      obtain ⟨rest, hrest, hout⟩ := except_bind_ok hout
      obtain rfl := Except.ok.inj hout
      rw [readLine, throwIf_eq_ok, validate] at hr
      obtain ⟨-, hr⟩ := hr
      split at hr
      · rw [← Except.ok.inj hr, ih rest hrest, List.map_cons]
      · cases hr

end Lines

section Calls

variable {location : DecisionLedgerLocation} {records : List DecisionAppendInput}
  {options : DecisionAppendOptions} {file : Ledger} {E : Ledger → Prop}

/-- `appendDecisions` throws and writes nothing, or has written the whole batch. -/
theorem wp_appendDecisions {Q : DecisionAppendResult → Ledger → Prop} (hthrow : E file)
    (hdry : ∀ result, options.dryRun = true → Q result file)
    (hwrite : ∀ result w, options.dryRun = false →
      records.zipIdx.foldlM (appendRecord (options.caseId.getD (defaultCaseId location file)))
        { working := file } = .ok w →
      Q result (w.working.map DecisionRecord.printed)) :
    Call.wp (appendDecisions location records options) Q E file := by
  simp only [appendDecisions, Call.wp_bind, Call.wp_read, Call.wp_lift, Call.wp_refuse,
    Call.wp_ite, Call.wp_pure, Call.wp_write]
  refine ⟨fun existing hread => ⟨fun w hw => ⟨fun _ => hthrow, fun _ => ⟨fun hd => hdry _ hd,
    fun hd => ?_⟩⟩, fun _ _ => hthrow⟩, fun _ _ => hthrow⟩
  obtain rfl := readLedger_ok hread
  exact hwrite _ w (Bool.not_eq_true _ ▸ hd) hw

/-- What an action hands to `appendDecisions`: the default case and the batch. -/
def LedgerAction.batch (file : Ledger) : LedgerAction → Option (String × List DecisionAppendInput)
  | .append location records options =>
      some (options.caseId.getD (defaultCaseId location file), records)
  | .promote location requests options =>
      match requests.mapM (planPromotion file options) with
      | .ok plans => some (defaultCaseId location file, plans.filterMap (·.2))
      | .error _ => none

/-- What the rounds of its batch make of the file is what a call writes. -/
def LedgerAction.Writes (a : LedgerAction) (file file' : Ledger) : Prop :=
  a.dryRun = false ∧ ∃ caseId batch w, a.batch file = some (caseId, batch) ∧
    batch.zipIdx.foldlM (appendRecord caseId) { working := file } = .ok w ∧
      file' = w.working.map DecisionRecord.printed

theorem wp_ledgerAction (a : LedgerAction) :
    Call.wp a.call (fun _ t => t = file ∨ a.Writes file t) (fun t => t = file) file := by
  cases a with
  | append location records options =>
      rw [LedgerAction.call, Call.wp_void]
      exact wp_appendDecisions rfl (fun _ _ => .inl rfl)
        fun _ w hd hw => .inr ⟨hd, _, _, w, rfl, hw, rfl⟩
  | promote location requests options =>
      rw [LedgerAction.call, Call.wp_void]
      simp only [applyPromotions, Call.wp_bind, Call.wp_read, Call.wp_lift, Call.wp_ite,
        Call.wp_pure]
      refine ⟨fun existing hread => ⟨fun plans hplans => ⟨fun hne => ?_, fun _ => .inl trivial⟩,
        fun _ _ => trivial⟩, fun _ _ => trivial⟩
      obtain rfl := readLedger_ok hread
      refine wp_appendDecisions rfl (fun _ _ => .inl rfl) fun _ w hd hw => ?_
      refine .inr ⟨hd, _, _, w, ?_, hw, rfl⟩
      simp only [LedgerAction.batch, hplans]
      rfl

theorem step_decisionLedger {ledger ledger' : Ledger} {a : LedgerAction}
    (h : decisionLedger.step ledger a = some ledger') :
    ledger' = ledger ∨ a.Writes ledger ledger' := by
  obtain rfl := Option.some.inj h
  exact Call.wp_fst (I := fun t => t = ledger ∨ a.Writes ledger t) |>.mp
    (Call.wp_mono (fun _ _ h => h) (fun _ h => .inl h) (wp_ledgerAction a))

/-- A call that is rejected or a dry run leaves the ledger. -/
theorem unchanged_of_rejected {ledger : Ledger} {a : LedgerAction}
    (h : a.dryRun = true ∨ ∃ e, (a.call.run ledger).2 = .error e) :
    decisionLedger.step ledger a = some ledger := by
  refine congrArg some ?_
  rcases h with hdry | ⟨e, he⟩
  · refine Call.wp_fst (I := fun t => t = ledger) |>.mp
      (Call.wp_mono (fun _ t ht => ?_) (fun _ ht => ht) (wp_ledgerAction a))
    exact ht.resolve_right fun hwrote => absurd (hdry.symm.trans hwrote.1) (by decide)
  · exact Call.wp_error (wp_ledgerAction a) he

end Calls

section Runs

variable {ledger later : Ledger}

/-- The ids that a call has the ledger assign follow numbers below `2 ^ 53`. -/
def LedgerAction.exact (ledger : Ledger) (a : LedgerAction) : Bool :=
  a.dryRun || (a.batch ledger).all fun (caseId, batch) =>
    batchAssignsExactly caseId batch.zipIdx { working := ledger }

theorem step_keeps {a : LedgerAction} (hledger : Printed ledger)
    (h : decisionLedger.step ledger a = some later) : Printed later ∧ Keeps ledger later := by
  rcases step_decisionLedger h with rfl | ⟨-, caseId, batch, w, -, hw, rfl⟩
  · exact ⟨hledger, .refl _⟩
  · exact ⟨.map _, (batch_keeps hw).printed hledger⟩

theorem printed_of_reachable (h : decisionLedger.Reachable ledger) : Printed ledger :=
  h.invariant (I := Printed) (fun s h0 r hr => by rw [show s = [] from h0] at hr; cases hr)
    fun _ _ _ hs _ hstep => (step_keeps hs hstep).1

theorem integral_of_reach
    (h : decisionLedger.Reach (fun s a => a.exact s = true) ledger) : Integral ledger := by
  refine h.invariant (I := Integral) (fun s h0 => ?_) fun s a t hs hok hstep => ?_
  · rw [show s = [] from h0]
    exact .nil
  rcases step_decisionLedger hstep with rfl | ⟨hdry, caseId, batch, w, hbatch, hw, rfl⟩
  · exact hs
  · rw [LedgerAction.exact, hdry, hbatch] at hok
    exact (batch_integral hs hok hw).printed

/-- Ids are distinct, one record at most is active on an item and key, and a superseded record is
named by one record of its item and key, which is later. -/
structure Integrity (ledger : Ledger) : Prop where
  ids : (ledger.map (·.id)).Nodup
  active : ledger.Pairwise fun r r' => r.status = .active → r'.status = .active →
    ¬ (r.item = r'.item ∧ r.key = r'.key)
  superseded : ∀ (i : ℕ) (r : DecisionRecord), ledger[i]? = some r → r.status = .superseded →
    ∃ (j : ℕ) (r' : DecisionRecord), i < j ∧ ledger[j]? = some r' ∧ r'.supersedes = some r.id ∧
      r'.item = r.item ∧ r'.key = r.key ∧
        ∀ (k : ℕ) (r'' : DecisionRecord), ledger[k]? = some r'' → r''.supersedes = some r.id → k = j

theorem active_iff : r.active = true ↔ r.status = .active := by
  simp [DecisionRecord.active]

theorem inactive_of_superseded (h : r.status = .superseded) : r.active = false := by
  simp [DecisionRecord.active, h]

/-- Records that name one id sit in one place. -/
theorem Integral.index_eq_of_named (h : Integral rs) {j k : ℕ} {id : String}
    (hj : rs[j]? = some r) (hk : rs[k]? = some r') (hid : r.supersedes = some id)
    (hid' : r'.supersedes = some id) : j = k := by
  have hpair := List.pairwise_iff_getElem.mp (List.pairwise_filterMap.mp h.once)
  obtain ⟨hjlt, rfl⟩ := List.getElem?_eq_some_iff.mp hj
  obtain ⟨hklt, rfl⟩ := List.getElem?_eq_some_iff.mp hk
  rcases lt_trichotomy j k with hlt | heq | hgt
  · exact absurd rfl (hpair j k hjlt hklt hlt id hid id hid')
  · exact heq
  · exact absurd rfl (hpair k j hklt hjlt hgt id hid' id hid)

/-- Records with one id sit in one place. -/
theorem Integral.index_eq_of_id (h : Integral rs) {i j : ℕ} (hi : rs[i]? = some r)
    (hj : rs[j]? = some r') (hid : r.id = r'.id) : i = j := by
  refine (List.getElem?_inj ?_ h.distinct).mp ?_
  · rw [List.length_map]
    exact (List.getElem?_eq_some_iff.mp hi).1
  · rw [List.getElem?_map, List.getElem?_map, hi, hj, Option.map_some, Option.map_some, hid]

theorem Integral.integrity (h : Integral ledger) : Integrity ledger where
  ids := h.distinct
  active := h.current.imp fun hnot ha ha' hsame =>
    hnot ⟨active_iff.mpr ha, active_iff.mpr ha', hsame⟩
  superseded := by
    intro i r hi hstatus
    have hnamed := h.named r (List.mem_of_getElem? hi) (inactive_of_superseded hstatus)
    obtain ⟨r', hr', hname⟩ := List.mem_filterMap.mp hnamed
    obtain ⟨j, hj⟩ := List.mem_iff_getElem?.mp hr'
    obtain ⟨i', t, hlt, hi', hid, -, hitem, hkey⟩ := h.earlier j r' hj r.id hname
    obtain rfl := h.index_eq_of_id hi' hi hid
    obtain rfl := Option.some.inj (hi'.symm.trans hi)
    exact ⟨j, r', hlt, hj, hname, hitem.symm, hkey.symm, fun k r'' hk hname' =>
      h.index_eq_of_named hk hj hname' hname⟩

/-- While the numbers that assigned ids follow stay below `2 ^ 53`, the ledger is integral; older
records change nothing but their status, and a call that is rejected or a dry run writes nothing. -/
theorem decision_ledger_integrity
    (h : decisionLedger.Reach (fun s a => a.exact s = true) ledger) :
    Integrity ledger ∧
      (∀ later, decisionLedger.Leads (fun _ _ => True) ledger later → Keeps ledger later) ∧
      ∀ a : LedgerAction, a.dryRun = true ∨ (∃ e, (a.call.run ledger).2 = .error e) →
        decisionLedger.step ledger a = some ledger := by
  refine ⟨(integral_of_reach h).integrity, fun later hlater => ?_, fun a => unchanged_of_rejected⟩
  refine hlater.preserves Keeps.refl (fun _ _ _ => Keeps.trans) (fun s a t hs _ hstep => ?_)
    h.reachable
  exact (step_keeps (printed_of_reachable hs) hstep).2

/-- A proposal on the item, with or without an id of its own. -/
def proposal (item : String) (id supersedes : Option String) : DecisionAppendInput where
  item := item
  key := "csv.columns"
  level := .productAxis
  state := .proposed
  basis := some []
  origin := .facade
  supersedes := supersedes
  id := id

/-- Two batches, the second superseding a record of the first. -/
theorem decision_ledger_integrity_superseded :
    ∃ ledger, decisionLedger.Reach (fun s a => a.exact s = true) ledger ∧
      ledger.map (·.status) = [.superseded, .active, .active] ∧ Integrity ledger := by
  obtain ⟨ledger, hs, hstatus⟩ := System.exists_reach_of_execOk (S := decisionLedger)
    (fun s a => a.exact s) (s := [])
    [.append .dir [proposal "a" none none] {},
      .append .dir [proposal "b" none none, proposal "a" none (some "D-0001")] {}]
    (fun ledger => ledger.map (·.status) = [.superseded, .active, .active])
    rfl (by decide +kernel)
  exact ⟨ledger, hs, hstatus, (decision_ledger_integrity hs).1⟩

/-- After the number `2 ^ 53`, the ledger assigns that number again. -/
theorem assigned_id_repeats :
    ¬ ∀ ledger, decisionLedger.Reachable ledger → Integrity ledger ∧
      (∀ later, decisionLedger.Leads (fun _ _ => True) ledger later → Keeps ledger later) ∧
      ∀ a : LedgerAction, a.dryRun = true ∨ (∃ e, (a.call.run ledger).2 = .error e) →
        decisionLedger.step ledger a = some ledger := by
  intro h
  obtain ⟨ledger, hs, hids⟩ := System.exists_reachable_of_exec (S := decisionLedger) (s := [])
    [.append .dir [proposal "a" (some "D-9007199254740992") none] {},
      .append .dir [proposal "b" none none] {}]
    (fun ledger => ledger.map (·.id) = ["D-9007199254740992", "D-9007199254740992"])
    rfl (by decide +kernel)
  have hdistinct := (h ledger hs).1.ids
  rw [hids] at hdistinct
  exact absurd hdistinct (by decide)

end Runs

end Kyberion.Decision
