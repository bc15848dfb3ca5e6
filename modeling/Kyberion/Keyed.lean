import Mathlib.Data.List.Nodup

/-!
Lists of records with keys, read by the first record of a key. When no key comes twice, each edit
of the list is an edit of the lookups.
-/

namespace Kyberion.Keyed

variable {α κ : Type} [DecidableEq κ] (key : α → κ)

def find (k : κ) (l : List α) : Option α :=
  l.find? fun a => key a = k

/-- Applies `f` to the first record of a key. -/
def update (k : κ) (f : α → α) : List α → List α
  | [] => []
  | a :: rest => if key a = k then f a :: rest else a :: update k f rest

def remove (k : κ) (l : List α) : List α :=
  l.filter fun a => key a ≠ k

variable {key} {k k' : κ} {a : α} {l l' : List α} {f : α → α} {g : α → Option α}

@[simp] theorem find_nil : find key k [] = none := rfl

theorem find_cons : find key k (a :: l) = if key a = k then some a else find key k l := by
  by_cases h : key a = k
  · simp [find, h]
  · simp [find, h]

theorem key_of_find (h : find key k l = some a) : key a = k := by
  simpa using List.find?_some h

theorem mem_of_find (h : find key k l = some a) : a ∈ l :=
  List.mem_of_find?_eq_some h

theorem find_eq_none : find key k l = none ↔ k ∉ l.map key := by
  simp [find]

theorem find_of_mem (hnodup : (l.map key).Nodup) (h : a ∈ l) : find key (key a) l = some a := by
  cases hfind : find key (key a) l with
  | none => exact absurd (List.mem_map_of_mem h) (find_eq_none.mp hfind)
  | some b =>
      rw [List.inj_on_of_nodup_map hnodup (mem_of_find hfind) h (key_of_find hfind)]

theorem find_append : find key k (l ++ l') = (find key k l).or (find key k l') :=
  List.find?_append

@[simp] theorem find_singleton : find key k [a] = if key a = k then some a else none := by
  rw [find_cons, find_nil]

section Update

theorem map_update (f : α → α) (hkey : ∀ a, key a = k → key (f a) = k) :
    (update key k f l).map key = l.map key := by
  induction l with
  | nil => rfl
  | cons a rest ih =>
      rw [update]
      split
      · rename_i h
        simp [h, hkey a h]
      · simp [ih]

theorem find_update (f : α → α) (hkey : ∀ a, key a = k → key (f a) = k) :
    find key k' (update key k f l) =
      if k' = k then (find key k l).map f else find key k' l := by
  induction l with
  | nil => simp [update]
  | cons a rest ih =>
      rw [update]
      by_cases ha : key a = k
      · rw [if_pos ha, find_cons, hkey a ha, find_cons, find_cons, if_pos ha, ha]
        by_cases hk : k' = k
        · simp [hk]
        · rw [if_neg (Ne.symm hk), if_neg hk, if_neg (Ne.symm hk)]
      · rw [if_neg ha, find_cons, ih, find_cons, find_cons, if_neg ha]
        by_cases hk : k' = k
        · rw [if_pos hk, hk, if_neg ha, if_pos rfl]
        · rw [if_neg hk, if_neg hk]

theorem mem_update (hnodup : (l.map key).Nodup) (h : a ∈ update key k f l) :
    (a ∈ l ∧ key a ≠ k) ∨ ∃ b ∈ l, key b = k ∧ a = f b := by
  induction l with
  | nil => cases h
  | cons b rest ih =>
      obtain ⟨hb, hrest⟩ := List.nodup_cons.mp hnodup
      rw [update] at h
      split at h
      · rename_i hk
        obtain rfl | hmem := List.mem_cons.mp h
        · exact .inr ⟨b, List.mem_cons_self, hk, rfl⟩
        · refine .inl ⟨List.mem_cons_of_mem _ hmem, fun hak => hb ?_⟩
          exact List.mem_map.mpr ⟨a, hmem, hak.trans hk.symm⟩
      · rename_i hk
        obtain rfl | hmem := List.mem_cons.mp h
        · exact .inl ⟨List.mem_cons_self, hk⟩
        · obtain ⟨hmem, hak⟩ | ⟨c, hc, hck, hac⟩ := ih hrest hmem
          · exact .inl ⟨List.mem_cons_of_mem _ hmem, hak⟩
          · exact .inr ⟨c, List.mem_cons_of_mem _ hc, hck, hac⟩

end Update

section Filter

/-- A filter that looks at the keys only. -/
theorem find_filter (p : κ → Bool) :
    find key k (l.filter fun a => p (key a)) = if p k then find key k l else none := by
  induction l with
  | nil => simp
  | cons a rest ih =>
      rw [List.filter_cons]
      by_cases hk : key a = k
      · cases hp : p k <;> simp [hk, hp, ih, find_cons]
      · split <;> simp [find_cons, hk, ih]

theorem find_remove : find key k' (remove key k l) = if k' = k then none else find key k' l := by
  rw [remove, find_filter fun k' => k' ≠ k]
  by_cases hk : k' = k
  · simp [hk]
  · simp [hk]

theorem nodup_remove (h : (l.map key).Nodup) : ((remove key k l).map key).Nodup :=
  h.sublist (List.filter_sublist.map key)

end Filter

section FilterMap

/-- Edits and removals of the records one by one. -/
theorem find_filterMap (hkey : ∀ a b, g a = some b → key b = key a) (hnodup : (l.map key).Nodup) :
    find key k (l.filterMap g) = (find key k l).bind g := by
  induction l with
  | nil => rfl
  | cons a rest ih =>
      obtain ⟨ha, hrest⟩ := List.nodup_cons.mp hnodup
      rw [List.filterMap_cons, find_cons]
      cases hga : g a with
      | none =>
          dsimp only
          rw [ih hrest]
          split
          · rename_i hk
            rw [find_eq_none.mpr (hk ▸ ha)]
            simp [hga]
          · rfl
      | some b =>
          dsimp only
          rw [find_cons, hkey a b hga, ih hrest]
          split
          · exact hga.symm
          · rfl

omit [DecidableEq κ] in
theorem nodup_filterMap (hkey : ∀ a b, g a = some b → key b = key a) (h : (l.map key).Nodup) :
    ((l.filterMap g).map key).Nodup := by
  induction l with
  | nil => exact .nil
  | cons a rest ih =>
      obtain ⟨ha, hrest⟩ := List.nodup_cons.mp h
      rw [List.filterMap_cons]
      cases hga : g a with
      | none => exact ih hrest
      | some b =>
          refine List.nodup_cons.mpr ⟨fun hmem => ha ?_, ih hrest⟩
          obtain ⟨c, hc, hkc⟩ := List.mem_map.mp hmem
          obtain ⟨d, hd, hgd⟩ := List.mem_filterMap.mp hc
          exact List.mem_map.mpr ⟨d, hd, by rw [← hkey d c hgd, hkc, hkey a b hga]⟩

end FilterMap

end Kyberion.Keyed
