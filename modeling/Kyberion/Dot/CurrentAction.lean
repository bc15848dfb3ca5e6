import Kyberion.Dot.ActionLedger

/-!
The current record of an action: what its last index row reads as. Appends to the scoped files leave
it alone, all who may read it read the same, and a migration rewrites its row to the same reading.
-/

namespace Kyberion.Dot

open Js (throwIf)

variable {D : Type} {host : Host D} {nhi nhi' : Option String}
  {files files' : Ledger D} {row r r' full : DotActionRecord D} {dotId actionRef : String}

def rowKey (row : DotActionRecord D) : Option (String × String) :=
  some (row.dotId, row.actionRef)

def currentRow (files : Ledger D) (dotId actionRef : String) : Option (DotActionRecord D) :=
  lastFor rowKey (dotId, actionRef) files.rows

theorem rows_appendIndex (files : Ledger D) (row : DotActionRecord D) :
    (files.appendIndex row).rows = files.rows ++ [row] := by
  simp [Ledger.rows, Ledger.appendIndex]

theorem currentRow_appendScoped (file : String) (row : DotActionRecord D) :
    currentRow (files.appendScoped file row) dotId actionRef = currentRow files dotId actionRef :=
  rfl

theorem currentRow_appendIndex_of_ne (h : ¬ (row.dotId = dotId ∧ row.actionRef = actionRef)) :
    currentRow (files.appendIndex row) dotId actionRef = currentRow files dotId actionRef := by
  rw [currentRow, rows_appendIndex, lastFor_concat, if_neg, currentRow]
  simpa [rowKey] using h

/-- Rows were appended to scoped files. -/
def Extends (files files' : Ledger D) : Prop :=
  ∀ file, ∃ more, files'.scopedFiles file = files.scopedFiles file ++ more

theorem Extends.refl (files : Ledger D) : Extends files files :=
  fun _ => ⟨[], (List.append_nil _).symm⟩

theorem extends_appendScoped (files : Ledger D) (file : String) (row : DotActionRecord D) :
    Extends files (files.appendScoped file row) := by
  intro other
  by_cases h : other = file
  · subst h
    exact ⟨[some row], by simp [Ledger.appendScoped]⟩
  · exact ⟨[], by simp [Ledger.appendScoped, h]⟩

theorem indexedRow_actionRef (host : Host D) (row : DotActionRecord D) :
    (indexedRow host row).actionRef = row.actionRef := by
  unfold indexedRow
  split
  · rfl
  · split <;> rfl

section Entries

variable {entries : List (String × DotActionRecord D)} {key : String}

theorem find_setEntry (key key' : String) (value : DotActionRecord D)
    (entries : List (String × DotActionRecord D)) :
    Keyed.find Prod.fst key' (setEntry key value entries) =
      if key' = key then some (key, value) else Keyed.find Prod.fst key' entries := by
  unfold setEntry
  split
  · rename_i hsome
    obtain ⟨old, hold⟩ := Option.isSome_iff_exists.mp hsome
    rw [Keyed.find_update (fun _ => (key, value)) fun _ _ => rfl, hold]
    rfl
  · rename_i hnone
    rw [Option.not_isSome_iff_eq_none] at hnone
    rw [Keyed.find_append, Keyed.find_singleton]
    by_cases h : key' = key
    · subst h
      simp [hnone]
    · simp [h, Ne.symm h]

theorem mem_setEntry {value : DotActionRecord D} {entry : String × DotActionRecord D}
    (h : entry ∈ setEntry key value entries) : entry = (key, value) ∨ entry ∈ entries := by
  unfold setEntry at h
  split at h
  · clear * - h
    induction entries with
    | nil => cases h
    | cons e rest ih =>
        rw [Keyed.update] at h
        split at h
        · rcases List.mem_cons.mp h with rfl | hrest
          · exact .inl rfl
          · exact .inr (List.mem_cons_of_mem e hrest)
        · rcases List.mem_cons.mp h with rfl | hrest
          · exact .inr List.mem_cons_self
          · exact (ih hrest).imp_right (List.mem_cons_of_mem e)
  · rcases List.mem_append.mp h with hold | hnew
    · exact .inr hold
    · exact .inl (List.mem_singleton.mp hnew)

theorem nodup_setEntry {value : DotActionRecord D} (h : (entries.map Prod.fst).Nodup) :
    ((setEntry key value entries).map Prod.fst).Nodup := by
  unfold setEntry
  split
  · rw [Keyed.map_update (fun _ => (key, value)) fun _ _ => rfl]
    exact h
  · rename_i hnone
    rw [Option.not_isSome_iff_eq_none, Keyed.find_eq_none] at hnone
    rw [List.map_append, List.map_singleton, List.nodup_append]
    refine ⟨h, List.nodup_singleton key, fun k hk k' hk' heq => hnone ?_⟩
    have hk' : k' = key := List.mem_singleton.mp hk'
    rw [← hk', ← heq]
    exact hk

theorem find_values (h : ∀ entry ∈ entries, entry.2.actionRef = entry.1) :
    ((entries.map Prod.snd).find? fun row => row.actionRef = actionRef) =
      (Keyed.find Prod.fst actionRef entries).map Prod.snd := by
  induction entries with
  | nil => rfl
  | cons entry rest ih =>
      have hentry := h entry List.mem_cons_self
      rw [List.map_cons, List.find?_cons, Keyed.find_cons,
        ih fun e he => h e (List.mem_cons_of_mem entry he), hentry]
      by_cases hkey : entry.1 = actionRef <;> simp [hkey]

end Entries

section Migrated

variable {charter : DotCharter} {file : String}

/-- What a migration writes for a row: the row under the scope of the charter. -/
theorem migrateRow_some (h : migrateRow host charter row = .ok (some (file, full))) :
    full = { row with scope := some charter.scope } ∧ row.carriesHash = false ∧
      ∀ scope, row.scope = some scope → scope = charter.scope ∧ scope.tier ≠ .public_ := by
  unfold migrateRow at h
  split at h
  · cases h
  · rename_i hkept
    simp only [not_or, Bool.not_eq_true] at hkept
    simp only [Js.throwIf_eq_ok] at h
    obtain ⟨hscope, h⟩ := h
    obtain ⟨-, -, h⟩ := Js.except_bind_ok h
    obtain ⟨path, -, h⟩ := Js.except_bind_ok h
    cases h
    refine ⟨rfl, hkept.2.1, fun scope heq => ?_⟩
    simpa [heq] using And.intro hscope hkept.2.2

theorem migratedRow_rowKey (host : Host D) (charter : DotCharter) (row : DotActionRecord D) :
    rowKey (migratedRow host charter row) = rowKey row := by
  unfold migratedRow
  split
  · rename_i file full h
    obtain ⟨rfl, -, -⟩ := migrateRow_some h
    split <;> rfl
  · rfl

/-- An unmigrated private row is its own index. -/
theorem indexedRow_actionIndex {scope : DotScope} (hscope : row.scope = some scope) :
    indexedRow host (actionIndex host row) = actionIndex host row := by
  have hcarries : (actionIndex host row).carriesHash = true := rfl
  unfold indexedRow
  rw [show (actionIndex host row).scope = some scope from hscope]
  simp [hcarries]

theorem currentRow_migrated
    (hrows : files'.rows = files.rows.map (migratedRow host charter))
    (h : currentRow files dotId actionRef = none) : currentRow files' dotId actionRef = none := by
  rw [currentRow, hrows, lastFor_map (migratedRow_rowKey host charter), ← currentRow, h]
  rfl

end Migrated

theorem except_bind_eq_ok {ε α β : Type} {x : Except ε α} {f : α → Except ε β} {b : β} :
    (x >>= f) = .ok b ↔ ∃ a, x = .ok a ∧ f a = .ok b := by
  refine ⟨Js.except_bind_ok, ?_⟩
  rintro ⟨a, rfl, h⟩
  exact h

variable [DecidableEq D]

/-- The current record of an action, to a process that may read its scope. -/
def Current (host : Host D) (files : Ledger D) (dotId actionRef : String) (r : DotActionRecord D) :
    Prop :=
  ∃ row nhi, currentRow files dotId actionRef = some row ∧ readRow host nhi files row = .ok r

section Hydration

/-- How a row is read: it is the record, or the record is the first of the scoped file. -/
inductive Reads (host : Host D) (files : Ledger D) (row : DotActionRecord D) :
    DotActionRecord D → Prop
  | inline (hhash : row.privateContentHash = none) : Reads host files row row
  | hydrated {hash : D} {scope : DotScope} {file : String} {full : DotActionRecord D}
      (hhash : row.privateContentHash = some (.digest hash)) (hscope : row.scope = some scope)
      (hfile : host.dotStatePath scope = .ok file)
      (hfound : scopedEvidence host (files.scopedFiles file) row.actionRef hash = some full) :
      Reads host files row full

theorem hydratePrivateAction_reads (h : hydratePrivateAction host nhi files row = .ok r) :
    Reads host files row r := by
  unfold hydratePrivateAction at h
  obtain ⟨-, -, h⟩ := Js.except_bind_ok h
  split at h
  · rename_i hhash
    obtain ⟨-, -, h⟩ := Js.except_bind_ok h
    obtain rfl := Except.ok.inj h
    exact .inline hhash
  · rename_i hash hhash
    split at h
    · cases h
    · rename_i scope hscope
      simp only [Js.throwIf_eq_ok] at h
      obtain ⟨-, -, h⟩ := h
      obtain ⟨file, hfile, h⟩ := Js.except_bind_ok h
      split at h
      · cases h
      · rename_i full hfound
        simp only [Js.throwIf_eq_ok] at h
        obtain ⟨-, -, h⟩ := Js.except_bind_ok h.2
        obtain rfl := Except.ok.inj h
        exact .hydrated hhash hscope hfile hfound
  · cases h

theorem Reads.unique (h : Reads host files row r) (h' : Reads host files row r') : r = r' := by
  cases h with
  | inline hhash =>
      cases h' with
      | inline => rfl
      | hydrated hhash' => rw [hhash] at hhash'; cases hhash'
  | hydrated hhash hscope hfile hfound =>
      cases h' with
      | inline hhash' => rw [hhash] at hhash'; cases hhash'
      | hydrated hhash' hscope' hfile' hfound' =>
          rw [hhash] at hhash'
          cases hhash'
          rw [hscope] at hscope'
          cases hscope'
          rw [hfile] at hfile'
          cases hfile'
          exact Option.some.inj (hfound.symm.trans hfound')

theorem Reads.actionRef_eq (h : Reads host files row r) : r.actionRef = row.actionRef := by
  cases h with
  | inline => rfl
  | hydrated hhash hscope hfile hfound =>
      have hmatch := List.find?_some hfound
      simp only [Bool.and_eq_true, decide_eq_true_eq] at hmatch
      exact hmatch.1.1

theorem scopedEvidence_append {lines more : List (Option (DotActionRecord D))} {hash : D}
    (h : scopedEvidence host lines actionRef hash = some full) :
    scopedEvidence host (lines ++ more) actionRef hash = some full := by
  rw [scopedEvidence, List.filterMap_append, List.find?_append]
  rw [scopedEvidence] at h
  rw [h, Option.some_or]

end Hydration

section Extends

/-- What could be read is still read, and as it was. -/
theorem hydratePrivateAction_extends (hext : Extends files files')
    (h : hydratePrivateAction host nhi files row = .ok r) :
    hydratePrivateAction host nhi files' row = .ok r := by
  simp only [hydratePrivateAction, except_bind_eq_ok] at h ⊢
  obtain ⟨_, hbody, h⟩ := h
  refine ⟨_, hbody, ?_⟩
  cases hhash : row.privateContentHash with
  | none => simpa only [hhash] using h
  | some content =>
      cases content with
      | blank => simp only [hhash] at h; cases h
      | malformed => simp only [hhash] at h; cases h
      | digest hash =>
          cases hscope : row.scope with
          | none => simp only [hhash, hscope] at h; cases h
          | some scope =>
              simp only [hhash, hscope, Js.throwIf_eq_ok, except_bind_eq_ok] at h ⊢
              obtain ⟨hpublic, howner, file, hfile, h⟩ := h
              refine ⟨hpublic, howner, file, hfile, ?_⟩
              obtain ⟨more, hmore⟩ := hext file
              cases hfound : scopedEvidence host (files.scopedFiles file) row.actionRef hash with
              | none => simp only [hfound] at h; cases h
              | some full =>
                  rw [hmore, scopedEvidence_append hfound]
                  simpa only [hfound] using h

theorem readRow_extends (hext : Extends files files') (h : readRow host nhi files row = .ok r) :
    readRow host nhi files' row = .ok r := by
  simp only [readRow, except_bind_eq_ok] at h ⊢
  obtain ⟨_, hbody, h⟩ := h
  exact ⟨_, hbody, hydratePrivateAction_extends hext h⟩

theorem readRow_reads (h : readRow host nhi files row = .ok r) :
    Reads host files (indexedRow host row) r := by
  unfold readRow at h
  obtain ⟨-, -, h⟩ := Js.except_bind_ok h
  exact hydratePrivateAction_reads h

theorem readRow_actionRef (h : readRow host nhi files row = .ok r) :
    r.actionRef = row.actionRef :=
  (readRow_reads h).actionRef_eq.trans (indexedRow_actionRef host row)

theorem Current.unique (h : Current host files dotId actionRef r)
    (h' : Current host files dotId actionRef r') : r = r' := by
  obtain ⟨row, nhi, hrow, hr⟩ := h
  obtain ⟨row', nhi', hrow', hr'⟩ := h'
  obtain rfl := Option.some.inj (hrow.symm.trans hrow')
  exact (readRow_reads hr).unique (readRow_reads hr')

theorem Current.mono (hext : Extends files files')
    (hrow : currentRow files' dotId actionRef = currentRow files dotId actionRef)
    (h : Current host files dotId actionRef r) : Current host files' dotId actionRef r := by
  obtain ⟨row, nhi, hcurrent, hr⟩ := h
  exact ⟨row, nhi, hrow.trans hcurrent, readRow_extends hext hr⟩

end Extends

section CurrentDotActions

variable {entries : List (String × DotActionRecord D)} {key : String}

/-- The map of a read holds, for each action of the dot, what its last row reads as. -/
theorem latestEntries_spec {rows : List (DotActionRecord D)}
    (h : rows.foldlM (latestEntry host nhi files dotId) [] = .ok entries) :
    (∀ entry ∈ entries, entry.2.actionRef = entry.1) ∧ (entries.map Prod.fst).Nodup ∧
      ∀ actionRef, match lastFor rowKey (dotId, actionRef) rows with
        | none => Keyed.find Prod.fst actionRef entries = none
        | some row => ∃ r, readRow host nhi files row = .ok r ∧
            Keyed.find Prod.fst actionRef entries = some (actionRef, r) := by
  induction rows using List.reverseRecOn generalizing entries with
  | nil =>
      obtain rfl : [] = entries := Except.ok.inj h
      exact ⟨fun entry hentry => absurd hentry List.not_mem_nil, List.nodup_nil, fun _ => rfl⟩
  | append_singleton rows row ih =>
      simp only [List.foldlM_append, List.foldlM_cons, List.foldlM_nil, bind_pure,
        except_bind_eq_ok] at h
      obtain ⟨before, hbefore, hafter⟩ := h
      obtain ⟨hrefs, hnodup, hlast⟩ := ih hbefore
      unfold latestEntry at hafter
      obtain ⟨_, hbody, hafter⟩ := Js.except_bind_ok hafter
      split at hafter
      · rename_i hdot
        obtain ⟨full, hfull, hafter⟩ := Js.except_bind_ok hafter
        obtain rfl := Except.ok.inj hafter
        have hread : readRow host nhi files row = .ok full :=
          except_bind_eq_ok.mpr ⟨_, hbody, hfull⟩
        refine ⟨fun entry hentry => ?_, nodup_setEntry hnodup, fun actionRef => ?_⟩
        · rcases mem_setEntry hentry with rfl | hold
          · exact readRow_actionRef hread
          · exact hrefs entry hold
        · rw [lastFor_concat]
          by_cases href : row.actionRef = actionRef
          · subst href
            rw [if_pos (by rw [rowKey, hdot])]
            exact ⟨full, hread, by rw [find_setEntry, if_pos rfl]⟩
          · rw [if_neg (by simp [rowKey, href]), find_setEntry, if_neg (Ne.symm href)]
            exact hlast actionRef
      · rename_i hdot
        obtain rfl := Except.ok.inj hafter
        refine ⟨hrefs, hnodup, fun actionRef => ?_⟩
        rw [lastFor_concat, if_neg (by simp [rowKey, hdot])]
        exact hlast actionRef

/-- What a reader of the dot finds for an action is its current record, or it has no row. -/
theorem currentDotActions_find {actions : List (DotActionRecord D)}
    (h : currentDotActions host nhi files dotId = .ok actions) (actionRef : String) :
    match actions.find? fun row => row.actionRef = actionRef with
    | none => currentRow files dotId actionRef = none
    | some r => Current host files dotId actionRef r := by
  unfold currentDotActions at h
  obtain ⟨entries, hentries, h⟩ := Js.except_bind_ok h
  obtain rfl := Except.ok.inj h
  obtain ⟨hrefs, -, hlast⟩ := latestEntries_spec hentries
  have hlast := hlast actionRef
  rw [find_values hrefs]
  cases hrow : lastFor rowKey (dotId, actionRef) files.rows with
  | none =>
      rw [hrow] at hlast
      rw [hlast]
      exact hrow
  | some row =>
      rw [hrow] at hlast
      obtain ⟨r, hread, hfind⟩ := hlast
      rw [hfind]
      exact ⟨row, nhi, hrow, hread⟩

end CurrentDotActions

/-- Whatever a reader of the dot finds is a current record. -/
theorem current_of_mem {actions : List (DotActionRecord D)}
    (h : currentDotActions host nhi files dotId = .ok actions) (hr : r ∈ actions) :
    Current host files dotId r.actionRef r := by
  unfold currentDotActions at h
  obtain ⟨entries, hentries, h⟩ := Js.except_bind_ok h
  obtain rfl := Except.ok.inj h
  obtain ⟨hrefs, hnodup, hlast⟩ := latestEntries_spec hentries
  obtain ⟨entry, hentry, rfl⟩ := List.mem_map.mp hr
  have hlast := hlast entry.2.actionRef
  cases hrow : lastFor rowKey (dotId, entry.2.actionRef) files.rows with
  | none =>
      rw [hrow] at hlast
      refine absurd ?_ (Keyed.find_eq_none.mp hlast)
      rw [hrefs entry hentry]
      exact List.mem_map_of_mem hentry
  | some row =>
      rw [hrow] at hlast
      obtain ⟨r, hread, hfind⟩ := hlast
      have heq : entry = (entry.2.actionRef, r) :=
        List.inj_on_of_nodup_map hnodup hentry (Keyed.mem_of_find hfind) (hrefs entry hentry).symm
      rw [show entry.2 = r from congrArg Prod.snd heq] at hrow ⊢
      exact ⟨row, nhi, hrow, hread⟩

section Strict

theorem validateRow_ok (h : validateRow host nhi files row = .ok r) :
    readRow host nhi files row = .ok r := by
  unfold validateRow at h
  obtain ⟨_, hbody, h⟩ := Js.except_bind_ok h
  simp only [Js.throwIf_eq_ok] at h
  obtain ⟨-, -, -, -, h⟩ := h
  refine except_bind_eq_ok.mpr ⟨_, hbody, ?_⟩
  split at h
  · obtain ⟨-, -, h⟩ := Js.except_bind_ok h
    exact h
  · exact h

theorem rel_or {α β : Type} {R : α → β → Prop} {a a' : Option α} {b b' : Option β}
    (h : Option.Rel R a b) (h' : Option.Rel R a' b') : Option.Rel R (a.or a') (b.or b') := by
  cases h with
  | some hab => exact .some hab
  | none => exact h'

/-- The last record of an action in a strict read is what its last row reads as. -/
theorem strictRows_last {lines : List (Option (DotActionRecord D))}
    {rows : List (DotActionRecord D)} (h : strictRows host nhi files dotId lines = .ok rows) :
    Option.Rel (fun row r => readRow host nhi files row = .ok r)
      (lastFor rowKey (dotId, actionRef) (lines.filterMap id))
      (rows.filter fun row => row.actionRef = actionRef).getLast? := by
  induction lines generalizing rows with
  | nil =>
      obtain rfl : [] = rows := Except.ok.inj h
      exact .none
  | cons line rest ih =>
      cases line with
      | none => cases h
      | some row =>
          have hlines : (some row :: rest).filterMap id = [row] ++ rest.filterMap id := rfl
          rw [hlines, lastFor_append]
          rw [strictRows] at h
          split at h
          · rename_i hdot
            obtain ⟨full, hfull, h⟩ := Js.except_bind_ok h
            obtain ⟨others, hothers, h⟩ := Js.except_bind_ok h
            obtain rfl := Except.ok.inj h
            have hread := validateRow_ok hfull
            rw [← List.singleton_append (x := full), List.filter_append, List.getLast?_append]
            refine rel_or (ih hothers) ?_
            by_cases href : row.actionRef = actionRef
            · simpa [lastFor, rowKey, hdot, href, readRow_actionRef hread] using
                Option.Rel.some hread
            · simp [lastFor, rowKey, hdot, href, readRow_actionRef hread]
          · rename_i hdot
            have hskip : lastFor rowKey (dotId, actionRef) [row] = none := by
              simp [lastFor, rowKey, hdot]
            rw [hskip, Option.or_none]
            exact ih h

/-- What a strict reader of the dot finds last for an action is its current record. -/
theorem readDotActionLedgerStrict_last {rows : List (DotActionRecord D)}
    (h : readDotActionLedgerStrict host nhi files dotId = .ok rows)
    (hlast : (rows.filter fun row => row.actionRef = actionRef).getLast? = some r) :
    Current host files dotId actionRef r := by
  have hspec : Option.Rel (fun row r => readRow host nhi files row = .ok r)
      (lastFor rowKey (dotId, actionRef) (files.index.filterMap id))
      (rows.filter fun row => row.actionRef = actionRef).getLast? := strictRows_last h
  rw [hlast] at hspec
  cases hrow : lastFor rowKey (dotId, actionRef) (files.index.filterMap id) with
  | none =>
      rw [hrow] at hspec
      cases hspec
  | some row =>
      rw [hrow] at hspec
      cases hspec with
      | some hread => exact ⟨row, nhi, hrow, hread⟩

end Strict

/-- A row that could be read reads the same after a migration. -/
theorem readRow_migratedRow {charter : DotCharter} (h : readRow host nhi files row = .ok r) :
    readRow host nhi files (migratedRow host charter row) = .ok r := by
  unfold migratedRow
  split
  · rename_i file full hmigrate
    obtain ⟨rfl, hhash, hscope⟩ := migrateRow_some hmigrate
    cases hrow : row.scope with
    | none =>
        -- without a scope it could not be read
        have hindexed : indexedRow host row = actionIndex host row := by
          unfold indexedRow
          rw [hrow]
        have hreads := readRow_reads h
        rw [hindexed] at hreads
        cases hreads with
        | inline hnone => cases hnone
        | hydrated _ hnone => exact absurd (hrow.symm.trans hnone) nofun
    | some scope =>
        obtain ⟨rfl, htier⟩ := hscope scope hrow
        have heq : { row with scope := some charter.scope } = row := by
          rw [← hrow]
        rw [heq, if_neg htier]
        have hindexed : indexedRow host row = actionIndex host row := by
          unfold indexedRow
          rw [hrow]
          simp [htier, hhash]
        unfold readRow at h ⊢
        obtain ⟨-, -, h⟩ := Js.except_bind_ok h
        rw [indexedRow_actionIndex hrow]
        rw [hindexed] at h
        exact except_bind_eq_ok.mpr ⟨(), rfl, h⟩
  · exact h

/-- The index with its rows migrated. -/
theorem Current.migrated {charter : DotCharter}
    (hrows : files'.rows = files.rows.map (migratedRow host charter))
    (hscoped : files'.scopedFiles = files.scopedFiles)
    (h : Current host files dotId actionRef r) : Current host files' dotId actionRef r := by
  obtain ⟨row, nhi, hrow, hr⟩ := h
  have hrow' : currentRow files' dotId actionRef = some (migratedRow host charter row) := by
    rw [currentRow, hrows, lastFor_map (migratedRow_rowKey host charter)]
    exact congrArg (Option.map _) hrow
  have hext : Extends files files' := fun file => ⟨[], by rw [hscoped, List.append_nil]⟩
  exact ⟨_, nhi, hrow', readRow_extends hext (readRow_migratedRow hr)⟩

end Kyberion.Dot
