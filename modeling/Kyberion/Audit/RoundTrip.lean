import Kyberion.Audit.Accepted
import Mathlib.Data.List.Induction

/-!
The chain that appending builds. Every line on disk is an entry or what an append
left that was cut short; the entries in file order continue one chain and count up,
so the cursor that a call reads is the end of the chain, verification finds nothing
about an entry, and no entry gets in the way of a later call.
-/

namespace Kyberion.Audit

open Js

/-- The entry in a line, if the reader takes it. -/
def entryOf : Line → Option AuditEntry
  | .value v => (parseEntry v).toOption
  | _ => none

/-- The entries of some files, in order. -/
def entries (files : List DayFile) : List AuditEntry :=
  files.flatMap fun file => file.lines.filterMap entryOf

section Lines

theorem readLines_entries (n : ℕ) (lines : List Line) :
    (readLines n lines).1 = lines.filterMap entryOf := by
  induction lines generalizing n with
  | nil => rfl
  | cons line lines ih =>
      cases line with
      | value v => cases hparse : parseEntry v <;> simp [readLines, ih, entryOf, hparse,
          Except.toOption]
      | _ => simp [readLines, ih, entryOf, List.filterMap_cons]

/-- What is reported of a file are its lines that are neither blank nor entries. -/
theorem mem_invalidLines {n m : ℕ} {lines : List Line} (h : m ∈ (readLines n lines).2) :
    n ≤ m ∧ ∃ line, lines[m - n]? = some line ∧ entryOf line = none ∧ line ≠ .blank := by
  induction lines generalizing n with
  | nil => cases h
  | cons line lines ih =>
      have hrest : m ∈ (readLines (n + 1) lines).2 → n ≤ m ∧ ∃ line', (line :: lines)[m - n]? =
          some line' ∧ entryOf line' = none ∧ line' ≠ .blank := by
        intro hm
        obtain ⟨hle, line', hline', hnone⟩ := ih hm
        refine ⟨by omega, line', ?_, hnone⟩
        rwa [show m - n = m - (n + 1) + 1 by omega, List.getElem?_cons_succ]
      have hhere : entryOf line = none → line ≠ .blank → m = n → n ≤ m ∧ ∃ line',
          (line :: lines)[m - n]? = some line' ∧ entryOf line' = none ∧ line' ≠ .blank := by
        rintro hnone hblank rfl
        exact ⟨le_rfl, line, by simp, hnone, hblank⟩
      cases line with
      | oversized =>
          rcases List.mem_cons.mp h with heq | hm
          · exact hhere rfl (by rintro ⟨⟩) heq
          · exact hrest hm
      | blank => exact hrest h
      | malformed =>
          rcases List.mem_cons.mp h with heq | hm
          · exact hhere rfl (by rintro ⟨⟩) heq
          · exact hrest hm
      | value v =>
          cases hparse : parseEntry v with
          | ok e =>
              simp only [readLines, hparse] at h
              exact hrest h
          | error _ =>
              simp only [readLines, hparse] at h
              rcases List.mem_cons.mp h with heq | hm
              · exact hhere (by simp [entryOf, hparse, Except.toOption]) (by rintro ⟨⟩) heq
              · exact hrest hm

/-- The cursor comes from the newest entry of the lines. -/
theorem readSeedLines_fst (torn : Bool) (lines : List Line) :
    (readSeedLines torn lines).1 = (lines.filterMap entryOf).head? := by
  induction lines generalizing torn with
  | nil => rfl
  | cons line lines ih =>
      cases line with
      | value v =>
          cases hsafe : v.isSafeJsonValue with
          | false => simp [readSeedLines, entryOf, parseEntry, hsafe, ih, Except.toOption]
          | true =>
              cases hnormal : normalizePersistedAuditEntry v <;>
                simp [readSeedLines, entryOf, parseEntry, hsafe, hnormal, ih, Except.toOption]
      | _ => simp [readSeedLines, entryOf, ih, List.findSome?_cons]

theorem entries_append (files files' : List DayFile) :
    entries (files ++ files') = entries files ++ entries files' :=
  List.flatMap_append

theorem entries_singleton (file : DayFile) :
    entries [file] = file.lines.filterMap entryOf := by
  simp [entries]

theorem readAuditFileForVerify_readable {file : DayFile} (h : file.readable = true) :
    readAuditFileForVerify file = ⟨file.lines.filterMap entryOf, (readLines 1 file.lines).2,
      false⟩ := by
  rw [readAuditFileForVerify, if_pos h, ← readLines_entries 1]

variable {unterminated : String → Bool} {files : List DayFile}

/-- The cursor names the last entry on disk, or the start of the chain. -/
theorem seedFromFiles_ok {hash : String} {n : ℕ}
    (h : seedFromFiles unterminated files.reverse = .ok (hash, n)) :
    entries files = [] ∧ hash = genesisHash ∧ n = 0 ∨
      ∃ last, (entries files).getLast? = some last ∧ hash = last.currentHash ∧
        n = (auditIdCounter last.id).getD 0 := by
  induction files using List.reverseRecOn with
  | nil =>
      obtain ⟨rfl, rfl⟩ := Prod.mk.inj (Except.ok.inj h)
      exact .inl ⟨rfl, rfl, rfl⟩
  | append_singleton older file ih =>
      rw [List.reverse_append, List.reverse_singleton, List.singleton_append, seedFromFiles] at h
      have hlast := readSeedLines_fst (unterminated file.name) file.lines.reverse
      rw [List.filterMap_reverse, List.head?_reverse] at hlast
      rw [entries_append, entries_singleton]
      split at h
      · cases h
      · split at h
        · rename_i hseed
          rw [hseed] at hlast
          rw [List.getLast?_eq_none_iff.mp hlast.symm, List.append_nil]
          exact ih h
        · cases h
        · rename_i last _ hseed
          rw [hseed] at hlast
          obtain ⟨rfl, rfl⟩ := Prod.mk.inj (Except.ok.inj h)
          refine .inr ⟨last, ?_, rfl, rfl⟩
          rw [List.getLast?_append, ← hlast]
          rfl

/-- Seeding fails at a file without an entry, before it has come to one. -/
theorem seedFromFiles_error {fault : String} (hreadable : ∀ file ∈ files, file.readable = true)
    (h : seedFromFiles unterminated files.reverse = .error fault) :
    ∃ older file newer, files = older ++ file :: newer ∧ file.lines ≠ [] ∧
      entries (file :: newer) = [] := by
  induction files using List.reverseRecOn with
  | nil => cases h
  | append_singleton older file ih =>
      rw [List.reverse_append, List.reverse_singleton, List.singleton_append, seedFromFiles] at h
      have hlast := readSeedLines_fst (unterminated file.name) file.lines.reverse
      rw [List.filterMap_reverse, List.head?_reverse] at hlast
      split at h
      · rename_i hunreadable
        rw [hreadable file (by simp)] at hunreadable
        cases hunreadable
      · split at h
        · rename_i hseed
          rw [hseed] at hlast
          obtain ⟨older', file', newer, rfl, hlines, hnone⟩ :=
            ih (fun other hother => hreadable other (by simp [hother])) h
          refine ⟨older', file', newer ++ [file], by simp, hlines, ?_⟩
          rw [← List.cons_append, entries_append, hnone, entries_singleton,
            List.getLast?_eq_none_iff.mp hlast.symm]
          rfl
        · rename_i hseed
          rw [hseed] at hlast
          refine ⟨older, file, [], rfl, ?_, ?_⟩
          · intro hnil
            rw [hnil] at hseed
            cases hseed
          · rw [entries_singleton, List.getLast?_eq_none_iff.mp hlast.symm]
        · cases h

end Lines

section Names

theorem length_of_isDate {date : List Char} (h : isDate date = true) : date.length = 10 := by
  unfold isDate at h
  split at h
  · rfl
  · cases h

def auditFileName (date : List Char) : String :=
  "audit-" ++ String.ofList date ++ ".jsonl"

theorem toList_auditFileName (date : List Char) :
    (auditFileName date).toList = "audit-".toList ++ (date ++ ".jsonl".toList) := by
  simp [auditFileName]

theorem extractAuditDate_auditFileName {date : List Char} (h : isDate date = true) :
    extractAuditDate (auditFileName date) = some (String.ofList date) := by
  have hrest : "audit-".toList.isPrefixOf? (auditFileName date).toList =
      some (date ++ ".jsonl".toList) := by
    rw [toList_auditFileName]
    rfl
  have hlength := length_of_isDate h
  have htake : (date ++ ".jsonl".toList).take 10 = date := by
    rw [← hlength, List.take_left]
  have hdrop : (date ++ ".jsonl".toList).drop 10 = ".jsonl".toList := by
    rw [← hlength, List.drop_left]
  simp only [extractAuditDate, hrest, htake, hdrop, h, Bool.true_and, decide_true, if_true]

theorem lt_append {cs ds : List Char} (suffix : List Char) (hlength : cs.length = ds.length)
    (h : cs < ds) : cs ++ suffix < ds ++ suffix := by
  induction cs generalizing ds with
  | nil =>
      cases ds with
      | nil => exact absurd h (List.lt_irrefl _)
      | cons d ds => cases hlength
  | cons c cs ih =>
      cases ds with
      | nil => cases hlength
      | cons d ds =>
          rw [List.cons_append, List.cons_append, List.cons_lt_cons_iff]
          rcases List.cons_lt_cons_iff.mp h with hlt | ⟨rfl, hlt⟩
          · exact .inl hlt
          · exact .inr ⟨rfl, ih (Nat.succ.inj hlength) hlt⟩

/-- Files are listed in the order of their dates. -/
theorem auditFileName_lt {date date' : List Char} (h : isDate date = true)
    (h' : isDate date' = true) (hlt : date < date') :
    (auditFileName date).toList < (auditFileName date').toList := by
  rw [toList_auditFileName, toList_auditFileName]
  exact List.append_left_lt
    (lt_append _ ((length_of_isDate h).trans (length_of_isDate h').symm) hlt)

end Names

section Files

variable {name : String} {line : Line} {dir older : List DayFile} {file : DayFile}

theorem appendLine_new (h : ∀ file ∈ dir, file.name ≠ name) :
    appendLine name line dir = dir ++ [⟨name, true, [line]⟩] := by
  induction dir with
  | nil => rfl
  | cons file dir ih =>
      rw [appendLine, if_neg (h file List.mem_cons_self), List.cons_append,
        ih fun other hother => h other (List.mem_cons_of_mem _ hother)]

theorem appendLine_last (h : ∀ other ∈ older, other.name ≠ name) (hname : file.name = name) :
    appendLine name line (older ++ [file]) =
      older ++ [{ file with lines := file.lines ++ [line] }] := by
  induction older with
  | nil => rw [List.nil_append, List.nil_append, appendLine, if_pos hname]
  | cons other older ih =>
      rw [List.cons_append, appendLine, if_neg (h other List.mem_cons_self), List.cons_append,
        ih fun other' hother' => h other' (List.mem_cons_of_mem _ hother')]

theorem openFile_new (h : ∀ file ∈ dir, file.name ≠ name) :
    openFile name dir = dir ++ [⟨name, true, []⟩] := by
  have hany : dir.any (·.name = name) = false := by simpa using h
  rw [openFile, hany]
  rfl

theorem openFile_old (h : file ∈ dir) (hname : file.name = name) : openFile name dir = dir := by
  have hany : dir.any (·.name = name) = true := by simpa using ⟨file, h, hname⟩
  rw [openFile, if_pos hany]

end Files

section Ids

theorem isDigit_of_mem_toDigits {n : ℕ} {c : Char} (h : c ∈ Nat.toDigits 10 n) :
    isDigit c = true := by
  have hdigit := Nat.isDigit_of_mem_toDigits (by decide) (by decide) h
  simp only [Char.isDigit, Bool.and_eq_true, decide_eq_true_eq, ge_iff_le] at hdigit
  simp only [isDigit, Bool.and_eq_true, decide_eq_true_eq]
  exact hdigit

/-- The counter of an id is read back from it. -/
theorem auditIdCounter_draft (call : RecordCall) {n : ℕ} (h : n ≤ maxSafeInteger) :
    auditIdCounter (call.draft n).id = some n := by
  have hreverse : (call.draft n).id.toList.reverse =
      (Nat.toDigits 10 n).reverse ++ '-' :: ("AUD-" ++ call.time).toList.reverse := by
    simp [RecordCall.draft]
  have hdigits : ∀ c ∈ (Nat.toDigits 10 n).reverse, isDigit c = true := fun c hc =>
    isDigit_of_mem_toDigits (List.mem_reverse.mp hc)
  have hdash : isDigit '-' = false := by decide
  have htake : (call.draft n).id.toList.reverse.takeWhile isDigit =
      (Nat.toDigits 10 n).reverse := by
    rw [hreverse, List.takeWhile_append_of_pos hdigits, List.takeWhile_cons, hdash]
    simp
  have hdrop : (call.draft n).id.toList.reverse.dropWhile isDigit =
      '-' :: ("AUD-" ++ call.time).toList.reverse := by
    rw [hreverse, List.dropWhile_append_of_pos hdigits, List.dropWhile_cons, hdash]
    simp
  simp only [auditIdCounter, htake, hdrop, List.reverse_reverse, List.head?_cons, ne_eq,
    not_true_eq_false, or_false, if_neg Nat.toDigits_ne_nil, Nat.ofDigitChars_ten_toDigits, if_pos h]

end Ids

section Directory

/-- Day files in the order of their dates, none after `day`, whose lines are entries or what is left
of appends that were cut short. -/
structure DirInv (day : List Char) (dir : List DayFile) : Prop where
  sorted : dir.Pairwise fun a b => a.name.toList < b.name.toList
  dated : ∀ file ∈ dir, file.readable = true ∧
    ∃ date, isDate date = true ∧ date ≤ day ∧ file.name = auditFileName date
  lines : ∀ file ∈ dir, ∀ line ∈ file.lines, entryOf line = none →
    line = .malformed ∨ line = .oversized

variable {day date : List Char} {dir : List DayFile} {line : Line}

theorem DirInv.listAuditFiles (h : DirInv day dir) : listAuditFiles dir = dir := by
  have hfilter : (dir.filter fun file => (extractAuditDate file.name).isSome) = dir := by
    refine List.filter_eq_self.mpr fun file hfile => ?_
    obtain ⟨-, date, hdate, -, hname⟩ := h.dated file hfile
    rw [hname, extractAuditDate_auditFileName hdate]
    rfl
  rw [Audit.listAuditFiles, hfilter]
  exact List.Pairwise.insertionSort_eq (h.sorted.imp fun hlt => le_of_lt hlt)

theorem DirInv.loadAll (h : DirInv day dir) : loadAll dir = entries dir := by
  rw [Audit.loadAll, h.listAuditFiles, entries]
  refine List.flatMap_congr fun file hfile => ?_
  rw [readAuditFileForVerify_readable (h.dated file hfile).1]

/-- The file of the latest date is the last one, if it is there. -/
theorem DirInv.cases (h : DirInv day dir) (hdate : isDate date = true) (hday : day ≤ date) :
    (∀ file ∈ dir, file.name.toList < (auditFileName date).toList) ∨
      ∃ older file, dir = older ++ [file] ∧ file.name = auditFileName date ∧
        ∀ other ∈ older, other.name.toList < (auditFileName date).toList := by
  have hle : ∀ file ∈ dir, file.name = auditFileName date ∨
      file.name.toList < (auditFileName date).toList := by
    intro file hfile
    obtain ⟨-, date', hdate', hle, hname⟩ := h.dated file hfile
    rcases le_iff_lt_or_eq.mp (le_trans hle hday) with hlt | rfl
    · exact .inr (hname ▸ auditFileName_lt hdate' hdate hlt)
    · exact .inl hname
  by_cases hmem : ∃ file ∈ dir, file.name = auditFileName date
  · obtain ⟨file, hfile, hname⟩ := hmem
    obtain ⟨older, newer, rfl⟩ := List.append_of_mem hfile
    have hsorted := List.pairwise_append.mp h.sorted
    have hnewer : newer = [] := by
      refine List.eq_nil_iff_forall_not_mem.mpr fun other hother => ?_
      have hafter := (List.pairwise_cons.mp hsorted.2.1).1 other hother
      rw [hname] at hafter
      rcases hle other (by simp [hother]) with heq | hlt
      · rw [heq] at hafter
        exact List.lt_irrefl _ hafter
      · exact List.lt_asymm hafter hlt
    subst hnewer
    refine .inr ⟨older, file, rfl, hname, fun other hother => ?_⟩
    exact hname ▸ hsorted.2.2 other hother file List.mem_cons_self
  · refine .inl fun file hfile => (hle file hfile).resolve_left fun hname => ?_
    exact hmem ⟨file, hfile, hname⟩

theorem DirInv.sublist {dir' : List DayFile} (h : DirInv day dir) (hsub : dir'.Sublist dir) :
    DirInv day dir' :=
  ⟨h.sorted.sublist hsub, fun file hfile => h.dated file (hsub.subset hfile),
    fun file hfile => h.lines file (hsub.subset hfile)⟩

theorem DirInv.tick (h : DirInv day dir) (hday : day ≤ date) : DirInv date dir := by
  refine ⟨h.sorted, fun file hfile => ?_, h.lines⟩
  obtain ⟨hreadable, date', hdate', hle, hname⟩ := h.dated file hfile
  exact ⟨hreadable, date', hdate', le_trans hle hday, hname⟩

theorem DirInv.new (h : DirInv date dir) (hdate : isDate date = true)
    (hbefore : ∀ file ∈ dir, file.name.toList < (auditFileName date).toList) {lines : List Line}
    (hlines : ∀ line ∈ lines, entryOf line = none → line = .malformed ∨ line = .oversized) :
    DirInv date (dir ++ [⟨auditFileName date, true, lines⟩]) := by
  refine ⟨?_, ?_, ?_⟩
  · refine List.pairwise_append.mpr ⟨h.sorted, List.pairwise_singleton _ _, ?_⟩
    intro file hfile other hother
    obtain rfl := List.mem_singleton.mp hother
    exact hbefore file hfile
  · intro file hfile
    rcases List.mem_append.mp hfile with hold | hnew
    · exact h.dated file hold
    · obtain rfl := List.mem_singleton.mp hnew
      exact ⟨rfl, date, hdate, le_refl _, rfl⟩
  · intro file hfile
    rcases List.mem_append.mp hfile with hold | hnew
    · exact h.lines file hold
    · obtain rfl := List.mem_singleton.mp hnew
      exact hlines

theorem DirInv.last {older : List DayFile} {file : DayFile} (h : DirInv date (older ++ [file]))
    (hline : entryOf line = none → line = .malformed ∨ line = .oversized) :
    DirInv date (older ++ [{ file with lines := file.lines ++ [line] }]) := by
  have hsorted := List.pairwise_append.mp h.sorted
  refine ⟨?_, ?_, ?_⟩
  · refine List.pairwise_append.mpr ⟨hsorted.1, List.pairwise_singleton _ _, ?_⟩
    intro other hother file' hfile'
    obtain rfl := List.mem_singleton.mp hfile'
    exact hsorted.2.2 other hother file List.mem_cons_self
  · intro other hother
    rcases List.mem_append.mp hother with hold | hnew
    · exact h.dated other (List.mem_append_left _ hold)
    · obtain rfl := List.mem_singleton.mp hnew
      exact h.dated file (by simp)
  · intro other hother line' hline'
    rcases List.mem_append.mp hother with hold | hnew
    · exact h.lines other (List.mem_append_left _ hold) line' hline'
    · obtain rfl := List.mem_singleton.mp hnew
      rcases List.mem_append.mp hline' with hbefore | hadded
      · exact h.lines file (by simp) line' hbefore
      · exact List.mem_singleton.mp hadded ▸ hline

/-- One more line in the file of today. -/
theorem DirInv.append (h : DirInv day dir) (hdate : isDate date = true) (hday : day ≤ date)
    (hline : entryOf line = none → line = .malformed ∨ line = .oversized) :
    DirInv date (appendLine (auditFileName date) line dir) ∧
      entries (appendLine (auditFileName date) line dir) = entries dir ++ (entryOf line).toList := by
  have hnew : (entries [⟨auditFileName date, true, [line]⟩]) = (entryOf line).toList := by
    rw [entries_singleton, List.filterMap_cons, List.filterMap_nil]
    cases entryOf line <;> rfl
  rcases h.cases hdate hday with hbefore | ⟨older, file, rfl, hname, hbefore⟩
  · have hne : ∀ file ∈ dir, file.name ≠ auditFileName date := fun file hfile heq =>
      List.lt_irrefl _ (heq ▸ hbefore file hfile)
    rw [appendLine_new hne, entries_append, hnew]
    exact ⟨(h.tick hday).new hdate hbefore (by simpa using hline), rfl⟩
  · have hne : ∀ other ∈ older, other.name ≠ auditFileName date := fun other hother heq =>
      List.lt_irrefl _ (heq ▸ hbefore other hother)
    rw [appendLine_last hne hname]
    refine ⟨(h.tick hday).last hline, ?_⟩
    rw [entries_append, entries_append, entries_singleton, entries_singleton, List.append_assoc,
      List.filterMap_append, ← hnew, entries_singleton]

/-- Opening the file of today adds no entry. -/
theorem DirInv.openFile (h : DirInv day dir) (hdate : isDate date = true) (hday : day ≤ date) :
    DirInv date (openFile (auditFileName date) dir) ∧
      entries (openFile (auditFileName date) dir) = entries dir := by
  rcases h.cases hdate hday with hbefore | ⟨older, file, rfl, hname, -⟩
  · have hne : ∀ file ∈ dir, file.name ≠ auditFileName date := fun file hfile heq =>
      List.lt_irrefl _ (heq ▸ hbefore file hfile)
    rw [openFile_new hne, entries_append]
    exact ⟨(h.tick hday).new hdate hbefore nofun, List.append_nil _⟩
  · rw [openFile_old (by simp) hname]
    exact ⟨h.tick hday, rfl⟩

end Directory

section Chain

variable (H : Digests) (key : String)

/-- The entries on disk form one keyed chain, numbered from 1, that holds what was returned. -/
structure ChainInv (s : ChainState) : Prop where
  dir : DirInv s.day s.dir
  linked : Linked AuditEntry.previousHash AuditEntry.currentHash genesisHash (entries s.dir)
  authentic : ∀ e ∈ entries s.dir, Authentic H key e
  numbered : ∀ i e, (entries s.dir)[i]? = some e →
    ∃ call : RecordCall, e.id = (call.draft (i + 1)).id
  bounded : (entries s.dir).length ≤ maxSafeInteger
  returned : (s.returned.map AuditEntry.persisted).Sublist (entries s.dir)

/-- An appended entry can be read back, and the count of entries is still exact. -/
def Fits (s : ChainState) (a : ChainAction) : Prop :=
  (entries s.dir).length < maxSafeInteger ∧
    ∀ e, recordEntry H key s.unterminated s.dir a.call = .ok e → Readable e

instance (s : ChainState) (a : ChainAction) : Decidable (Fits H key s a) :=
  decidable_of_iff ((entries s.dir).length < maxSafeInteger ∧
      (recordEntry H key s.unterminated s.dir a.call).toOption.all fun e => Readable e) <| by
    rw [Fits]
    cases recordEntry H key s.unterminated s.dir a.call <;> simp [Except.toOption]

variable {H key} {s t : ChainState}

theorem mapError_ok {ε ε' α : Type} {f : ε → ε'} {x : Except ε α} {a : α}
    (h : x.mapError f = .ok a) : x = .ok a := by
  cases x with
  | error _ => cases h
  | ok b => exact congrArg Except.ok (Except.ok.inj h)

theorem mapError_error {ε ε' α : Type} {f : ε → ε'} {x : Except ε α} {e : ε'}
    (h : x.mapError f = .error e) : ∃ e', x = .error e' := by
  cases x with
  | error e' => exact ⟨e', rfl⟩
  | ok b => cases h

/-- The cursor is the end of the chain. -/
theorem ChainInv.cursor (hex : ∀ message, isBlank (H.hmacSha256 key message) = false)
    (h : ChainInv H key s) {hash : String} {n : ℕ}
    (hseed : seedFromDisk s.unterminated s.dir = .ok (hash, n)) :
    n = (entries s.dir).length ∧ isBlank hash = false ∧
      (genesisHash :: (entries s.dir).map AuditEntry.currentHash).getLast? = some hash := by
  rw [seedFromDisk, h.dir.listAuditFiles] at hseed
  rcases seedFromFiles_ok (mapError_ok hseed) with ⟨hnil, rfl, rfl⟩ | ⟨last, hlast, rfl, rfl⟩
  · rw [hnil]
    exact ⟨rfl, by decide +kernel, rfl⟩
  · have hmem := List.mem_of_getLast? hlast
    have hne : entries s.dir ≠ [] := List.ne_nil_of_mem hmem
    obtain ⟨call, hid⟩ := h.numbered ((entries s.dir).length - 1) last
      (by rw [← hlast, List.getLast?_eq_getElem?])
    have hlength : (entries s.dir).length - 1 + 1 = (entries s.dir).length :=
      Nat.sub_add_cancel (List.length_pos_iff.mpr hne)
    rw [hlength] at hid
    rw [hid, auditIdCounter_draft call h.bounded]
    refine ⟨rfl, ?_, ?_⟩
    · rw [(h.authentic last hmem).2]
      exact hex _
    · rw [List.getLast?_cons, List.getLast?_map, hlast]
      rfl

/-- One more entry at the end of the chain. -/
theorem ChainInv.extend (h : ChainInv H key s) {e : AuditEntry} {call : RecordCall} {hash : String}
    (hdir : DirInv t.day t.dir) (hentries : entries t.dir = entries s.dir ++ [e.persisted])
    (hcursor : (genesisHash :: (entries s.dir).map AuditEntry.currentHash).getLast? = some hash)
    (hprevious : e.previousHash = hash) (hauthentic : Authentic H key e)
    (hid : e.id = (call.draft ((entries s.dir).length + 1)).id)
    (hbounded : (entries s.dir).length < maxSafeInteger)
    (hreturned : t.returned = s.returned ∨ t.returned = s.returned ++ [e]) :
    ChainInv H key t := by
  refine ⟨hdir, ?_, ?_, ?_, ?_, ?_⟩
  · rw [hentries]
    refine h.linked.append fun last hlast => ⟨?_, trivial⟩
    obtain rfl := Option.some.inj (hcursor.symm.trans hlast)
    exact hprevious
  · rw [hentries]
    intro f hf
    rcases List.mem_append.mp hf with hold | hnew
    · exact h.authentic f hold
    · exact List.mem_singleton.mp hnew ▸ authentic_persisted hauthentic
  · rw [hentries]
    intro i f hf
    rcases Nat.lt_trichotomy i (entries s.dir).length with hlt | rfl | hgt
    · rw [List.getElem?_append_left hlt] at hf
      exact h.numbered i f hf
    · rw [List.getElem?_concat_length] at hf
      obtain rfl := Option.some.inj hf
      exact ⟨call, hid⟩
    · rw [List.getElem?_eq_none (by simp; omega)] at hf
      cases hf
  · rw [hentries, List.length_append, List.length_singleton]
    exact hbounded
  · rw [hentries]
    rcases hreturned with heq | heq
    · rw [heq]
      exact h.returned.trans (List.sublist_append_left _ _)
    · rw [heq, List.map_append]
      exact h.returned.append (List.Sublist.refl _)

/-- Nothing is added to the chain. -/
theorem ChainInv.keep (h : ChainInv H key s) (hdir : DirInv t.day t.dir)
    (hentries : entries t.dir = entries s.dir) (hreturned : t.returned = s.returned) :
    ChainInv H key t :=
  ⟨hdir, hentries ▸ h.linked, hentries ▸ h.authentic, hentries ▸ h.numbered,
    hentries ▸ h.bounded, by rw [hentries, hreturned]; exact h.returned⟩

theorem recordEntry_ok (hex : ∀ message, isBlank (H.hmacSha256 key message) = false)
    (h : ChainInv H key s) {call : RecordCall} (htyped : call.typed = true) {e : AuditEntry}
    (hentry : recordEntry H key s.unterminated s.dir call = .ok e) :
    e.WellFormed ∧ Authentic H key e ∧ e.id = (call.draft ((entries s.dir).length + 1)).id ∧
      (genesisHash :: (entries s.dir).map AuditEntry.currentHash).getLast? =
        some e.previousHash := by
  obtain ⟨⟨hash, n⟩, hseed, happend⟩ := except_bind_ok hentry
  obtain ⟨rfl, -, hlast⟩ := h.cursor hex hseed
  obtain ⟨hwell, hid, hauthentic, rfl⟩ := appendUnderLock_wellFormed hex htyped happend
  exact ⟨hwell, hauthentic, hid, hlast⟩

theorem step_chainInv (hex : ∀ message, isBlank (H.hmacSha256 key message) = false)
    {a : ChainAction} (h : ChainInv H key s) (hfits : Fits H key s a)
    (hstep : (auditChain H key).step s a = some t) : ChainInv H key t := by
  obtain ⟨⟨htyped, hdate, hday⟩, rfl⟩ := Option.ite_some_none_eq_some.mp hstep
  obtain ⟨hbounded, hreadable⟩ := hfits
  cases hentry : recordEntry H key s.unterminated s.dir a.call with
  | error _ => exact h.keep (h.dir.tick hday) rfl rfl
  | ok e =>
      obtain ⟨hwell, hauthentic, hid, hlast⟩ := recordEntry_ok hex h htyped hentry
      obtain ⟨hline, hparse⟩ := recordLine_readable (hreadable e hentry) hwell
      have hentryOf : entryOf (recordLine e) = some e.persisted := by
        rw [hline, entryOf, hparse]
        rfl
      have hkept : entryOf (recordLine e) = none →
          recordLine e = .malformed ∨ recordLine e = .oversized := by
        rw [hentryOf]
        nofun
      obtain ⟨hdir, hentries⟩ := h.dir.append hdate hday hkept
      rw [hentryOf] at hentries
      obtain ⟨hopened, hsame⟩ := h.dir.openFile hdate hday
      cases a with
      | record call => exact h.extend hdir hentries hlast rfl hauthentic hid hbounded (.inr rfl)
      | interrupt call torn =>
          cases torn with
          | opened => exact h.keep hopened hsame rfl
          | separated => exact h.keep hopened hsame rfl
          | fragment oversized =>
              have hfragment : entryOf (if oversized then .oversized else .malformed) = none := by
                cases oversized <;> rfl
              have hallowed : (if oversized then Line.oversized else .malformed) = .malformed ∨
                  (if oversized then Line.oversized else .malformed) = .oversized := by
                cases oversized <;> simp
              obtain ⟨hdir', hentries'⟩ := h.dir.append hdate hday fun _ => hallowed
              rw [hfragment, Option.toList_none, List.append_nil] at hentries'
              exact h.keep hdir' hentries' rfl
          | unterminated =>
              exact h.extend hdir hentries hlast rfl hauthentic hid hbounded (.inl rfl)

theorem chainInv_of_reach (hex : ∀ message, isBlank (H.hmacSha256 key message) = false)
    (hs : (auditChain H key).Reach (Fits H key) s) : ChainInv H key s := by
  refine hs.invariant (fun s ⟨hdir, _, hreturned⟩ => ?_)
    fun s a t h hfits hstep => step_chainInv hex h hfits hstep
  have hnil : entries s.dir = [] := by rw [hdir]; rfl
  refine ⟨⟨?_, ?_, ?_⟩, ?_, ?_, ?_, ?_, ?_⟩
  · rw [hdir]
    exact List.Pairwise.nil
  · rw [hdir]
    exact fun _ hfile => absurd hfile List.not_mem_nil
  · rw [hdir]
    exact fun _ hfile => absurd hfile List.not_mem_nil
  · rw [hnil]
    trivial
  · rw [hnil]
    exact fun _ he => absurd he List.not_mem_nil
  · rw [hnil]
    intro i e he
    cases he
  · rw [hnil]
    exact Nat.zero_le _
  · rw [hnil, hreturned]
    exact List.Sublist.refl _

end Chain

section Verify

/-- A finding on a day without a file between two days that have one. -/
def IsGap (files : List DayFile) (finding : String) : Prop :=
  ∃ file next, [file, next] <:+: files ∧
    finding ∈ dateGap (extractAuditDate file.name) (extractAuditDate next.name)

/-- A finding on a line that an append left when it was cut short. -/
def IsTorn (files : List DayFile) (finding : String) : Prop :=
  ∃ file ∈ files, ∃ n line, file.lines[n]? = some line ∧ (line = .malformed ∨ line = .oversized) ∧
    finding = file.name ++ ":line:" ++ toString (n + 1) ++ ":invalid_record"

/-- A scan from the start of the chain that is through with some files. -/
structure Scanned (files : List DayFile) (t : Scan) : Prop where
  previousFileDate : t.previousFileDate = files.getLast?.bind (extractAuditDate ·.name)
  prevHash : (genesisHash :: (entries files).map AuditEntry.currentHash).getLast? = some t.prevHash
  valid : t.total = (entries files).length + t.invalidEntryCount
  findings : ∀ finding ∈ t.corrupted, IsGap files finding ∨ IsTorn files finding

variable {H : Digests} {key : String} {s t : Scan} {files older : List DayFile} {file : DayFile}
  {finding : String}

theorem IsGap.append (h : IsGap files finding) (newer : List DayFile) :
    IsGap (files ++ newer) finding := by
  obtain ⟨file, next, hinfix, hgap⟩ := h
  exact ⟨file, next, hinfix.trans (List.prefix_append files newer).isInfix, hgap⟩

theorem IsTorn.append (h : IsTorn files finding) (newer : List DayFile) :
    IsTorn (files ++ newer) finding := by
  obtain ⟨file, hfile, hline⟩ := h
  exact ⟨file, List.mem_append_left newer hfile, hline⟩

theorem checkEntry_linked {e : AuditEntry} (hprev : e.previousHash = s.prevHash)
    (h : Authentic H key e) : checkEntry H (some key) false s e =
      { s with prevHash := e.currentHash, tracker := (s.tracker.observe .hmacSha256).2 } := by
  have hcheck := verifyAuditEntryHash_authentic h
  rw [hprev] at hcheck
  simp [checkEntry, h.1, AlgTracker.observe, hcheck, entryFinding]

/-- A stretch of the chain moves the hash only. -/
theorem foldl_checkEntry_linked {es : List AuditEntry}
    (hlinked : Linked AuditEntry.previousHash AuditEntry.currentHash s.prevHash es)
    (hauthentic : ∀ e ∈ es, Authentic H key e) :
    ∃ hash tracker, es.foldl (checkEntry H (some key) false) s =
        { s with prevHash := hash, tracker := tracker } ∧
      (s.prevHash :: es.map AuditEntry.currentHash).getLast? = some hash := by
  induction es generalizing s with
  | nil => exact ⟨s.prevHash, s.tracker, rfl, rfl⟩
  | cons e es ih =>
      rw [List.foldl_cons, checkEntry_linked hlinked.1 (hauthentic e List.mem_cons_self)]
      obtain ⟨hash, tracker, hfold, hlast⟩ := ih
        (s := { s with
          prevHash := e.currentHash
          tracker := (s.tracker.observe .hmacSha256).2 })
        hlinked.2 fun f hf => hauthentic f (List.mem_cons_of_mem e hf)
      refine ⟨hash, tracker, hfold, ?_⟩
      rwa [List.map_cons, List.getLast?_cons_cons]

/-- One more file of a well-kept directory. -/
theorem Scanned.checkFile (h : Scanned older s) (hreadable : file.readable = true)
    (hdated : (extractAuditDate file.name).isSome = true)
    (hlines : ∀ line ∈ file.lines, entryOf line = none → line = .malformed ∨ line = .oversized)
    (hlinked : Linked AuditEntry.previousHash AuditEntry.currentHash s.prevHash (entries [file]))
    (hauthentic : ∀ e ∈ entries [file], Authentic H key e) :
    Scanned (older ++ [file]) (checkFile H (some key) false s file) := by
  have hread := readAuditFileForVerify_readable hreadable
  rw [entries_singleton] at hlinked hauthentic
  obtain ⟨hash, tracker, hfold, hlast⟩ :=
    foldl_checkEntry_linked (s := s.openFile file) hlinked hauthentic
  have hscan : Audit.checkFile H (some key) false s file =
      { s.openFile file with prevHash := hash, tracker := tracker } := by
    rw [Audit.checkFile, hread]
    exact hfold
  obtain ⟨date, hdate⟩ := Option.isSome_iff_exists.mp hdated
  rw [hscan]
  refine ⟨?_, ?_, ?_, ?_⟩
  · simp [Scan.openFile, hdate]
  · rw [entries_append, List.map_append, ← List.cons_append, entries_singleton]
    cases hfs : (file.lines.filterMap entryOf).map AuditEntry.currentHash with
    | nil =>
        rw [hfs] at hlast
        rw [List.append_nil, h.prevHash]
        exact hlast
    | cons f fs =>
        rw [hfs, List.getLast?_cons_cons] at hlast
        rw [List.getLast?_append_of_ne_nil _ (List.cons_ne_nil f fs)]
        exact hlast
  · rw [entries_append, List.length_append, entries_singleton]
    simp only [Scan.openFile, hread, h.valid]
    omega
  · intro finding hfinding
    simp only [Scan.openFile, hread, readFindings, Bool.false_eq_true, if_false, List.nil_append]
      at hfinding
    rcases List.mem_append.mp hfinding with hfinding | htorn
    · rcases List.mem_append.mp hfinding with hold | hgap
      · exact (h.findings finding hold).imp (·.append _) (·.append _)
      · refine .inl ?_
        rw [h.previousFileDate] at hgap
        cases hlastFile : older.getLast? with
        | none =>
            rw [hlastFile] at hgap
            cases hgap
        | some before =>
            rw [hlastFile] at hgap
            obtain ⟨older', rfl⟩ := List.getLast?_eq_some_iff.mp hlastFile
            exact ⟨before, file, ⟨older', [], by simp⟩, hgap⟩
    · obtain ⟨m, hm, rfl⟩ := List.mem_map.mp htorn
      obtain ⟨hpos, line, hline, hnone, -⟩ := mem_invalidLines hm
      refine .inr ⟨file, by simp, m - 1, line, hline,
        hlines line (List.mem_of_getElem? hline) hnone, ?_⟩
      rw [Nat.sub_add_cancel hpos]

theorem scanned_files {day : List Char} (hdir : DirInv day files)
    (hlinked : Linked AuditEntry.previousHash AuditEntry.currentHash genesisHash (entries files))
    (hauthentic : ∀ e ∈ entries files, Authentic H key e) (tracker : AlgTracker) :
    Scanned files (files.foldl (Audit.checkFile H (some key) false)
      ⟨genesisHash, none, 0, 0, [], tracker⟩) := by
  induction files using List.reverseRecOn with
  | nil => exact ⟨rfl, rfl, rfl, fun _ h => absurd h List.not_mem_nil⟩
  | append_singleton older file ih =>
      rw [entries_append] at hlinked hauthentic
      have hbefore := ih (hdir.sublist (List.sublist_append_left _ _)) hlinked.left fun e he =>
        hauthentic e (List.mem_append_left _ he)
      obtain ⟨hreadable, date, hdate, -, hname⟩ := hdir.dated file (by simp)
      rw [List.foldl_append, List.foldl_cons, List.foldl_nil]
      refine hbefore.checkFile hreadable ?_ (hdir.lines file (by simp))
        (hlinked.right hbefore.prevHash) fun e he => hauthentic e (List.mem_append_right _ he)
      rw [hname, extractAuditDate_auditFileName hdate]
      rfl

end Verify

section Result

variable {H : Digests} {key : String} {s : ChainState}

/-- Numbered entries have ids of their own. -/
theorem ChainInv.ids_nodup (h : ChainInv H key s) :
    ((entries s.dir).map AuditEntry.id).Nodup := by
  rw [List.nodup_iff_getElem?_ne_getElem?]
  intro i j hij hj
  rw [List.length_map] at hj
  have hi : i < (entries s.dir).length := Nat.lt_trans hij hj
  rw [List.getElem?_map, List.getElem?_map, List.getElem?_eq_getElem hi,
    List.getElem?_eq_getElem hj]
  intro heq
  obtain ⟨call, hcall⟩ := h.numbered i _ (List.getElem?_eq_getElem hi)
  obtain ⟨call', hcall'⟩ := h.numbered j _ (List.getElem?_eq_getElem hj)
  have hcount := congrArg auditIdCounter (Option.some.inj heq)
  have hbound := h.bounded
  rw [hcall, hcall', auditIdCounter_draft call (by omega),
    auditIdCounter_draft call' (by omega)] at hcount
  have := Option.some.inj hcount
  omega

/-- After any calls and interrupted appends whose entries can be read back: verification reports
every entry valid, and finds only days without a file and lines left by interrupted appends;
loading gives every entry that a call returned, as its line reads back, in order and under an id of
its own; and a call is refused only over a last file without any entry, or for what it carries
itself. -/
theorem append_round_trip (hex : ∀ message, isBlank (H.hmacSha256 key message) = false)
    (hs : (auditChain H key).Reach (Fits H key) s) :
    (verify H (some key) {} s.dir).valid = (loadAll s.dir).length ∧
      (∀ finding ∈ (verify H (some key) {} s.dir).corrupted,
        IsGap s.dir finding ∨ IsTorn s.dir finding) ∧
      (s.returned.map AuditEntry.persisted).Sublist (loadAll s.dir) ∧
      ((loadAll s.dir).map AuditEntry.id).Nodup ∧
      ∀ call message, call.typed = true →
        recordEntry H key s.unterminated s.dir call = .error message →
          (∃ older file newer, s.dir = older ++ file :: newer ∧ file.lines ≠ [] ∧
            loadAll (file :: newer) = []) ∨
          (recordEntry H key s.unterminated [] call).isOk = false := by
  have h := chainInv_of_reach hex hs
  have hwindow : s.dir.filter (inWindow none) = s.dir :=
    List.filter_eq_self.mpr fun _ _ => rfl
  have hscan := scanned_files h.dir h.linked h.authentic ⟨false, false, 0⟩
  have hverify : (verify H (some key) {} s.dir).valid = (entries s.dir).length ∧
      ∀ finding ∈ (verify H (some key) {} s.dir).corrupted,
        IsGap s.dir finding ∨ IsTorn s.dir finding := by
    simp only [verify, h.dir.listAuditFiles, hwindow]
    exact ⟨by rw [hscan.valid, Nat.add_sub_cancel_right], hscan.findings⟩
  rw [h.dir.loadAll]
  refine ⟨hverify.1, hverify.2, h.returned, h.ids_nodup, fun call message htyped herror => ?_⟩
  unfold recordEntry at herror
  cases hseed : seedFromDisk s.unterminated s.dir with
  | error fault =>
      rw [seedFromDisk, h.dir.listAuditFiles] at hseed
      obtain ⟨fault', hfault⟩ := mapError_error hseed
      obtain ⟨older, file, newer, hdir, hlines, hnone⟩ :=
        seedFromFiles_error (fun file hfile => (h.dir.dated file hfile).1) hfault
      have hsuffix : DirInv s.day (file :: newer) :=
        h.dir.sublist (hdir ▸ List.sublist_append_right older _)
      exact .inl ⟨older, file, newer, hdir, hlines, hsuffix.loadAll.trans hnone⟩
  | ok cursor =>
      obtain ⟨hash, n⟩ := cursor
      obtain ⟨-, hblank, -⟩ := h.cursor hex hseed
      rw [hseed] at herror
      exact .inr (appendUnderLock_refused hblank htyped herror)

end Result

def agentCall (timestamp : String) : RecordCall where
  time := "MJT0"
  timestamp
  entry := chainDraft.entry
  tenantSlug := none
  scope := none

def dayEntry (id timestamp previousHash : String) : AuditEntry :=
  { chainEntry .null with id := id, timestamp := timestamp, previousHash := previousHash }

def firstEntry : AuditEntry :=
  dayEntry "AUD-MJT0-1" "2026-01-01T00:00:01.000Z" genesisHash

def laterEntry : AuditEntry :=
  dayEntry "AUD-MJT0-2" "2026-01-03T00:00:00.000Z" firstEntry.currentHash

def tornDay : DayFile :=
  ⟨"audit-2026-01-01.jsonl", true, [.malformed, .value firstEntry.toJson]⟩

def laterDay : DayFile :=
  ⟨"audit-2026-01-03.jsonl", true, [.value laterEntry.toJson]⟩

theorem recordLine_value {e : AuditEntry} (hread : Readable e) (hprinted : e.persisted = e) :
    recordLine e = .value e.toJson := by
  rw [recordLine, if_neg (Nat.not_lt.mpr hread.2), printed_toJson, hprinted]

theorem reach_append {H : Digests} {key : String} {s t : ChainState} (a : ChainAction)
    {e : AuditEntry} (hs : (auditChain H key).Reach (Fits H key) s)
    (hclock : a.call.typed ∧ isDate a.call.date ∧ s.day ≤ a.call.date)
    (hcount : (entries s.dir).length < maxSafeInteger)
    (he : recordEntry H key s.unterminated s.dir a.call = .ok e) (hread : Readable e)
    (ht : ({ s with day := a.call.date } : ChainState).append a.call e a.torn = t) :
    (auditChain H key).Reach (Fits H key) t := by
  refine .next hs (a := a) ⟨hcount, fun e' he' => ?_⟩ ?_
  · exact Except.ok.inj (he.symm.trans he') ▸ hread
  · simp only [auditChain, if_pos hclock, he, ht]

/-- An append that is cut short on the first day, a record behind it, and one on the third day. -/
theorem reach_tornDays : ∃ s, (auditChain chainDigests chainKey).Reach
    (Fits chainDigests chainKey) s ∧ s.dir = [tornDay, laterDay] ∧
      s.returned = [firstEntry, laterEntry] := by
  have hfirst : Readable firstEntry := by decide +kernel
  have hlater : Readable laterEntry := by decide +kernel
  have hstart : (auditChain chainDigests chainKey).Reach (Fits chainDigests chainKey)
      ⟨[], fun _ => false, [], []⟩ :=
    .start ⟨rfl, fun _ => rfl, rfl⟩
  have htorn := reach_append (e := firstEntry)
    (.interrupt (agentCall "2026-01-01T00:00:01.000Z") (.fragment false)) hstart (by decide)
    (by decide) rfl hfirst rfl
  have hrecord := reach_append (e := firstEntry) (t := ⟨[tornDay], _, _, [firstEntry]⟩)
    (.record (agentCall "2026-01-01T00:00:01.000Z")) htorn (by decide) (by decide) rfl hfirst
    (by rw [ChainAction.torn, ChainState.append, recordLine_value hfirst rfl]; rfl)
  have hthird := reach_append (e := laterEntry)
    (t := ⟨[tornDay, laterDay], _, _, [firstEntry, laterEntry]⟩)
    (.record (agentCall "2026-01-03T00:00:00.000Z")) hrecord (by decide) (by decide +kernel) rfl
    hlater (by rw [ChainAction.torn, ChainState.append, recordLine_value hlater rfl]; rfl)
  exact ⟨_, hthird, rfl, rfl⟩

/-- The torn line and the missing day are reported. -/
theorem append_leaves_findings : ¬ ∀ s,
    (auditChain chainDigests chainKey).Reach (Fits chainDigests chainKey) s →
      (verify chainDigests (some chainKey) {} s.dir).corrupted = [] := by
  intro h
  obtain ⟨s, hs, hdir, -⟩ := reach_tornDays
  have hfound : (verify chainDigests (some chainKey) {} [tornDay, laterDay]).corrupted =
      ["audit-2026-01-01.jsonl:line:1:invalid_record", "audit-gap:2026-01-01->2026-01-03"] := by
    decide +kernel
  cases (hdir ▸ h s hs).symm.trans hfound

theorem append_round_trip_torn : ∃ s : ChainState, s.returned.length = 2 ∧
    (s.returned.map AuditEntry.persisted).Sublist (loadAll s.dir) := by
  obtain ⟨s, hs, -, hreturned⟩ := reach_tornDays
  have hround := append_round_trip (fun _ => chainEntry_texts _ (by simp [chainDigests])) hs
  exact ⟨s, by rw [hreturned]; rfl, hround.2.2.1⟩

end Kyberion.Audit
