import Mathlib.Data.List.Basic
import Mathlib.Data.List.Induction

/-!
Journals that are read backwards from their end, and rewritten down to the last record of each key.
The last record of a key is found as long as a rewrite keeps it and the scan does not stop before it.
-/

namespace Kyberion.Retention

variable {α ρ κ : Type} {key : ρ → κ} {r e : ρ} {records : List ρ}

/-- The record is the last one of its key. -/
def IsLast (key : ρ → κ) (r : ρ) (records : List ρ) : Prop :=
  ∃ front back, records = front ++ r :: back ∧ ∀ e ∈ back, key e ≠ key r

namespace IsLast

theorem append_self : IsLast key r (records ++ [r]) :=
  ⟨records, [], rfl, by simp⟩

theorem append_one (h : IsLast key r records) (hne : key e ≠ key r) :
    IsLast key r (records ++ [e]) := by
  obtain ⟨front, back, rfl, hback⟩ := h
  refine ⟨front, back ++ [e], by simp, fun x hx => ?_⟩
  rcases List.mem_append.mp hx with hx | hx
  · exact hback x hx
  · obtain rfl := List.mem_singleton.mp hx
    exact hne

theorem mem (h : IsLast key r records) : r ∈ records := by
  obtain ⟨front, back, rfl, -⟩ := h
  simp

variable [DecidableEq κ]

/-- A backward scan that does not stop on the way comes to the last record of the key. -/
theorem find_scan {R : ρ → ρ → Prop} {stops : ρ → Bool} (h : IsLast key r records)
    (hpair : records.Pairwise R) (hself : stops r = false) (hlater : ∀ e, R r e → stops e = false) :
    (records.reverse.takeWhile fun e => !stops e).find? (fun e => key e = key r) = some r := by
  obtain ⟨front, back, rfl, hback⟩ := h
  have hpairBack := (List.pairwise_cons.mp (List.pairwise_append.mp hpair).2.1).1
  rw [List.reverse_append, List.reverse_cons, List.append_assoc,
    List.takeWhile_append_of_pos fun e he => by
      simpa using hlater e (hpairBack e (List.mem_reverse.mp he)),
    List.find?_append, List.find?_eq_none.mpr fun e he => by
      simpa using hback e (List.mem_reverse.mp he)]
  simp [hself]

theorem find (h : IsLast key r records) :
    records.reverse.find? (fun e => key e = key r) = some r := by
  obtain ⟨front, back, rfl, hback⟩ := h
  rw [List.reverse_append, List.reverse_cons, List.append_assoc, List.find?_append,
    List.find?_eq_none.mpr fun e he => by simpa using hback e (List.mem_reverse.mp he)]
  simp

theorem eq {r' : ρ} (h : IsLast key r records) (h' : IsLast key r' records)
    (hkey : key r = key r') : r = r' := by
  have hfind := h.find
  rw [hkey, h'.find] at hfind
  exact (Option.some.inj hfind).symm

end IsLast

/-- A line of the journal whose record is the last of its key. -/
structure WindowEntry (ρ : Type) where
  record : ρ
  lineNumber : ℕ
  bytes : ℕ
  deriving DecidableEq

section Rewrite

variable [DecidableEq κ] (key) (read : α → Option ρ) (size : α → ℕ) (kept : ρ → Bool)

def collectLine (latest : List (WindowEntry ρ)) (line : α × ℕ) : List (WindowEntry ρ) :=
  match read line.1 with
  | none => latest
  | some record =>
      let others := latest.filter fun entry => key entry.record ≠ key record
      if kept record then others ++ [⟨record, line.2, size line.1⟩] else others

/-- The last line of each key, where its record is kept. -/
def collectWindow (lines : List α) : List (WindowEntry ρ) :=
  (lines.zipIdx 1).foldl (collectLine key read size kept) []

/-- The lines with the numbers to keep. -/
def keepLines (keep : ℕ → Bool) (lines : List α) : List α :=
  ((lines.zipIdx 1).filter fun line => keep line.2).map Prod.fst

end Rewrite

section Rewritten

variable [DecidableEq κ] {read : α → Option ρ} {size : α → ℕ} {kept : ρ → Bool} {keep : ℕ → Bool}
variable {lines front back : List α} {line : α}

theorem collectWindow_append_one :
    collectWindow key read size kept (lines ++ [line]) =
      collectLine key read size kept (collectWindow key read size kept lines)
        (line, lines.length + 1) := by
  rw [collectWindow, List.zipIdx_append, List.foldl_append, collectWindow, Nat.add_comm]
  rfl

/-- The line of the last record of a key is collected, if the record is kept. -/
theorem mem_collectWindow (hread : read line = some r) (hkept : kept r = true)
    (hback : ∀ e ∈ back.filterMap read, key e ≠ key r) :
    ⟨r, front.length + 1, size line⟩ ∈
      collectWindow key read size kept (front ++ line :: back) := by
  induction back using List.reverseRecOn with
  | nil =>
      rw [collectWindow_append_one, collectLine, hread]
      simp [hkept]
  | append_singleton back last ih =>
      rw [List.filterMap_append] at hback
      have hrest := ih fun e he => hback e (List.mem_append_left _ he)
      rw [← List.cons_append, ← List.append_assoc, collectWindow_append_one, collectLine]
      cases hlast : read last with
      | none => exact hrest
      | some e =>
          have hne : key r ≠ key e := fun heq =>
            hback e (List.mem_append_right _ (by simp [hlast])) heq.symm
          have hothers : _ ∈ (collectWindow key read size kept (front ++ line :: back)).filter
              fun entry => key entry.record ≠ key e :=
            List.mem_filter.mpr ⟨hrest, by simpa using hne⟩
          dsimp only
          split
          · exact List.mem_append_left _ hothers
          · exact hothers

theorem keepLines_sublist : (keepLines keep lines).Sublist lines := by
  have h := (List.filter_sublist (p := fun line : α × ℕ => keep line.2)
    (l := lines.zipIdx 1)).map Prod.fst
  rwa [List.zipIdx_map_fst] at h

theorem keepLines_split (hkeep : keep (front.length + 1) = true) :
    ∃ front' back', keepLines keep (front ++ line :: back) = front' ++ line :: back' ∧
      back'.Sublist back := by
  refine ⟨keepLines keep front,
    ((back.zipIdx (1 + front.length + 1)).filter fun l => keep l.2).map Prod.fst, ?_, ?_⟩
  · rw [keepLines, List.zipIdx_append, List.filter_append, List.map_append, List.zipIdx_cons,
      List.filter_cons_of_pos (by rwa [Nat.add_comm])]
    rfl
  · have h := (List.filter_sublist (p := fun line : α × ℕ => keep line.2)
      (l := back.zipIdx (1 + front.length + 1))).map Prod.fst
    rwa [List.zipIdx_map_fst] at h

/-- The last record of a key stays so in a rewrite that keeps its line. -/
theorem IsLast.keepLines (h : IsLast key r (lines.filterMap read)) (hkept : kept r = true)
    (hkeep : ∀ entry ∈ collectWindow key read size kept lines, entry.record = r →
      keep entry.lineNumber = true) :
    IsLast key r ((Retention.keepLines keep lines).filterMap read) := by
  obtain ⟨front, back, hsplit, hback⟩ := h
  obtain ⟨frontLines, rest, rfl, -, hrest⟩ := List.filterMap_eq_append_iff.mp hsplit
  obtain ⟨skipped, line, backLines, rfl, hskipped, hread, rfl⟩ :=
    List.filterMap_eq_cons_iff.mp hrest
  rw [← List.append_assoc] at hkeep ⊢
  have hmem : ⟨r, (frontLines ++ skipped).length + 1, size line⟩ ∈
      collectWindow key read size kept (frontLines ++ skipped ++ line :: backLines) :=
    mem_collectWindow hread hkept hback
  obtain ⟨front', back', hlines, hsub⟩ : ∃ front' back',
      Retention.keepLines keep (frontLines ++ skipped ++ line :: backLines) =
        front' ++ line :: back' ∧ back'.Sublist backLines :=
    keepLines_split (hkeep _ hmem rfl)
  rw [hlines, List.filterMap_append, List.filterMap_cons_some hread]
  exact ⟨_, _, rfl, fun e he => hback e ((hsub.filterMap read).subset he)⟩

end Rewritten

end Kyberion.Retention
