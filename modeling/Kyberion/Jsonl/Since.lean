import Kyberion.Jsonl.Mirror
import Mathlib.Algebra.Order.Floor.Semiring
import Mathlib.Data.List.DropRight
import Mathlib.Data.Rat.Floor

/-!
The records of a file, read forwards, or backwards down to a bound of time. The
windowed read stops after a run of older records, so that it costs as much as
the window. An option of the readers that is absent has its default.
-/

namespace Kyberion.Jsonl

open Js (trim)

variable {J T E τ : Type}

/-- `onMalformed`; a callback may throw. -/
inductive JsonlMalformedPolicy (E : Type)
  | throw_
  | skip
  | call (f : E → ℕ → String → Except E Unit)

/-- How a reader makes records of lines; `lineTooLong` is the error of an oversized line. -/
structure JsonlReadOptions (J T E : Type) where
  parse : String → ℕ → Except E J
  map : J → ℕ → String → Except E T
  lineTooLong : E
  onMalformed : JsonlMalformedPolicy E

def handleMalformed (policy : JsonlMalformedPolicy E) (error : E) (lineNumber : ℕ)
    (rawLine : String) : Except E Unit :=
  match policy with
  | .call f => f error lineNumber rawLine
  | .skip => .ok ()
  | .throw_ => .error error

variable (options : JsonlReadOptions J T E)

/-- A line whose record cannot be had is none. -/
def parseRecord (line : JsonlRawLine) (tolerateTornTail : Bool) : Except E (Option T) :=
  match options.parse line.text line.lineNumber with
  | .error e =>
      if tolerateTornTail && !line.terminated then .ok none
      else do
        handleMalformed options.onMalformed e line.lineNumber line.text
        .ok none
  | .ok value =>
      match options.map value line.lineNumber line.text with
      | .ok record => .ok (some record)
      | .error e => do
          handleMalformed options.onMalformed e line.lineNumber line.text
          .ok none

/-- One event of a scan, as both readers treat it. -/
def readEvent (tolerateTornTail : Bool) : ScanEvent → Except E (Option T)
  | .oversized line => do
      handleMalformed options.onMalformed options.lineTooLong line.lineNumber line.linePrefix
      .ok none
  | .line line =>
      if trim line.text = "" then .ok none else parseRecord options line tolerateTornTail

def readEvents (tolerateTornTail : Bool) : List ScanEvent → Except E (List T)
  | [] => .ok []
  | event :: events => do
      let record ← readEvent options tolerateTornTail event
      let records ← readEvents tolerateTornTail events
      .ok (record.toList ++ records)

variable (decode : Bytes → String) (scan : ResolvedScan)

/-- The records of a forward scan. -/
def streamJsonLines (bytes : Bytes) : Except E (List T) :=
  readEvents options false (forwardLines decode scan bytes none)

structure ReadJsonLinesSinceOptions (J T E τ : Type) extends JsonlReadOptions J T E where
  timeOf : T → Option τ
  sinceMs : τ
  stopAfterOlder : Option (WithTop ℚ) := none
  maxRecords : Option ℚ := none

def DEFAULT_SINCE_STOP_AFTER_OLDER : WithTop ℚ := 64

section Since

variable [LT τ] [DecidableLT τ] (window : ReadJsonLinesSinceOptions J T E τ)

namespace ReadJsonLinesSinceOptions

/-- `t !== undefined && t < options.sinceMs` -/
def isOlder (record : T) : Bool :=
  match window.timeOf record with
  | some t => t < window.sinceMs
  | none => false

def stopAfter : WithTop ℚ :=
  max 1 (window.stopAfterOlder.getD DEFAULT_SINCE_STOP_AFTER_OLDER)

/-- `out.length >= options.maxRecords` -/
def isFull (count : ℕ) : Bool :=
  window.maxRecords.any fun n => n ≤ (count : ℚ)

/-- `options.maxRecords <= 0` -/
def admitsNone : Bool :=
  window.maxRecords.any fun n => n ≤ 0

end ReadJsonLinesSinceOptions

/-- The loop over the records of a backward scan. -/
def sinceLoop (olderRun : ℕ) (out : List T) : List ScanEvent → Except E (List T)
  | [] => .ok out
  | event :: events => do
      match ← readEvent window.toJsonlReadOptions true event with
      | none => sinceLoop olderRun out events
      | some record =>
          if window.isOlder record then
            if window.stopAfter ≤ (olderRun + 1 : ℕ) then .ok out
            else sinceLoop (olderRun + 1) out events
          else if window.isFull (out.length + 1) then .ok (out ++ [record])
          else
            sinceLoop (if (window.timeOf record).isSome then 0 else olderRun) (out ++ [record])
              events

def readJsonLinesSince (bytes : Bytes) : Except E (List T) :=
  if window.admitsNone then .ok []
  else do
    let out ← sinceLoop window 0 [] (backwardLines decode scan bytes)
    .ok out.reverse

end Since

section Reads

variable {options} {event event' : ScanEvent}

/-- The reader looks at the text of a line only, and a malformed line stops it always or never. -/
structure JsonlReadOptions.ByText (options : JsonlReadOptions J T E) : Prop where
  parse : ∀ text n m value, options.parse text n = .ok value → options.parse text m = .ok value
  map : ∀ value text n m record, options.map value n text = .ok record →
    options.map value m text = .ok record
  policy : options.onMalformed = .throw_ ∨
    ∀ e n text, handleMalformed options.onMalformed e n text = .ok ()

theorem handleMalformed_bind {policy : JsonlMalformedPolicy E} {e : E} {n : ℕ} {text : String}
    {record : Option T} (h : (handleMalformed policy e n text >>= fun _ => .ok none) = .ok record) :
    record = none ∧ policy ≠ .throw_ := by
  obtain ⟨_, hhandled, hnone⟩ := Js.except_bind_ok h
  refine ⟨(Except.ok.inj hnone).symm, ?_⟩
  rintro rfl
  cases hhandled

/-- What the forward reader makes of a line, the backward reader makes of it. -/
theorem readEvent_mirror (htext : options.ByText) (hcontent : event'.content = event.content)
    {record : Option T} (h : readEvent options false event = .ok record) :
    readEvent options true event' = .ok record := by
  have hquiet (hpolicy : options.onMalformed ≠ .throw_) (e : E) (n : ℕ) (text : String) :
      (handleMalformed options.onMalformed e n text >>= fun _ =>
        (.ok none : Except E (Option T))) = .ok none := by
    rw [htext.policy.resolve_left hpolicy, Js.except_ok_bind]
  cases event with
  | oversized line =>
      cases event' with
      | line line' => cases hcontent
      | oversized line' =>
          obtain ⟨rfl, hpolicy⟩ := handleMalformed_bind h
          exact hquiet hpolicy _ _ _
  | line line =>
      cases event' with
      | oversized line' => cases hcontent
      | line line' =>
          obtain ⟨hsame, -⟩ := LineContent.text.inj hcontent
          simp only [readEvent, hsame] at h ⊢
          split
          · rwa [if_pos ‹_›] at h
          · rw [if_neg ‹_›] at h
            unfold parseRecord at h ⊢
            rw [hsame]
            cases hparse : options.parse line.text line.lineNumber with
            | error e =>
                simp only [hparse, Bool.false_and, Bool.false_eq_true, if_false] at h
                obtain ⟨rfl, hpolicy⟩ := handleMalformed_bind h
                cases hparse' : options.parse line.text line'.lineNumber with
                | ok value => cases hparse.symm.trans (htext.parse _ _ _ _ hparse')
                | error e' =>
                    dsimp only
                    split
                    · rfl
                    · exact hquiet hpolicy _ _ _
            | ok value =>
                simp only [hparse] at h
                rw [htext.parse _ _ line'.lineNumber _ hparse]
                dsimp only
                cases hmap : options.map value line.lineNumber line.text with
                | error e =>
                    simp only [hmap] at h
                    obtain ⟨rfl, hpolicy⟩ := handleMalformed_bind h
                    cases hmap' : options.map value line'.lineNumber line.text with
                    | ok mapped => cases hmap.symm.trans (htext.map _ _ _ _ _ hmap')
                    | error e' => exact hquiet hpolicy _ _ _
                | ok mapped =>
                    simp only [hmap] at h
                    rw [htext.map _ _ _ line'.lineNumber _ hmap]
                    exact h

theorem readEvents_append {tolerate : Bool} {events events' : List ScanEvent}
    {records records' : List T} (h : readEvents options tolerate events = .ok records)
    (h' : readEvents options tolerate events' = .ok records') :
    readEvents options tolerate (events ++ events') = .ok (records ++ records') := by
  induction events generalizing records with
  | nil =>
      obtain rfl := Except.ok.inj h
      exact h'
  | cons event events ih =>
      obtain ⟨record, hrecord, hrest⟩ := Js.except_bind_ok h
      obtain ⟨rest, hreads, hsplit⟩ := Js.except_bind_ok hrest
      obtain rfl := Except.ok.inj hsplit
      rw [List.cons_append, readEvents, hrecord, Js.except_ok_bind, ih hreads, Js.except_ok_bind,
        List.append_assoc]

/-- The backward reader yields the records of the forward reader, newest first. -/
theorem readEvents_mirror (htext : options.ByText) {events events' : List ScanEvent}
    (hcontent : events'.map ScanEvent.content = (events.map ScanEvent.content).reverse)
    {records : List T} (h : readEvents options false events = .ok records) :
    readEvents options true events' = .ok records.reverse := by
  induction events generalizing events' records with
  | nil =>
      obtain rfl := Except.ok.inj h
      obtain rfl := List.map_eq_nil_iff.mp hcontent
      rfl
  | cons event events ih =>
      obtain ⟨record, hrecord, hrest⟩ := Js.except_bind_ok h
      obtain ⟨rest, hreads, hsplit⟩ := Js.except_bind_ok hrest
      obtain rfl := Except.ok.inj hsplit
      rw [List.map_cons, List.reverse_cons] at hcontent
      obtain ⟨newer, last, rfl, hnewer, hlast⟩ := List.map_eq_append_iff.mp hcontent
      obtain ⟨event', rfl, hsame⟩ := List.map_eq_singleton_iff.mp hlast
      have hone : readEvents options true [event'] = .ok record.toList := by
        rw [readEvents, readEvent_mirror htext hsame hrecord, Js.except_ok_bind, readEvents,
          Js.except_ok_bind, List.append_nil]
      have hall := readEvents_append (ih hnewer hreads) hone
      have hrev : record.toList.reverse = record.toList := by
        cases record <;> rfl
      rw [List.reverse_append, hrev]
      exact hall

end Reads

section Window

variable [LT τ] [DecidableLT τ] {window : ReadJsonLinesSinceOptions J T E τ}

/-- The records that tell their time. -/
def timed (window : ReadJsonLinesSinceOptions J T E τ) (records : List T) : List T :=
  records.filter fun record => (window.timeOf record).isSome

/-- In some stretch of the records, all that tell their time are older, and there are as many as
stop the read. -/
def HasOlderRun (window : ReadJsonLinesSinceOptions J T E τ) (records : List T) : Prop :=
  ∃ run, run <:+: timed window records ∧
    (∀ record ∈ run, window.isOlder record = true) ∧ window.stopAfter ≤ run.length

/-- No such run comes after a record that is not known to be older. -/
def NoRunAfterKept (window : ReadJsonLinesSinceOptions J T E τ) (records : List T) : Prop :=
  ∀ front record back, records = front ++ record :: back → window.isOlder record = false →
    ¬ HasOlderRun window back

/-- Fewer older records than stop the read make no run. -/
theorem not_hasOlderRun {records : List T}
    (h : ((records.filter window.isOlder).length : WithTop ℚ) < window.stopAfter) :
    ¬ HasOlderRun window records := by
  rintro ⟨run, hinfix, holder, hlong⟩
  have hpart : run.Sublist records := (List.IsInfix.sublist hinfix).trans List.filter_sublist
  have hsub : run.Sublist (records.filter window.isOlder) := by
    have hrun : run.filter window.isOlder = run := List.filter_eq_self.mpr holder
    rw [← hrun]
    exact hpart.filter _
  have hle : (run.length : WithTop ℚ) ≤ (records.filter window.isOlder).length :=
    Nat.cast_le.mpr hsub.length_le
  exact absurd (hlong.trans hle) (not_le_of_gt h)

theorem noRunAfterKept_of_few {records : List T}
    (h : ((records.filter window.isOlder).length : WithTop ℚ) < window.stopAfter) :
    NoRunAfterKept window records := by
  rintro front record back rfl -
  refine not_hasOlderRun (lt_of_le_of_lt (Nat.cast_le.mpr ?_) h)
  exact (((List.sublist_cons_self record back).trans
    (List.sublist_append_right front _)).filter _).length_le

/-- The loop over records that have been read. -/
def keptNewest (window : ReadJsonLinesSinceOptions J T E τ) : ℕ → List T → List T
  | _, [] => []
  | olderRun, record :: records =>
      if window.isOlder record then
        if window.stopAfter ≤ (olderRun + 1 : ℕ) then []
        else keptNewest window (olderRun + 1) records
      else
        record :: keptNewest window (if (window.timeOf record).isSome then 0 else olderRun) records

/-- Without a cap the loop keeps what is kept of the records. -/
theorem sinceLoop_kept (hcap : window.maxRecords = none) {events : List ScanEvent}
    {records : List T} (h : readEvents window.toJsonlReadOptions true events = .ok records)
    (olderRun : ℕ) (out : List T) :
    sinceLoop window olderRun out events = .ok (out ++ keptNewest window olderRun records) := by
  have hfull (n : ℕ) : window.isFull n = false := by
    rw [ReadJsonLinesSinceOptions.isFull, hcap]
    rfl
  induction events generalizing records olderRun out with
  | nil =>
      obtain rfl := Except.ok.inj h
      rw [keptNewest, List.append_nil]
      rfl
  | cons event events ih =>
      obtain ⟨record, hrecord, hrest⟩ := Js.except_bind_ok h
      obtain ⟨rest, hreads, hsplit⟩ := Js.except_bind_ok hrest
      obtain rfl := Except.ok.inj hsplit
      rw [sinceLoop, hrecord, Js.except_ok_bind]
      cases record with
      | none => exact ih hreads olderRun out
      | some record =>
          dsimp only [Option.toList_some, List.singleton_append]
          rw [keptNewest]
          split
          · split
            · rw [List.append_nil]
            · exact ih hreads (olderRun + 1) out
          · rw [hfull, if_neg (by decide), ih hreads, List.append_assoc]
            rfl

/-- The loop stops in `records`, after `older` was seen. -/
def stopsIn (window : ReadJsonLinesSinceOptions J T E τ) : ℕ → List T → Bool
  | _, [] => false
  | olderRun, record :: records =>
      if window.isOlder record then
        window.stopAfter ≤ (olderRun + 1 : ℕ) || stopsIn window (olderRun + 1) records
      else stopsIn window (if (window.timeOf record).isSome then 0 else olderRun) records

theorem isSome_of_isOlder {record : T} (h : window.isOlder record = true) :
    (window.timeOf record).isSome = true := by
  unfold ReadJsonLinesSinceOptions.isOlder at h
  cases htime : window.timeOf record with
  | none => simp [htime] at h
  | some t => rfl

theorem timed_known {record : T} (records : List T) (h : (window.timeOf record).isSome = true) :
    timed window (record :: records) = record :: timed window records :=
  List.filter_cons_of_pos h

theorem timed_unknown {record : T} (records : List T) (h : (window.timeOf record).isSome = false) :
    timed window (record :: records) = timed window records :=
  List.filter_cons_of_neg (by simp [h])

/-- Where the loop stops, a run of older records was read. -/
theorem run_of_stopsIn {records older : List T}
    (holder : ∀ record ∈ older, window.isOlder record = true)
    (h : stopsIn window older.length records = true) :
    ∃ run, run <:+: older ++ timed window records ∧
      (∀ record ∈ run, window.isOlder record = true) ∧ window.stopAfter ≤ run.length := by
  induction records generalizing older with
  | nil => cases h
  | cons record records ih =>
      rw [stopsIn] at h
      by_cases hrecord : window.isOlder record = true
      · have hsnoc : ∀ other ∈ older ++ [record], window.isOlder other = true := by
          intro other hother
          rcases List.mem_append.mp hother with hmem | hmem
          · exact holder other hmem
          · rwa [List.mem_singleton.mp hmem]
        have hlen : (older ++ [record]).length = older.length + 1 := List.length_append
        rw [if_pos hrecord, Bool.or_eq_true, decide_eq_true_eq, ← hlen] at h
        rw [timed_known records (isSome_of_isOlder hrecord), ← List.singleton_append,
          ← List.append_assoc]
        rcases h with hstop | hlater
        · exact ⟨older ++ [record], List.infix_append' [] _ _, hsnoc, hstop⟩
        · exact ih hsnoc hlater
      · rw [if_neg hrecord] at h
        cases htime : (window.timeOf record).isSome with
        | false =>
            rw [htime, if_neg (by decide)] at h
            rw [timed_unknown records htime]
            exact ih holder h
        | true =>
            rw [htime, if_pos rfl] at h
            have hnone : ∀ other ∈ ([] : List T), window.isOlder other = true :=
              fun _ hmem => absurd hmem List.not_mem_nil
            obtain ⟨run, hinfix, hrun⟩ := ih hnone h
            refine ⟨run, hinfix.trans ?_, hrun⟩
            rw [timed_known records htime, List.nil_append]
            exact ⟨older ++ [record], [], by simp⟩

/-- The loop keeps everything that is not known to be older, unless it stops in front of some. -/
theorem keptNewest_eq_filter {records : List T} {olderRun : ℕ}
    (h : ∀ newer record rest, records = newer ++ record :: rest → window.isOlder record = false →
      stopsIn window olderRun newer = false) :
    keptNewest window olderRun records = records.filter fun record => !window.isOlder record := by
  induction records generalizing olderRun with
  | nil => rfl
  | cons first records ih =>
      rw [keptNewest]
      by_cases hfirst : window.isOlder first = true
      · rw [if_pos hfirst, List.filter_cons_of_neg (by simp [hfirst])]
        split
        · -- the loop stops: nothing that is kept is left
          rename_i hstop
          refine (List.filter_eq_nil_iff.mpr fun record hrecord hkept => ?_).symm
          obtain ⟨newer, rest, hsplit⟩ := List.append_of_mem hrecord
          have hnever := h (first :: newer) record rest (by rw [hsplit, List.cons_append])
            (by simpa using hkept)
          rw [stopsIn, if_pos hfirst, Bool.or_eq_false_iff] at hnever
          exact absurd hstop (by simpa using hnever.1)
        · refine ih fun newer record rest hsplit hkept => ?_
          have hnever := h (first :: newer) record rest (by rw [hsplit, List.cons_append]) hkept
          rw [stopsIn, if_pos hfirst, Bool.or_eq_false_iff] at hnever
          exact hnever.2
      · rw [if_neg hfirst, List.filter_cons_of_pos (by simpa using hfirst)]
        refine congrArg (first :: ·) (ih fun newer record rest hsplit hkept => ?_)
        have hnever := h (first :: newer) record rest (by rw [hsplit, List.cons_append]) hkept
        rwa [stopsIn, if_neg hfirst] at hnever

/-- In the order of the file. -/
theorem keptNewest_reverse {records : List T} (h : NoRunAfterKept window records) :
    (keptNewest window 0 records.reverse).reverse =
      records.filter fun record => !window.isOlder record := by
  rw [keptNewest_eq_filter, List.filter_reverse, List.reverse_reverse]
  intro newer record rest hsplit hkept
  by_contra hstops
  have hnone : ∀ other ∈ ([] : List T), window.isOlder other = true :=
    fun _ hmem => absurd hmem List.not_mem_nil
  have hstops : stopsIn window ([] : List T).length newer = true := Bool.not_eq_false _ ▸ hstops
  obtain ⟨run, hinfix, holder, hlong⟩ := run_of_stopsIn hnone hstops
  have hback : records = rest.reverse ++ record :: newer.reverse := by
    have hrev := congrArg List.reverse hsplit
    rwa [List.reverse_reverse, List.reverse_append, List.reverse_cons, List.append_assoc,
      List.singleton_append] at hrev
  refine h _ _ _ hback hkept ⟨run.reverse, ?_, ?_, by rwa [List.length_reverse]⟩
  · rw [timed, List.filter_reverse, List.reverse_infix]
    exact hinfix
  · exact fun other hother => holder other (List.mem_reverse.mp hother)

/-- Whatever the loop collects is not known to be older. -/
theorem sinceLoop_fresh {events : List ScanEvent} {olderRun : ℕ} {out result : List T}
    (hout : ∀ record ∈ out, window.isOlder record = false)
    (h : sinceLoop window olderRun out events = .ok result) :
    ∀ record ∈ result, window.isOlder record = false := by
  induction events generalizing olderRun out with
  | nil =>
      obtain rfl := Except.ok.inj h
      exact hout
  | cons event events ih =>
      rw [sinceLoop] at h
      obtain ⟨record, -, h⟩ := Js.except_bind_ok h
      cases record with
      | none => exact ih hout h
      | some record =>
          dsimp only at h
          split at h
          · split at h
            · obtain rfl := Except.ok.inj h
              exact hout
            · exact ih hout h
          · rename_i hkept
            have hsnoc : ∀ other ∈ out ++ [record], window.isOlder other = false := by
              intro other hother
              rcases List.mem_append.mp hother with hmem | hmem
              · exact hout other hmem
              · rw [List.mem_singleton.mp hmem]
                exact Bool.not_eq_true _ ▸ hkept
            split at h
            · obtain rfl := Except.ok.inj h
              exact hsnoc
            · exact ih hsnoc h

/-- The loop adds to what it has collected. -/
theorem sinceLoop_extends {events : List ScanEvent} {olderRun : ℕ} {out result : List T}
    (h : sinceLoop window olderRun out events = .ok result) : out <+: result := by
  induction events generalizing olderRun out with
  | nil =>
      obtain rfl := Except.ok.inj h
      exact List.prefix_rfl
  | cons event events ih =>
      rw [sinceLoop] at h
      obtain ⟨record, -, h⟩ := Js.except_bind_ok h
      cases record with
      | none => exact ih h
      | some record =>
          dsimp only at h
          split at h
          · split at h
            · obtain rfl := Except.ok.inj h
              exact List.prefix_rfl
            · exact ih h
          · split at h
            · obtain rfl := Except.ok.inj h
              exact List.prefix_append _ _
            · exact (List.prefix_append _ _).trans (ih h)

theorem isOlder_maxRecords (cap : Option ℚ) (record : T) :
    ({ window with maxRecords := cap } : ReadJsonLinesSinceOptions J T E τ).isOlder record =
      window.isOlder record :=
  rfl

theorem stopAfter_maxRecords (cap : Option ℚ) :
    ({ window with maxRecords := cap } : ReadJsonLinesSinceOptions J T E τ).stopAfter =
      window.stopAfter :=
  rfl

theorem admitsNone_maxRecords (cap : ℚ) :
    ({ window with maxRecords := some cap } : ReadJsonLinesSinceOptions J T E τ).admitsNone =
      decide (cap ≤ 0) :=
  rfl

/-- A cap keeps the newest of what is collected without it. -/
theorem sinceLoop_capped {cap : ℚ} {events : List ScanEvent} {olderRun : ℕ} {out result : List T}
    (hout : out.length < ⌈cap⌉₊)
    (h : sinceLoop { window with maxRecords := none } olderRun out events = .ok result) :
    sinceLoop { window with maxRecords := some cap } olderRun out events =
      .ok (result.take ⌈cap⌉₊) := by
  induction events generalizing olderRun out with
  | nil =>
      obtain rfl := Except.ok.inj h
      rw [List.take_of_length_le hout.le]
      rfl
  | cons event events ih =>
      rw [sinceLoop] at h ⊢
      obtain ⟨record, hrecord, h⟩ := Js.except_bind_ok h
      have hrecord : readEvent window.toJsonlReadOptions true event = .ok record := hrecord
      dsimp only
      rw [hrecord, Js.except_ok_bind]
      cases record with
      | none => exact ih hout h
      | some record =>
          dsimp only at h ⊢
          rw [isOlder_maxRecords, stopAfter_maxRecords] at h ⊢
          split at h
          · rename_i holder
            rw [if_pos holder]
            split at h
            · rename_i hstop
              obtain rfl := Except.ok.inj h
              rw [if_pos hstop, List.take_of_length_le hout.le]
            · rename_i hstop
              rw [if_neg hstop]
              exact ih hout h
          · rename_i hkept
            rw [if_neg hkept]
            have hlen : (out ++ [record]).length = out.length + 1 := List.length_append
            have hlater := sinceLoop_extends h
            change (if decide (cap ≤ ((out.length + 1 : ℕ) : ℚ)) = true then _ else _) = _
            split
            · rename_i hfull
              have hceil : ⌈cap⌉₊ = out.length + 1 :=
                Nat.le_antisymm (Nat.ceil_le.mpr (of_decide_eq_true hfull)) hout
              rw [hceil, ← hlen, ← List.prefix_iff_eq_take.mp hlater]
            · rename_i hroom
              refine ih ?_ h
              rw [hlen, Nat.lt_ceil]
              exact lt_of_not_ge (by simpa using hroom)

/-- A windowed read returns nothing that is known to be older. Without a cap it agrees with the
filter of the forward read, and a cap takes the newest of what is read without one. -/
theorem windowed_read_filters (decode : Bytes → String) (scan : ResolvedScan)
    (window : ReadJsonLinesSinceOptions J T E τ) (bytes : Bytes) :
    (∀ result, readJsonLinesSince decode scan window bytes = .ok result →
      ∀ record ∈ result, window.isOlder record = false) ∧
    (∀ records, window.ByText → window.maxRecords = none →
      streamJsonLines window.toJsonlReadOptions decode scan bytes = .ok records →
      NoRunAfterKept window records →
      readJsonLinesSince decode scan window bytes =
        .ok (records.filter fun record => !window.isOlder record)) ∧
    (∀ result (cap : ℚ),
      readJsonLinesSince decode scan { window with maxRecords := none } bytes = .ok result →
      readJsonLinesSince decode scan { window with maxRecords := some cap } bytes =
        .ok (result.rtake ⌈cap⌉₊)) := by
  refine ⟨fun result h record hrecord => ?_, fun records htext hcap hreads hruns => ?_,
    fun result cap h => ?_⟩
  · rw [readJsonLinesSince] at h
    split at h
    · obtain rfl := Except.ok.inj h
      cases hrecord
    · obtain ⟨out, hout, hrev⟩ := Js.except_bind_ok h
      obtain rfl := Except.ok.inj hrev
      exact sinceLoop_fresh (fun _ hmem => absurd hmem List.not_mem_nil) hout record
        (List.mem_reverse.mp hrecord)
  · -- the backward scan mirrors the forward scan, whose records the loop keeps
    have hmirror : (backwardLines decode scan bytes).map ScanEvent.content =
        ((forwardLines decode scan bytes none).map ScanEvent.content).reverse :=
      content_backwardLines decode scan bytes
    have hback := readEvents_mirror htext hmirror hreads
    have hloop := sinceLoop_kept hcap hback 0 []
    have hnone : window.admitsNone = false := by
      rw [ReadJsonLinesSinceOptions.admitsNone, hcap]
      rfl
    rw [readJsonLinesSince, hnone, if_neg (by decide), hloop, Js.except_ok_bind, List.nil_append,
      keptNewest_reverse hruns]
  · obtain ⟨out, hout, hrev⟩ := Js.except_bind_ok h
    obtain rfl := Except.ok.inj hrev
    by_cases hcap : cap ≤ 0
    · rw [readJsonLinesSince, admitsNone_maxRecords, if_pos (decide_eq_true hcap),
        Nat.ceil_eq_zero.mpr hcap, List.rtake_zero]
    · have hroom : ([] : List T).length < ⌈cap⌉₊ := Nat.ceil_pos.mpr (lt_of_not_ge hcap)
      have hcapped : sinceLoop { window with maxRecords := some cap } 0 []
          (backwardLines decode scan bytes) = .ok (out.take ⌈cap⌉₊) :=
        sinceLoop_capped hroom hout
      rw [readJsonLinesSince, admitsNone_maxRecords, decide_eq_false hcap, if_neg (by decide),
        hcapped, Js.except_ok_bind, List.rtake_eq_reverse_take_reverse,
        List.reverse_reverse]

/-- Records are the lines as times, where they are numerals of one digit. -/
def lineTimes : ReadJsonLinesSinceOptions String (Option ℕ) String ℕ where
  parse text _ := .ok text
  map text _ _ := .ok ((text.toList.head?.filter Char.isDigit).map fun c => c.toNat - 48)
  lineTooLong := "JSONL_LINE_TOO_LONG"
  onMalformed := .throw_
  timeOf := id
  sinceMs := 5
  stopAfterOlder := some 1

theorem lineTimes_byText : lineTimes.ByText where
  parse _ _ _ _ h := h
  map _ _ _ _ _ h := h
  policy := .inl rfl

/-- A time of unknown, an old one, and two of the window: `?`, `1`, `7`, `8`. -/
def mixedLines : Bytes := [63, 10, 49, 10, 55, 10, 56, 10]

def smallScan : ResolvedScan := ⟨2, 8, by decide, by decide⟩

theorem windowed_read_filters_mixed :
    readJsonLinesSince plainDecode smallScan { lineTimes with stopAfterOlder := some 2 }
        mixedLines = .ok [none, some 7, some 8] ∧
      readJsonLinesSince plainDecode smallScan
        { lineTimes with stopAfterOlder := some 2, maxRecords := some (3 / 2) } mixedLines =
          .ok [some 7, some 8] := by
  have hread := (windowed_read_filters plainDecode smallScan
    { lineTimes with stopAfterOlder := some 2 } mixedLines).2.1 [none, some 1, some 7, some 8]
    ⟨lineTimes_byText.parse, lineTimes_byText.map, lineTimes_byText.policy⟩ rfl
    (by decide +kernel) (noRunAfterKept_of_few (by decide +kernel))
  have hcapped := (windowed_read_filters plainDecode smallScan
    { lineTimes with stopAfterOlder := some 2 } mixedLines).2.2 _ (3 / 2) hread
  have hceil : ⌈(3 / 2 : ℚ)⌉₊ = 2 := by decide +kernel
  rw [hceil] at hcapped
  exact ⟨hread, hcapped⟩

/-- Old records behind a record of unknown time hide it, also where no record is known to lie in
the window. The numbers of the lines differ between the readers. -/
theorem old_run_hides_unknown :
    (¬ ∀ (window : ReadJsonLinesSinceOptions String (Option ℕ) String ℕ) (bytes : Bytes)
        (records : List (Option ℕ)), window.ByText → window.maxRecords = none →
      streamJsonLines window.toJsonlReadOptions plainDecode smallScan bytes = .ok records →
      (∀ front record back t, records = front ++ record :: back →
        window.timeOf record = some t → ¬ t < window.sinceMs → ¬ HasOlderRun window back) →
      readJsonLinesSince plainDecode smallScan window bytes =
        .ok (records.filter fun record => !window.isOlder record)) ∧
    ¬ ∀ (window : ReadJsonLinesSinceOptions String ℕ String ℕ) (bytes : Bytes) (records : List ℕ),
      window.maxRecords = none →
      streamJsonLines window.toJsonlReadOptions plainDecode smallScan bytes = .ok records →
      NoRunAfterKept window records →
      readJsonLinesSince plainDecode smallScan window bytes =
        .ok (records.filter fun record => !window.isOlder record) := by
  constructor
  · intro h
    have hread := h lineTimes [63, 10, 49, 10] [none, some 1] lineTimes_byText rfl
      (by decide +kernel) fun front record back t hsplit htime hfresh => by
        have hmem : record ∈ [none, some 1] := hsplit ▸ List.mem_append_right _ List.mem_cons_self
        have hknown : record = some t := htime
        simp only [hknown, List.mem_cons, reduceCtorEq, Option.some.injEq, List.not_mem_nil,
          or_false, false_or] at hmem
        exact absurd (show t < lineTimes.sinceMs by rw [hmem]; decide) hfresh
    revert hread
    decide +kernel
  · intro h
    have hread := h { lineTimes with map := fun _ n _ => .ok n, timeOf := fun _ => none }
      [49, 10, 50, 10] [1, 2] rfl (by decide +kernel) (noRunAfterKept_of_few (by decide +kernel))
    revert hread
    decide +kernel

end Window

end Kyberion.Jsonl
