import CellMachine.Proofs.Execution
import CellMachine.Proofs.Machine.Recording

/-!
# The report of an execution

An execution records that it begins, what its run does, and how it ended. Main statement: the last of
these is missing if and only if the run succeeds and the flush after it fails. That failure is the only
one of which no error event tells.
-/

namespace CellMachine

/-! ### Severe events -/

theorem Journal.admits_error (j : Journal) : j.admits .error ↔ j.level ≠ none := by
  obtain ⟨level, recorded⟩ := j
  cases level with
  | none => simp [admits]
  | some least => simp [admits, Level.rank]

theorem Journal.admitted_of_silent {j : Journal} (h : j.level = none) (es : List Event) :
    j.admitted es = [] := by
  simp [admitted, admits, h]

theorem Event.IsDetail.not_error {e : Event} (h : e.IsDetail) : e.level ≠ .error := by
  intro hlevel
  simp [IsDetail, hlevel, Level.rank] at h

/-! ### Reports -/

def Execution.report? (e : Execution) : Option Event :=
  match e.ending with
  | .value _ => some (.runFinished e.executed)
  | .fault fault => some (.runAborted fault e.executed)
  | .unfinished => none

/-- An execution that has added an error event to a journal. -/
def Execution.LogsError (journal : Journal) (e : Execution) : Prop :=
  ∃ log, e.journal.events = journal.events ++ log ∧ ∃ event ∈ log, event.level = .error

/-- A run that succeeds, so that its execution fails only in the flush that comes after it. -/
def Outcome.FailsInFlush (sink : Output) (run : Outcome) (reason : String) : Prop :=
  (∃ top, run.ending = .value top) ∧
    sink.device.flush run.machine.sink.toRecord = .error reason

theorem Execution.error_mem_report? (e : Execution) :
    (∃ event ∈ e.report?, event.level = .error) ↔ ∃ fault, e.ending = .fault fault := by
  obtain ⟨ending, executed, sink, journal⟩ := e
  cases ending with
  | value top => simp [report?, Event.level]
  | fault fault => simp [report?, Event.level]
  | unfinished => simp [report?]

namespace Program

variable {p : Program} {limits : Limits} {args : List Cell} {sink : Output} {journal : Journal}
  {report? : Option Event} {e : Execution}

/-- What an execution adds to a journal, as far as that admits it: one event for the beginning, then
details, then the report if there is one. -/
def Logs (p : Program) (journal : Journal) (report? : Option Event) (e : Execution) : Prop :=
  ∃ details, (∀ event ∈ details, event.IsDetail) ∧
    e.journal.events = journal.events ++
      journal.admitted (.runStart p.functions.size p.natives.size :: details ++ report?.toList)

theorem Logs.of_silent (h : p.Logs journal report? e) (hlevel : journal.level = none)
    (other? : Option Event) : p.Logs journal other? e := by
  obtain ⟨details, hdetails, hevents⟩ := h
  rw [Journal.admitted_of_silent hlevel] at hevents
  exact ⟨details, hdetails, by rw [hevents, Journal.admitted_of_silent hlevel]⟩

/-- An error event can only be the report. -/
theorem Logs.logsError_iff (h : p.Logs journal report? e) :
    e.LogsError journal ↔ journal.level ≠ none ∧ ∃ event ∈ report?, event.level = .error := by
  obtain ⟨details, hdetails, hevents⟩ := h
  constructor
  · rintro ⟨log, hlog, event, hmem, herror⟩
    obtain rfl := List.append_cancel_left (hlog.symm.trans hevents)
    obtain ⟨hall, hadmits⟩ := List.mem_filter.1 hmem
    rw [herror] at hadmits
    refine ⟨(Journal.admits_error journal).1 hadmits, event, ?_, herror⟩
    -- The beginning and the details are less severe, so the report is all that can be an error.
    simp only [List.cons_append, List.mem_cons, List.mem_append, Option.mem_toList] at hall
    rcases hall with rfl | hdetail | hreport
    · cases herror
    · exact ((hdetails event hdetail).not_error herror).elim
    · exact hreport
  · rintro ⟨hlevel, event, hreport, herror⟩
    have hadmits := (Journal.admits_error journal).2 hlevel
    refine ⟨_, hevents, event, List.mem_filter.2 ⟨?_, herror ▸ hadmits⟩, herror⟩
    exact List.mem_append_right _ (Option.mem_toList.2 hreport)

theorem Logs.logsError_of_fault (h : p.Logs journal e.report? e) (hlevel : journal.level ≠ none)
    {fault : Fault} (hending : e.ending = .fault fault) : e.LogsError journal :=
  h.logsError_iff.2 ⟨hlevel, e.error_mem_report?.2 ⟨fault, hending⟩⟩

theorem Logs.not_logsError (h : p.Logs journal none e) : ¬ e.LogsError journal := by
  rw [h.logsError_iff]
  rintro ⟨-, event, hreport, -⟩
  cases hreport

theorem logs_of_journal
    (h : (p.execute limits args sink journal).journal =
      ((p.started limits sink journal).run p limits args).machine.journal.recordAll report?.toList) :
    p.Logs journal report? (p.execute limits args sink journal) := by
  obtain ⟨details, hrun, hdetails⟩ :=
    Machine.details_of_run p limits args (p.started limits sink journal)
  have hstart : (p.started limits sink journal).journal =
      journal.recordAll [.runStart p.functions.size p.natives.size] := rfl
  refine ⟨details, hdetails, ?_⟩
  rw [h, hrun, hstart, ← Journal.recordAll_append, ← Journal.recordAll_append,
    Journal.events_recordAll]
  rfl

/-- The report is recorded after the flush, and not at all if it is the flush that fails. -/
theorem journal_execute (p : Program) (limits : Limits) (args : List Cell) (sink : Output)
    (journal : Journal) :
    let run := (p.started limits sink journal).run p limits args
    let e := p.execute limits args sink journal
    ((∃ reason, run.FailsInFlush sink reason) → e.journal = run.machine.journal) ∧
    ((¬ ∃ reason, run.FailsInFlush sink reason) →
      e.journal = run.machine.journal.recordAll e.report?.toList) := by
  dsimp only
  rw [execute_eq p limits args sink journal]
  generalize (p.started limits sink journal).run p limits args = run
  obtain ⟨ending, left⟩ := run
  cases ending with
  | value top =>
    cases hf : sink.device.flush left.sink.toRecord with
    | ok _ =>
      refine ⟨fun ⟨reason, h⟩ => ?_, fun _ => rfl⟩
      cases hf.symm.trans h.2
    | error reason => exact ⟨fun _ => rfl, fun h => (h ⟨reason, ⟨top, rfl⟩, hf⟩).elim⟩
  | fault fault => exact ⟨nofun, fun _ => rfl⟩
  | unfinished => exact ⟨nofun, fun _ => rfl⟩

/-- Whatever an execution comes to, the last of what it records is how it ended, unless the run succeeds
and the flush after it fails. Of that failure alone no error event tells. -/
theorem execute_reports (p : Program) (limits : Limits) (args : List Cell) (sink : Output)
    (journal : Journal) :
    let run := (p.started limits sink journal).run p limits args
    let e := p.execute limits args sink journal
    (p.Logs journal e.report? e ↔
      ((∃ reason, run.FailsInFlush sink reason) → journal.level = none)) ∧
    (∀ reason, run.FailsInFlush sink reason →
      e.ending = .fault { cause := .flushRefused reason } ∧ p.Logs journal none e) ∧
    (e.LogsError journal ↔ journal.level ≠ none ∧ (¬ ∃ reason, run.FailsInFlush sink reason) ∧
      ∃ fault, e.ending = .fault fault) := by
  intro run e
  obtain ⟨hlost, hreported⟩ := p.journal_execute limits args sink journal
  have hending {reason : String} (h : run.FailsInFlush sink reason) :
      e.ending = .fault { cause := .flushRefused reason } := by
    obtain ⟨⟨top, hvalue⟩, hflush⟩ := h
    have h := (p.flushesOnce limits args sink journal).value top hvalue
    rwa [hflush] at h
  by_cases hfails : ∃ reason, run.FailsInFlush sink reason
  · have hnone : p.Logs journal none e := logs_of_journal (hlost hfails)
    obtain ⟨reason, hreason⟩ := hfails
    -- With nothing behind the details there is no error, but a report of this ending would be one.
    refine ⟨⟨fun h _ => ?_, fun h => hnone.of_silent (h ⟨reason, hreason⟩) _⟩,
      fun reason' h => ⟨hending h, hnone⟩,
      fun h => (hnone.not_logsError h).elim, fun h => (h.2.1 ⟨reason, hreason⟩).elim⟩
    exact Decidable.byContradiction fun hlevel =>
      hnone.not_logsError (h.logsError_of_fault hlevel (hending hreason))
  · have hlogs : p.Logs journal e.report? e := logs_of_journal (hreported hfails)
    refine ⟨iff_of_true hlogs fun h => (hfails h).elim, fun reason h => (hfails ⟨reason, h⟩).elim, ?_⟩
    rw [hlogs.logsError_iff, e.error_mem_report?]
    exact and_congr_right fun _ => (and_iff_right hfails).symm

def stopsAtOnce : Program := .single 0 ⟨#[Opcode.stop.tag]⟩

/-- The one execution ends with its report. The other fails in the flush and tells of no end. -/
theorem execute_reports_stopsAtOnce :
    stopsAtOnce.Logs { level := some .info } (some (.runFinished 1))
      (stopsAtOnce.execute {} [] {} { level := some .info }) ∧
    stopsAtOnce.Logs { level := some .info } none
      (stopsAtOnce.execute {} [] ({ flushable := false } : Sink) { level := some .info }) := by
  obtain ⟨hreport, -, -⟩ := execute_reports stopsAtOnce {} [] {} { level := some .info }
  obtain ⟨-, hlost, -⟩ :=
    execute_reports stopsAtOnce {} [] ({ flushable := false } : Sink) { level := some .info }
  refine ⟨?_, (hlost "flush refused" ⟨⟨none, by decide +kernel⟩, rfl⟩).2⟩
  have hlogs := hreport.2 fun ⟨_, h⟩ => nomatch h.2
  rwa [show Execution.report? _ = some (.runFinished 1) by decide +kernel] at hlogs

theorem stopsAtOnce_fails_silently :
    let e := stopsAtOnce.execute {} [] ({ flushable := false } : Sink) { level := some .info }
    e.ending = .fault { cause := .flushRefused "flush refused" } ∧
    e.journal.events = [.runStart 1 0] ∧
    ¬ stopsAtOnce.Logs { level := some .info } e.report? e ∧
    ¬ e.LogsError { level := some .info } := by
  intro e
  have hending : e.ending = .fault { cause := .flushRefused "flush refused" } := by decide +kernel
  have hevents : e.journal.events = [.runStart 1 0] := by decide +kernel
  have hsilent : ¬ e.LogsError { level := some .info } := by
    rintro ⟨log, hlog, event, hmem, herror⟩
    obtain rfl : [.runStart 1 0] = log := hevents.symm.trans hlog
    obtain rfl := List.mem_singleton.1 hmem
    cases herror
  exact ⟨hending, hevents, fun h => hsilent (h.logsError_of_fault nofun hending), hsilent⟩

end Program

end CellMachine
