import CellMachine.Machine.Run
import CellMachine.Proofs.Machine.FullSink

/-!
# Executions and their sinks

What an execution makes of a run and of the sink that the run wrote to. Main statement: a sink that
fills up has the bytes for which it had room, in their order, whatever the sink does later; and every
sink is flushed once, when the run is over.
-/

namespace CellMachine

namespace Program

/-- The machine that an execution runs. -/
def started (p : Program) (limits : Limits) (sink : Output) (journal : Journal) : Machine :=
  .fresh limits sink (journal.record (.runStart p.functions.size p.natives.size))

/-- How an execution stands to its run: the sink that the run leaves is flushed once, and whether that
succeeds shows only if the run did. -/
structure FlushesOnce (sink : Output) (run : Outcome) (e : Execution) : Prop where
  before : run.machine.sink.flushes = sink.flushes
  flushed : e.sink = run.machine.sink.flushed
  executed : e.executed = run.machine.executed
  fault (fault : Fault) (h : run.ending = .fault fault) : e.ending = .fault fault
  value (top : Option Cell) (h : run.ending = .value top) :
    match sink.device.flush run.machine.sink.toRecord with
    | .ok () => e.ending = .value top
    | .error reason => e.ending = .fault { cause := .flushRefused reason }

/-- The flush always changes the sink in the same way. Whether it succeeds shows only in the ending of a
run that did. -/
theorem execute_eq (p : Program) (limits : Limits) (args : List Cell) (sink : Output)
    (journal : Journal) :
    let run := (p.started limits sink journal).run p limits args
    let executed := run.machine.executed
    let flushed := run.machine.sink.flushed
    p.execute limits args sink journal =
      match run.ending, sink.device.flush run.machine.sink.toRecord with
      | .value top, .ok () =>
        ⟨.value top, executed, flushed, run.machine.journal.record (.runFinished executed)⟩
      | .value _, .error reason =>
        ⟨.fault { cause := .flushRefused reason }, executed, flushed, run.machine.journal⟩
      | .fault fault, _ =>
        ⟨.fault fault, executed, flushed, run.machine.journal.record (.runAborted fault executed)⟩
      | .unfinished, _ => ⟨.unfinished, executed, flushed, run.machine.journal⟩ := by
  have hextends : sink.Extends ((p.started limits sink journal).run p limits args).machine.sink :=
    Machine.extends_run p limits args (p.started limits sink journal)
  dsimp only
  generalize hrun : (p.started limits sink journal).run p limits args = run at hextends ⊢
  unfold started at hrun
  simp only [execute, hrun, Output.flush_eq, hextends.device]
  cases sink.device.flush run.machine.sink.toRecord with
  | ok _ => cases run.ending <;> rfl
  | error reason => cases run.ending <;> rfl

theorem flushesOnce (p : Program) (limits : Limits) (args : List Cell) (sink : Output)
    (journal : Journal) :
    FlushesOnce sink ((p.started limits sink journal).run p limits args)
      (p.execute limits args sink journal) := by
  have hextends : sink.Extends ((p.started limits sink journal).run p limits args).machine.sink :=
    Machine.extends_run p limits args (p.started limits sink journal)
  rw [execute_eq p limits args sink journal]
  generalize (p.started limits sink journal).run p limits args = run at hextends ⊢
  obtain ⟨ending, left⟩ := run
  cases ending with
  | value top =>
    cases hf : sink.device.flush left.sink.toRecord with
    | ok _ =>
      refine ⟨hextends.flushes, rfl, rfl, nofun, fun top' h => ?_⟩
      simp only [hf]
      exact h
    | error reason =>
      exact ⟨hextends.flushes, rfl, rfl, nofun, fun top' h => by simp only [hf]⟩
  | fault fault => exact ⟨hextends.flushes, rfl, rfl, fun _ h => h, nofun⟩
  | unfinished => exact ⟨hextends.flushes, rfl, rfl, nofun, nofun⟩

theorem FlushesOnce.ending_congr {sink sink' : Output} {run run' : Outcome} {e e' : Execution}
    (h : FlushesOnce sink run e) (h' : FlushesOnce sink' run' e')
    (hsinks : sink.device.flush run.machine.sink.toRecord =
      sink'.device.flush run'.machine.sink.toRecord)
    (hruns : run.ending = run'.ending) (hfinished : run'.ending ≠ .unfinished) :
    e.ending = e'.ending := by
  cases hr : run'.ending with
  | unfinished => exact (hfinished hr).elim
  | fault fault => rw [h.fault fault (hruns.trans hr), h'.fault fault hr]
  | value top =>
    have hvalue := h.value top (hruns.trans hr)
    have hvalue' := h'.value top hr
    rw [hsinks] at hvalue
    cases hf : sink'.device.flush run'.machine.sink.toRecord with
    | ok _ =>
      simp only [hf] at hvalue hvalue'
      rw [hvalue, hvalue']
    | error reason =>
      simp only [hf] at hvalue hvalue'
      rw [hvalue, hvalue']

theorem FlushesOnce.written {sink : Output} {run : Outcome} {e : Execution}
    (h : FlushesOnce sink run e) : e.sink.written = run.machine.sink.written := by
  rw [h.flushed]
  rfl

theorem alike_started (p : Program) (limits : Limits) (total : Nat) (refusal : Refusal)
    (flushable : Bool) (journal : Journal) :
    Machine.Alike Eq Eq (Output.Confined total refusal flushable)
      (p.started limits ({ room := some total, refusal, flushable } : Sink) journal)
      (p.started limits ({ flushable } : Sink) journal) :=
  ⟨rfl, rfl, rfl, rfl, rfl, rfl, rfl, Nat.zero_le total⟩

/-- Two executions, the second on a sink that has room for `total` bytes in all. If the output `w` of
the first has room, the second has the same result, output and count. Otherwise it has printed the
first `total` bytes of `w`, and its fault is at the print instruction with the next byte. Whatever the
sink, it is flushed once, when the run is over, and a fault of the run counts more than one of the
flush. -/
theorem execute_confined (p : Program) (limits : Limits) (budget : Nat) (args : List Cell)
    (total : Nat) (refusal : Refusal) (flushable : Bool) (journal : Journal) :
    let limits := { limits with budget := some budget }
    let whole := p.execute limits args ({ flushable } : Sink) journal
    let cut := p.execute limits args ({ room := some total, refusal, flushable } : Sink) journal
    let w := whole.sink.written.toList
    (w.length ≤ total → cut.ending = whole.ending ∧ cut.sink.written = whole.sink.written ∧
      cut.executed = whole.executed) ∧
    (total < w.length → cut.sink.written.toList = w.take total ∧
      ∃ q m c, Machine.Overflows p limits total args
          (p.started limits ({ flushable } : Sink) journal) w q m c ∧
        cut.ending =
          .fault (Fault.located (.printRefused refusal.reason) q.function.id q.cursor) ∧
        cut.executed = m.executed + 1) ∧
    ∀ sink, FlushesOnce sink ((p.started limits sink journal).run p limits args)
      (p.execute limits args sink journal) := by
  intro limits whole cut w
  have hwhole : FlushesOnce _ _ whole := p.flushesOnce limits args ({ flushable } : Sink) journal
  have hcut : FlushesOnce _ _ cut :=
    p.flushesOnce limits args ({ room := some total, refusal, flushable } : Sink) journal
  have hw : w =
      ((p.started limits ({ flushable } : Sink) journal).run p limits args).machine.sink.written.toList :=
    congrArg Array.toList hwhole.written
  have hfinished :
      ((p.started limits ({ flushable } : Sink) journal).run p limits args).ending ≠ .unfinished :=
    Machine.run_finishes rfl
  have hb : limits.budget = some budget := rfl
  rcases Machine.run_confined hb args (alike_started p limits total refusal flushable journal) with
    ⟨hending, halike⟩ | ⟨q, m, c, hover, hcutOff⟩
  · have hfits : w.length ≤ total := by
      rw [hw]
      exact halike.sink.fits
    have hwritten : cut.sink.written = whole.sink.written := by
      rw [hcut.written, hwhole.written, halike.sink.same]
    refine ⟨fun _ => ⟨hcut.ending_congr hwhole rfl hending hfinished, hwritten, ?_⟩, ?_, ?_⟩
    · rw [hcut.executed, hwhole.executed, halike.executed]
    · exact fun hlt => (Nat.not_lt.2 hfits hlt).elim
    · exact fun sink => p.flushesOnce limits args sink journal
  · rw [← hw] at hover hcutOff
    refine ⟨fun hle => (Nat.not_lt.2 hle hover.lt).elim, fun _ => ⟨?_, q, m, c, hover, ?_, ?_⟩, ?_⟩
    · rw [hcut.written]
      exact hcutOff.written
    · exact hcut.fault _ hcutOff.ending
    · rw [hcut.executed]
      exact hcutOff.executed
    · exact fun sink => p.flushesOnce limits args sink journal

def printsMinusOne : Program := .single 0 ⟨#[(Opcode.minusOne .int).tag, (Opcode.print .int).tag]⟩

/-- Room for one byte takes the sign and not the digit. -/
theorem execute_confined_printsMinusOne : ∃ q m c,
    Machine.Overflows printsMinusOne { budget := some 9 } 1 []
      (printsMinusOne.started { budget := some 9 } ({} : Sink) {}) [45, 49] q m c ∧
    (printsMinusOne.execute { budget := some 9 } []
      ({ room := some 1 } : Sink) {}).sink.written.toList = [45] ∧
    (printsMinusOne.execute { budget := some 9 } [] ({ room := some 1 } : Sink) {}).executed = 2 := by
  have hw : (printsMinusOne.execute { budget := some 9 } []
      ({} : Sink) {}).sink.written.toList = [45, 49] := by decide +kernel
  obtain ⟨-, hcut, -⟩ := execute_confined printsMinusOne {} 9 [] 1 .closed true {}
  rw [hw] at hcut
  obtain ⟨hwritten, q, m, c, hover, -, -⟩ := hcut (by decide)
  exact ⟨q, m, c, hover, hwritten, by decide +kernel⟩

end Program

end CellMachine
