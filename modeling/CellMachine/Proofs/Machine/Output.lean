import CellMachine.Proofs.Machine.Parallel
import CellMachine.Proofs.Sink

/-!
# Output

What a device took is never taken back. Main statement: a run adds to what its output had, whether it
ends or not, and never flushes it.
-/

namespace CellMachine

namespace Output

/-! ### Relations that writes keep -/

section Kept

variable {excused : Cause → Prop} {K : Output → Output → Prop}

theorem sinksKept_of_writeAll
    (h : ∀ bytes, Respects (fun reason => excused (.printRefused reason)) K (writeAll bytes)) :
    SinksKept excused K := by
  intro pieces
  induction pieces with
  | nil => exact .pure ()
  | cons bytes pieces ih => exact .bind (h bytes) fun _ => ih

theorem sinksKept_of_offer
    (h : ∀ bytes, Respects (fun reason => excused (.printRefused reason)) K (offer bytes)) :
    SinksKept excused K := by
  refine sinksKept_of_writeAll fun bytes => ?_
  unfold writeAll
  generalize bytes.length = rounds
  induction rounds generalizing bytes with
  | zero => cases bytes <;> exact .pure ()
  | succ rounds ih =>
    cases bytes with
    | nil => exact .pure ()
    | cons b bytes =>
      refine .bind (h _) fun count => ?_
      split
      · exact .throw _
      · exact ih _

end Kept

theorem sinksKept_extends (before : Output) :
    SinksKept (fun _ => False) (fun s t => s = t ∧ before.Extends s) := by
  refine sinksKept_of_offer fun bytes => .of_invariant fun o ho => ?_
  rcases offer_cases bytes o with ⟨reason, -, hoffer⟩ | ⟨count, -, hoffer⟩
  · rw [hoffer]
    exact ho.trans (extends_took o _ _)
  · rw [hoffer]
    exact ho.trans (extends_took o _ _)

end Output

namespace Machine

variable {p : Program} {limits : Limits}

theorem sideBySide_extends (limits : Limits) (before : Output) :
    SideBySide (fun _ => False) limits limits Eq Eq (fun s t => s = t ∧ before.Extends s) where
  operands := .same _
  frames := .same _
  sinks := Output.sinksKept_extends before
  budget := rfl
  calls := .inl rfl

theorem alike_self (m : Machine) :
    Alike Eq Eq (fun s t => s = t ∧ m.sink.Extends s) m m :=
  ⟨rfl, rfl, rfl, rfl, rfl, .refl m.sink⟩

/-- One turn, the last of a run too, adds to what was written. -/
theorem extends_of_advance (p : Program) (limits : Limits) (q : Position) (m : Machine) :
    m.sink.Extends (machineAfter (m.advance p limits q)).sink := by
  have hr := (sideBySide_extends limits m.sink).advance (p := p) (alike_self m) q
  generalize m.advance p limits q = r at hr
  cases hr with
  | running q' h => exact h.sink.2
  | ended fault? h => exact h.sink.2
  | excused _ _ hex => exact hex.elim

theorem extends_of_turn {s t : Position × Machine} (h : Turn p limits s t) :
    s.2.sink.Extends t.2.sink := by
  have ha := extends_of_advance p limits s.1 s.2
  rw [show s.2.advance p limits s.1 = .running t.1 t.2 from h] at ha
  exact ha

theorem extends_of_reaches {s t : Position × Machine} (h : Reaches p limits s t) :
    s.2.sink.Extends t.2.sink := by
  induction h with
  | refl => exact .refl _
  | tail _ ht ih => exact ih.trans (extends_of_turn ht)

theorem extends_of_ended {q : Position} {m n : Machine} {fault? : Option Fault}
    (h : m.advance p limits q = .ended fault? n) : m.sink.Extends n.sink := by
  have ha := extends_of_advance p limits q m
  rw [h] at ha
  exact ha

theorem extends_of_endsAs {s : Position × Machine} {fault? : Option Fault} {n : Machine}
    (h : EndsAs p limits s fault? n) : s.2.sink.Extends n.sink := by
  obtain ⟨t, hr, ha⟩ := h
  exact (extends_of_reaches hr).trans (extends_of_ended ha)

theorem extends_of_storeArguments (p : Program) (args : List Cell) (m : Machine) :
    match storeArguments args.length args 0 (m.enter p.entryFunction) with
    | .ok _ n | .error _ n => m.sink.Extends n.sink := by
  have hr := (sideBySide_extends {} m.sink).storeArguments (p := p) (alike_self m) args
  generalize storeArguments args.length args 0 (m.enter p.entryFunction) = r at hr
  cases hr with
  | ok _ h => exact h.sink.2
  | error _ h => exact h.sink.2
  | excused _ hex => exact hex.elim

/-- A run only adds to what its sink had, and leaves flushing to others. -/
theorem extends_run (p : Program) (limits : Limits) (args : List Cell) (m : Machine) :
    m.sink.Extends (m.run p limits args).machine.sink := by
  have hstart := extends_of_storeArguments p args m
  unfold run
  generalize storeArguments args.length args 0 (m.enter p.entryFunction) = r at hstart
  cases r with
  | error cause n => exact hstart
  | ok _ n =>
    exact proceed_induct (I := fun s => m.sink.Extends s.2.sink) (J := fun n => m.sink.Extends n.sink)
      (fun s hs => hs) (fun s t hs ht => hs.trans (extends_of_turn ht))
      (fun s fault? n hs ha => hs.trans (extends_of_ended ha)) _ hstart

end Machine

end CellMachine
