import CellMachine.Proofs.Journal
import CellMachine.Proofs.Machine.Parallel

/-!
# What a run records

Main statements: an instruction records events of instructions only, be it carried out or refused, and
nothing that a run records is as severe as what is recorded of the run as a whole.
-/

namespace CellMachine

/-- An event that tells of a part of a run. Those that tell of whole runs are more severe. -/
def Event.IsDetail (e : Event) : Prop := Level.info.rank < e.level.rank

theorem Event.isDetail_of_debug {e : Event} (h : e.level = .debug) : e.IsDetail := by
  simp [IsDetail, h, Level.rank]

theorem Event.isDetail_of_ofInstruction {e : Event} (h : e.ofInstruction) : e.IsDetail := by
  cases e with
  | dispatch | nativeCall | dump | breakpoint => simp [IsDetail, level, Level.rank]
  | _ => cases h

namespace Machine

variable {p : Program} {limits : Limits} {f : Function} {cursor : Nat} {m n : Machine} {j : Journal}

/-! ### One instruction -/

section Unrecorded

variable (P : Journal → Prop)

theorem onStack_unrecorded {α : Type} (x : OperandStack.Op α) :
    Preserves (fun m => P m.journal) (onStack x) := by
  refine .of_invariant fun m hm => ?_
  obtain ⟨stack, frames, continuations, executed, sink, journal⟩ := m
  simp only [onStack]
  cases x stack with
  | ok a stack => exact hm
  | error cause stack => exact hm

theorem load_unrecorded (scope : Scope) (t : ValueType) (slot : UInt16) :
    Preserves (fun m => P m.journal) (load scope t slot) := by
  refine .of_invariant fun m hm => ?_
  unfold load
  cases m.frames.load scope t slot with
  | ok c => exact hm
  | error cause => exact hm

theorem store_unrecorded (scope : Scope) (slot : UInt16) (c : Cell) :
    Preserves (fun m => P m.journal) (store scope slot c) := by
  refine .of_invariant fun m hm => ?_
  rw [store_eq]
  cases m.frames.store scope slot c with
  | ok frames => exact hm
  | error cause => exact hm

theorem print_unrecorded (pieces : List (List UInt8)) :
    Preserves (fun m => P m.journal) (print pieces) := by
  refine .of_invariant fun m hm => ?_
  obtain ⟨stack, frames, continuations, executed, sink, journal⟩ := m
  simp only [print]
  cases Output.print pieces sink with
  | ok _ sink => exact hm
  | error reason sink => exact hm

theorem storeArguments_unrecorded (count : Nat) (args : List Cell) (slot : Nat) :
    Preserves (fun m => P m.journal) (storeArguments count args slot) :=
  storeArguments_respects (store_unrecorded P .top) count args slot

end Unrecorded

theorem kept_recording (j : Journal) :
    Kept (fun _ => False) (fun m n => m = n ∧ j.Extends (·.ofInstruction) m.journal) where
  push _ := onStack_unrecorded _ _
  pop := onStack_unrecorded _ _
  popAs _ _ := onStack_unrecorded _ _
  swap := onStack_unrecorded _ _
  load := load_unrecorded _
  print := print_unrecorded _
  noted _ he := .of_invariant fun m hm => hm.record (he m.stack)
  moment := .of_invariant fun _ hm => hm
  store := store_unrecorded _

theorem extends_of_execute {flow : Flow} (h : execute p f cursor m = .ok flow n) :
    m.journal.Extends (·.ofInstruction) n.journal :=
  Preserves.of_ok ((kept_recording m.journal).execute p f cursor) (.refl _ _) h

theorem extends_of_execute_error {cause : Cause} (h : execute p f cursor m = .error cause n) :
    m.journal.Extends (·.ofInstruction) n.journal :=
  Preserves.of_error ((kept_recording m.journal).execute p f cursor) (.refl _ _) h

/-! ### Calls -/

theorem journal_enter (m : Machine) (f : Function) :
    (m.enter f).journal =
      m.journal.record (.pushFrame f.id m.frames.next f.locals.toNat (m.frames.depth + 1)) := rfl

/-- The end of a call is recorded with what its frame tells of it. -/
theorem journal_of_leave? (h : m.leave? = some n) :
    ∃ fr, m.frames.pop? = some (fr, n.frames) ∧
      n.journal = m.journal.record (.popFrame fr.function fr.invocation n.frames.depth) := by
  unfold leave? at h
  split at h
  · cases h
  · rename_i fr frames hp
    cases h
    exact ⟨fr, hp, rfl⟩

/-! ### Runs -/

theorem Advance.details {r : Progress} (h : Advance p limits f cursor m r) :
    m.journal.Extends Event.IsDetail (machineAfter r).journal := by
  have hleave {n : Machine} (hl : m.leave? = some n) :
      m.journal.Extends Event.IsDetail n.journal := by
    obtain ⟨fr, -, hj⟩ := journal_of_leave? hl
    exact hj ▸ (Journal.Extends.refl _ _).record (Event.isDetail_of_debug rfl)
  have hexecuted {flow : Flow} {n : Machine}
      (he : execute p f cursor { m with executed := m.executed + 1 } = .ok flow n) :
      m.journal.Extends Event.IsDetail n.journal :=
    (extends_of_execute he).mono fun _ => Event.isDetail_of_ofInstruction
  cases h with
  | noFrame atEnd hl => exact .refl _ _
  | spent inside hs => exact .refl _ _
  | finished atEnd hl hk => exact hleave hl
  | returned atEnd hl hk hf => exact (hleave hl).record (Event.isDetail_of_debug rfl)
  | callerLost atEnd hl hk hf => exact (hleave hl).record (Event.isDetail_of_debug rfl)
  | refused inside hs he =>
    exact (extends_of_execute_error he).mono fun _ => Event.isDetail_of_ofInstruction
  | next inside hs he => exact hexecuted he
  | stopped inside hs he => exact hexecuted he
  | undefined inside hs he hf => exact hexecuted he
  | tooDeep inside hs he hf hd => exact hexecuted he
  | called inside hs he hf hd =>
    refine .record (.record (hexecuted he) ?_) ?_
    · exact Event.isDetail_of_debug rfl
    · exact Event.isDetail_of_debug rfl

/-- A run adds details to the journal and nothing else, whether it ends or not. -/
theorem details_of_run (p : Program) (limits : Limits) (args : List Cell) (m : Machine) :
    m.journal.Extends Event.IsDetail (m.run p limits args).machine.journal := by
  have hentered : m.journal.Extends Event.IsDetail (m.enter p.entryFunction).journal :=
    (Journal.Extends.refl _ _).record (Event.isDetail_of_debug rfl)
  have hkept := storeArguments_unrecorded (m.journal.Extends Event.IsDetail) args.length args 0
  unfold run
  cases hr : storeArguments args.length args 0 (m.enter p.entryFunction) with
  | error cause n => exact hkept.of_error hentered hr
  | ok _ n =>
    refine proceed_induct (I := fun s => m.journal.Extends Event.IsDetail s.2.journal)
      (J := fun n => m.journal.Extends Event.IsDetail n.journal) (fun _ hs => hs)
      (fun s t hs ht => hs.trans ?_) (fun s fault? n hs ha => hs.trans ?_) _
      (hkept.of_ok hentered hr)
    · exact (advance_of_eq ht).details
    · exact (advance_of_eq ha).details

end Machine

end CellMachine
