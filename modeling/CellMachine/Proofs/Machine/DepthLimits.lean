import CellMachine.Proofs.Machine.CallStructure
import CellMachine.Proofs.Machine.Locality
import CellMachine.Proofs.Machine.OperandRoom

/-!
# Limits of depth

Main statement: operands, continuations and frames never lie deeper than the limits allow, and a run
that does not end in an overflow is the same under all limits that are looser.
-/

namespace CellMachine

namespace Machine

variable {p : Program} {limits limits' : Limits} {m n : Machine}

/-! ### Depths in one run -/

structure WithinLimits (limits : Limits) (m : Machine) : Prop where
  operands : m.stack.depth ≤ limits.maxStack
  calls : m.continuations.depth ≤ limits.maxCalls
  frames : m.frames.depth ≤ limits.maxCalls + 1

theorem within_of_advance {limit : Nat} (h : m.stack.Within limit) (q : Position) :
    (machineAfter (m.advance p limits q)).stack.Within limit := by
  have hself : Alike (fun s t => s = t ∧ s.Within limit) Eq Eq m m := ⟨⟨rfl, h⟩, rfl, rfl, rfl, rfl⟩
  have hstep := (sideBySide_within limits limit).advance (p := p) hself q
  generalize m.advance p limits q = r at hstep
  cases hstep with
  | running q' hnext => exact hnext.stack.2
  | ended fault? hnext => exact hnext.stack.2
  | excused _ _ hex => exact hex.elim

/-- Continuations are limited, and at most one frame has none. -/
def CallsWithin (limit : Nat) (m : Machine) : Prop :=
  m.continuations.depth ≤ limit ∧ m.frames.depth ≤ m.continuations.depth + 1

theorem callsWithin_of_skeleton {limit : Nat} (hs : n.skeleton = m.skeleton)
    (h : CallsWithin limit m) : CallsWithin limit n := by
  obtain ⟨hframes, hks⟩ := depths_of_skeleton hs
  unfold CallsWithin at *
  rw [hframes, hks]
  exact h

theorem callsWithin_of_advance (h : CallsWithin limits.maxCalls m) (q : Position) :
    CallsWithin limits.maxCalls (machineAfter (m.advance p limits q)) := by
  obtain ⟨f, cursor⟩ := q
  have hcounted : CallsWithin limits.maxCalls { m with executed := m.executed + 1 } := h
  obtain ⟨hcalls, hframes⟩ := h
  have hreturn : ∀ {n : Machine} {k : Continuation} {ks : Stack Continuation} {e : Event},
      m.leave? = some n → n.continuations.pop? = some (k, ks) →
      CallsWithin limits.maxCalls ({ n with continuations := ks }.note e) := by
    intro n k ks e hl hk
    obtain ⟨hks, hdepth⟩ := depth_of_leave? hl
    have hpop : m.continuations.depth = ks.depth + 1 := hks ▸ Stack.depth_of_pop? hk
    show ks.depth ≤ limits.maxCalls ∧ n.frames.depth ≤ ks.depth + 1
    omega
  have hadvance := advance_spec p limits f cursor m
  generalize m.advance p limits ⟨f, cursor⟩ = r at hadvance
  cases hadvance with
  | noFrame atEnd hl => exact ⟨hcalls, hframes⟩
  | spent inside hs => exact ⟨hcalls, hframes⟩
  | @finished n atEnd hl hk =>
    obtain ⟨hks, hdepth⟩ := depth_of_leave? hl
    show n.continuations.depth ≤ limits.maxCalls ∧ n.frames.depth ≤ n.continuations.depth + 1
    rw [hks]
    omega
  | returned atEnd hl hk hf => exact hreturn hl hk
  | callerLost atEnd hl hk hf => exact hreturn hl hk
  | refused inside hs he => exact callsWithin_of_skeleton (execute_skeleton_of_error he) hcounted
  | next inside hs he | stopped inside hs he | undefined inside hs he hf | tooDeep inside hs he hf hd =>
    exact callsWithin_of_skeleton (execute_skeleton he) hcounted
  | @called id back g n inside hs he hf hd =>
    obtain ⟨-, hframes⟩ := callsWithin_of_skeleton (execute_skeleton he) hcounted
    show n.continuations.depth + 1 ≤ limits.maxCalls ∧
      n.frames.depth + 1 ≤ n.continuations.depth + 1 + 1
    omega

/-- What one turn keeps, the last turn of a run too. -/
def Settled (limits : Limits) (m : Machine) : Prop :=
  m.stack.Within limits.maxStack ∧ CallsWithin limits.maxCalls m

theorem settled_of_advance (h : Settled limits m) (q : Position) :
    Settled limits (machineAfter (m.advance p limits q)) :=
  ⟨within_of_advance h.1 q, callsWithin_of_advance h.2 q⟩

theorem settled_of_proceed (h : Settled limits m) (turns : Nat) (q : Position) :
    Settled limits (m.proceed p limits turns q).machine := by
  refine proceed_induct (I := fun s => Settled limits s.2) (fun s hs => hs) ?_ ?_ turns h
  · intro s t hs ht
    have hnext : Settled limits (machineAfter (s.2.advance p limits s.1)) :=
      settled_of_advance hs s.1
    rw [show s.2.advance p limits s.1 = .running t.1 t.2 from ht] at hnext
    exact hnext
  · intro s fault? n hs ha
    have hnext : Settled limits (machineAfter (s.2.advance p limits s.1)) :=
      settled_of_advance hs s.1
    rw [ha] at hnext
    exact hnext

theorem settled_of_runWithin (limits : Limits) (args : List Cell) (sink : Output) (journal : Journal)
    (turns : Nat) :
    Settled limits ((fresh limits sink journal).runWithin p limits args turns).machine := by
  have hbegin : CallsWithin limits.maxCalls ((fresh limits sink journal).enter p.entryFunction) :=
    ⟨Nat.zero_le _, Nat.le_refl _⟩
  have hstored := (sideBySide_within limits limits.maxStack).storeArguments (p := p)
    (alike_of_hasRoom (hasRoom_fresh limits sink journal)) args
  unfold runWithin
  cases hn : storeArguments args.length args 0
    ((fresh limits sink journal).enter p.entryFunction) with
  | error cause n =>
    rw [hn] at hstored
    cases hstored with
    | error _ hleft =>
      exact ⟨hleft.stack.2, callsWithin_of_skeleton (storeArguments_skeleton_of_error hn) hbegin⟩
    | excused _ hex => exact hex.elim
  | ok _ entered =>
    rw [hn] at hstored
    cases hstored with
    | ok _ hentered =>
      have hcalls := callsWithin_of_skeleton (storeArguments_skeleton hn) hbegin
      exact settled_of_proceed ⟨hentered.stack.2, hcalls⟩ turns _

theorem withinLimits_of_settled (h : Settled limits m) : WithinLimits limits m := by
  obtain ⟨⟨-, hoperands⟩, hcalls, hframes⟩ := h
  exact ⟨hoperands, hcalls, by omega⟩

/-! ### Runs under two limits -/

/-- Outcomes that are the same in all that a limit of depth is not. -/
structure SameOutcome (o o' : Outcome) : Prop where
  ending : o.ending = o'.ending
  output : o.machine.sink = o'.machine.sink
  operands : o.machine.stack.cells = o'.machine.stack.cells
  frames : o.machine.frames = o'.machine.frames
  continuations : o.machine.continuations = o'.machine.continuations
  executed : o.machine.executed = o'.machine.executed

/-- A looser limit is the case of no further cells beneath the operands. -/
theorem sameOutcome_of_inStep {o o' : Outcome}
    (h : OutcomesInStep (Cause.DependsOn []) (Alike (OperandStack.IsUpon []) Eq Eq) o o')
    (hkind : o.ending.kind? ≠ some .stackOverflow) : SameOutcome o o' := by
  have hcells : ∀ {m n : Machine}, Alike (OperandStack.IsUpon []) Eq Eq m n →
      m.stack.cells = n.stack.cells := fun h => (Stack.eq_of_items h.stack.1).symm
  have hmachines : ∀ {m n : Machine} {e : Ending}, Alike (OperandStack.IsUpon []) Eq Eq m n →
      SameOutcome ⟨e, m⟩ ⟨e, n⟩ :=
    fun h => ⟨rfl, h.sink, hcells h, h.frames, h.continuations, h.executed⟩
  cases h with
  | unfinished halike => exact hmachines halike
  | excused _ _ hex =>
    rcases hex with hk | ⟨hne, -⟩
    · exact (hkind (congrArg some hk)).elim
    · exact (hne rfl).elim
  | @ended fault? m n halike =>
    cases fault? with
    | some fault => exact hmachines halike
    | none =>
      have htop : m.stack.top? = n.stack.top? := congrArg Stack.top? (hcells halike)
      unfold outcome
      rw [htop]
      exact hmachines halike

/-- Limits of depth hold in every state of a run: the number of turns can be any. They are otherwise
invisible. A run that has not ended in an overflow of a stack does the same under looser limits with
the same budget, after every number of turns and as a whole. -/
theorem depthLimits (p : Program) (args : List Cell) (sink : Output) (journal : Journal) :
    (∀ limits turns,
      WithinLimits limits ((fresh limits sink journal).runWithin p limits args turns).machine) ∧
    ∀ limits limits' : Limits, limits.budget = limits'.budget →
      limits.maxStack ≤ limits'.maxStack → limits.maxCalls ≤ limits'.maxCalls →
      (∀ turns,
        ((fresh limits sink journal).runWithin p limits args turns).ending.kind? ≠
          some .stackOverflow →
        SameOutcome ((fresh limits sink journal).runWithin p limits args turns)
          ((fresh limits' sink journal).runWithin p limits' args turns)) ∧
      (((fresh limits sink journal).run p limits args).ending.kind? ≠ some .stackOverflow →
        SameOutcome ((fresh limits sink journal).run p limits args)
          ((fresh limits' sink journal).run p limits' args)) := by
  refine ⟨?_, ?_⟩
  · intro limits turns
    exact withinLimits_of_settled (settled_of_runWithin limits args sink journal turns)
  · intro limits limits' hbudget hstack hcalls
    have hfresh : Alike (OperandStack.IsUpon []) Eq Eq (fresh limits sink journal)
        (fresh limits' sink journal) := ⟨⟨rfl, hstack⟩, rfl, rfl, rfl, rfl⟩
    have hside := sideBySide_isUpon [] hbudget hcalls
    rw [run_eq_runWithin, run_eq_runWithin, ← hfresh.turns hbudget]
    exact ⟨fun turns => sameOutcome_of_inStep (hside.runWithin hfresh args turns),
      sameOutcome_of_inStep (hside.runWithin hfresh args _)⟩

theorem depthLimits_oneCall :
    ((fresh { maxStack := 0, maxCalls := 1 } {} {}).runWithin oneCall
      { maxStack := 0, maxCalls := 1 } [.int 7] 4).ending = .value none ∧
    SameOutcome
      ((fresh { maxStack := 0, maxCalls := 1 } {} {}).runWithin oneCall
        { maxStack := 0, maxCalls := 1 } [.int 7] 4)
      ((fresh {} {} {}).runWithin oneCall {} [.int 7] 4) := by
  have hending : ((fresh { maxStack := 0, maxCalls := 1 } {} {}).runWithin oneCall
      { maxStack := 0, maxCalls := 1 } [.int 7] 4).ending = .value none := by decide +kernel
  obtain ⟨-, hlooser⟩ := depthLimits oneCall [.int 7] {} {}
  obtain ⟨hturns, -⟩ := hlooser { maxStack := 0, maxCalls := 1 } {} rfl (by decide) (by decide)
  exact ⟨hending, hturns 4 (by rw [hending]; decide)⟩

end Machine

end CellMachine
