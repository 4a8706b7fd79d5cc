import CellMachine.Proofs.Machine.Parallel

/-!
# Cells beneath the operands

All calls share one operand stack. Main statement: a run does the same with further cells beneath the
operands, and leaves them as they were, unless it ends because it misses operands or has no room. More
room makes no difference to a run that has enough.
-/

namespace CellMachine

namespace Stack

variable {α : Type} {s t : Stack α} {bottom : List α}

theorem depth_of_items (h : t.items = s.items ++ bottom) : t.depth = s.depth + bottom.length := by
  rw [t.depth_eq, s.depth_eq, h, List.length_append]

theorem pop?_of_items {item : α} {rest : Stack α} (h : t.items = s.items ++ bottom)
    (hp : s.pop? = some (item, rest)) :
    ∃ rest', t.pop? = some (item, rest') ∧ rest'.items = rest.items ++ bottom := by
  refine ⟨.ofList (rest.items ++ bottom), ?_, rfl⟩
  rw [pop?_eq_some_iff, h, pop?_eq_some_iff.1 hp]
  rfl

theorem eq_of_items (h : t.items = s.items ++ []) : t = s :=
  ext (h.trans (List.append_nil _))

end Stack

/-- A refusal for want of room, or of operands where there are further cells beneath. -/
def Cause.DependsOn (bottom : List Cell) (cause : Cause) : Prop :=
  cause.kind = .stackOverflow ∨ bottom ≠ [] ∧ cause.kind = .stackDiscipline

namespace OperandStack

/-- The stack with further cells beneath, which do not count against its limit. -/
def upon (s : OperandStack) (bottom : List Cell) : OperandStack :=
  ⟨.ofList (s.cells.items ++ bottom), s.limit + bottom.length⟩

/-- The second stack has further cells beneath, and at least as much room. -/
def IsUpon (bottom : List Cell) (s t : OperandStack) : Prop :=
  t.cells.items = s.cells.items ++ bottom ∧ s.limit + bottom.length ≤ t.limit

theorem isUpon_upon (s : OperandStack) (bottom : List Cell) : IsUpon bottom s (s.upon bottom) :=
  ⟨rfl, Nat.le_refl _⟩

theorem top?_of_isUpon {bottom : List Cell} {s t : OperandStack} (h : IsUpon bottom s t) :
    t.top? = if s.cells.items = [] then bottom.head? else s.top? := by
  have hitems := h.1
  unfold top? Stack.top?
  rw [hitems]
  cases s.cells.items with
  | nil => rfl
  | cons c rest => rfl

/-- What misses an operand is refused in both cases if there are no further cells. -/
theorem agree_of_missing {α : Type} {bottom : List Cell} {s t : OperandStack} (h : IsUpon bottom s t)
    {cause : Cause} (hk : cause.kind = .stackDiscipline) {r : EStateM.Result Cause OperandStack α}
    (hr : t.cells = s.cells → r = .error cause t) :
    Agree (Cause.DependsOn bottom) (IsUpon bottom) (.error cause s : EStateM.Result _ _ α) r := by
  by_cases hb : bottom = []
  · subst hb
    rw [hr (Stack.eq_of_items h.1)]
    exact .error cause h
  · exact .excused r (.inr ⟨hb, hk⟩)

/-- No operation looks beneath the cells it needs. -/
theorem stacksKept_isUpon (bottom : List Cell) :
    StacksKept (Cause.DependsOn bottom) (IsUpon bottom) where
  push c := by
    intro s t h
    obtain ⟨hitems, hlimit⟩ := h
    have hdepth : t.depth = s.depth + bottom.length := Stack.depth_of_items hitems
    unfold push
    -- Only here the limits matter. Where the second stack has no room, the first has none either.
    by_cases hfull : s.limit ≤ s.depth
    · rw [if_pos hfull]
      exact .excused _ (.inl rfl)
    · have hfull' : ¬ t.limit ≤ t.depth := by omega
      rw [if_neg hfull, if_neg hfull']
      exact .ok () ⟨congrArg (c :: ·) hitems, hlimit⟩
  pop := by
    intro s t h
    unfold pop
    cases hp : s.cells.pop? with
    | none =>
      refine agree_of_missing h rfl fun hcells => ?_
      rw [hcells, hp]
    | some r =>
      obtain ⟨rest, hp', hrest⟩ := Stack.pop?_of_items h.1 hp
      rw [hp']
      exact .ok _ ⟨hrest, h.2⟩
  popAs tag value? := by
    intro s t h
    unfold popAs
    cases hp : s.cells.pop? with
    | none =>
      refine agree_of_missing h rfl fun hcells => ?_
      rw [hcells, hp]
    | some r =>
      obtain ⟨c, rest⟩ := r
      obtain ⟨rest', hp', hrest⟩ := Stack.pop?_of_items h.1 hp
      rw [hp']
      dsimp only
      cases value? c with
      | none => exact .error _ h
      | some a => exact .ok a ⟨hrest, h.2⟩
  swap := by
    intro s t h
    have hmissing : t.cells = s.cells → t.depth = s.depth := fun hcells => congrArg Stack.depth hcells
    unfold swap
    cases hp : s.cells.pop? with
    | none =>
      refine agree_of_missing h rfl fun hcells => ?_
      rw [hmissing hcells, hcells, hp]
    | some r =>
      obtain ⟨upper, rest⟩ := r
      obtain ⟨rest', hp', hrest⟩ := Stack.pop?_of_items h.1 hp
      dsimp only
      cases hq : rest.pop? with
      | none =>
        refine agree_of_missing h rfl fun hcells => ?_
        rw [hmissing hcells, hcells, hp]
        dsimp only
        rw [hq]
      | some r =>
        obtain ⟨lower, below⟩ := r
        obtain ⟨below', hq', hbelow⟩ := Stack.pop?_of_items hrest hq
        rw [hp']
        dsimp only
        rw [hq']
        refine .ok () ⟨?_, h.2⟩
        simp only [Stack.items_push, hbelow, List.cons_append]

end OperandStack

namespace Machine

variable {p : Program} {limits : Limits} {m n : Machine}

/-! ### The instructions of a run -/

/-- Where the instructions stand that are executed in so many turns, one after the other. The last one
may be refused. -/
def dispatched (p : Program) (limits : Limits) : (turns : Nat) → Position → Machine → List Position
  | 0, _, _ => []
  | turns + 1, q, m =>
    let later := match m.advance p limits q with
      | .running q' m' => dispatched p limits turns q' m'
      | .ended _ _ => []
    if q.function.code.size ≤ q.cursor ∨ m.spent? limits ≠ none then later else q :: later

def instructions (p : Program) (limits : Limits) (args : List Cell) (m : Machine) : List Position :=
  match storeArguments args.length args 0 (m.enter p.entryFunction) with
  | .error _ _ => []
  | .ok () m => m.dispatched p limits (m.turns limits) ⟨p.entryFunction, 0⟩

namespace SideBySide

variable {excused : Cause → Prop} {limits' : Limits} {S : OperandStack → OperandStack → Prop}
  {F : FrameStack → FrameStack → Prop} {K : Output → Output → Prop}

theorem dispatched (h : SideBySide excused limits limits' S F K) (hmn : Alike S F K m n) (turns : Nat)
    (q : Position)
    (hends : ∀ fault, (m.proceed p limits turns q).ending = .fault fault → ¬ excused fault.cause) :
    m.dispatched p limits turns q = n.dispatched p limits' turns q := by
  induction turns generalizing m n q with
  | zero => rfl
  | succ turns ih =>
    have hstep := h.advance (p := p) hmn q
    unfold Machine.dispatched
    rw [hmn.spent? h.budget]
    cases ha : m.advance p limits q with
    | running q' m' =>
      have hp : m.proceed p limits (turns + 1) q = m'.proceed p limits turns q' :=
        proceed_succ_of_turn (Turn.of_advance ha) turns
      rw [ha] at hstep
      rw [hp] at hends
      generalize n.advance p limits' q = r at hstep
      cases hstep with
      | running _ hmn' => simp only [ih hmn' q' hends]
    | ended fault? m' =>
      rw [ha] at hstep
      rw [proceed_succ_of_ended ha] at hends
      generalize n.advance p limits' q = r at hstep
      cases hstep with
      | ended _ hmn' => rfl
      | excused _ _ hex => exact (hends _ rfl hex).elim

theorem instructions (h : SideBySide excused limits limits' S F K) (hmn : Alike S F K m n)
    (args : List Cell)
    (hends : ∀ fault, (m.run p limits args).ending = .fault fault → ¬ excused fault.cause) :
    m.instructions p limits args = n.instructions p limits' args := by
  have hstart := h.storeArguments (p := p) hmn args
  unfold run at hends
  unfold Machine.instructions
  generalize Machine.storeArguments args.length args 0 (m.enter p.entryFunction) = r at hstart hends
  generalize Machine.storeArguments args.length args 0 (n.enter p.entryFunction) = r' at hstart
  cases hstart with
  | error _ hleft => rfl
  | excused _ hex => exact (hends _ rfl hex).elim
  | @ok _ entered entered' hentered =>
    have hsame := h.dispatched (p := p) hentered (entered.turns limits) ⟨p.entryFunction, 0⟩ hends
    dsimp only
    rw [hsame, hentered.turns h.budget]

end SideBySide

/-! ### Runs upon further cells -/

theorem sideBySide_isUpon (bottom : List Cell) {limits' : Limits}
    (hbudget : limits.budget = limits'.budget) (hcalls : limits.maxCalls ≤ limits'.maxCalls) :
    SideBySide (Cause.DependsOn bottom) limits limits' (OperandStack.IsUpon bottom) Eq Eq where
  operands := OperandStack.stacksKept_isUpon bottom
  frames := .same _
  sinks := .same _
  budget := hbudget
  calls := .inr ⟨.inl rfl, hcalls⟩

/-- The machine with further cells beneath its operands. -/
def upon (m : Machine) (bottom : List Cell) : Machine := { m with stack := m.stack.upon bottom }

theorem alike_upon (m : Machine) (bottom : List Cell) :
    Alike (OperandStack.IsUpon bottom) Eq Eq m (m.upon bottom) :=
  ⟨m.stack.isUpon_upon bottom, rfl, rfl, rfl, rfl⟩

/-- Outcomes of two runs, the second upon further cells. -/
structure OutcomeUpon (bottom : List Cell) (o o' : Outcome) : Prop where
  ending : (∃ fault, o.ending = .fault fault ∧ o'.ending = .fault fault) ∨
    ∃ top, o.ending = .value top ∧
      o'.ending = .value (if o.machine.stack.cells.items = [] then bottom.head? else top)
  operands : o'.machine.stack.cells.items = o.machine.stack.cells.items ++ bottom
  output : o'.machine.sink = o.machine.sink
  frames : o'.machine.frames = o.machine.frames
  continuations : o'.machine.continuations = o.machine.continuations
  executed : o'.machine.executed = o.machine.executed

theorem outcomeUpon_of_inStep {bottom : List Cell} {o o' : Outcome}
    (h : OutcomesInStep (Cause.DependsOn bottom) (Alike (OperandStack.IsUpon bottom) Eq Eq) o o')
    (hfinished : o.ending ≠ .unfinished)
    (hends : ∀ fault, o.ending = .fault fault → ¬ fault.cause.DependsOn bottom) :
    OutcomeUpon bottom o o' := by
  have hmachines : ∀ {m m' : Machine} {e e' : Ending}, Alike (OperandStack.IsUpon bottom) Eq Eq m m' →
      ((∃ fault, e = .fault fault ∧ e' = .fault fault) ∨ ∃ top, e = .value top ∧
        e' = .value (if m.stack.cells.items = [] then bottom.head? else top)) →
      OutcomeUpon bottom ⟨e, m⟩ ⟨e', m'⟩ :=
    fun h he => ⟨he, h.stack.1, h.sink.symm, h.frames.symm, h.continuations.symm, h.executed.symm⟩
  cases h with
  | unfinished halike => exact (hfinished rfl).elim
  | excused _ _ hex => exact (hends _ rfl hex).elim
  | @ended fault? m n halike =>
    cases fault? with
    | some fault => exact hmachines halike (.inl ⟨fault, rfl, rfl⟩)
    | none =>
      refine hmachines halike (.inr ⟨_, rfl, ?_⟩)
      rw [OperandStack.top?_of_isUpon halike.stack]

/-- A run, on whatever machine, does not touch the cells beneath those that it needs. With any cells
beneath the operands it executes the same instructions and comes to the same, upon these cells. What it
gives is the topmost of them only if nothing lies above. -/
theorem run_upon (p : Program) {limits : Limits} {budget : Nat} (hb : limits.budget = some budget)
    (args : List Cell) (m : Machine) (bottom : List Cell)
    (hdiscipline : (m.run p limits args).ending.kind? ≠ some .stackDiscipline)
    (hoverflow : (m.run p limits args).ending.kind? ≠ some .stackOverflow) :
    (m.upon bottom).instructions p limits args = m.instructions p limits args ∧
      OutcomeUpon bottom (m.run p limits args) ((m.upon bottom).run p limits args) := by
  have hside := sideBySide_isUpon bottom (Eq.refl limits.budget) (Nat.le_refl limits.maxCalls)
  have hupon := alike_upon m bottom
  have hends : ∀ fault, (m.run p limits args).ending = .fault fault →
      ¬ fault.cause.DependsOn bottom := by
    intro fault hf hcause
    rw [hf] at hdiscipline hoverflow
    rcases hcause with hk | ⟨-, hk⟩
    · exact hoverflow (congrArg some hk)
    · exact hdiscipline (congrArg some hk)
  refine ⟨(hside.instructions hupon args hends).symm, ?_⟩
  have hfinished : (m.run p limits args).ending ≠ .unfinished := run_finishes hb
  rw [run_eq_runWithin] at hends hfinished ⊢
  rw [run_eq_runWithin, ← hupon.turns rfl]
  exact outcomeUpon_of_inStep (hside.runWithin hupon args _) hfinished hends

def pushesAndPops : Program := .single 0 ⟨#[(Opcode.one .int).tag, Opcode.pop.tag]⟩

theorem run_upon_pushesAndPops :
    ((fresh {} {} {}).run pushesAndPops { budget := some 9 } []).ending = .value none ∧
      (((fresh {} {} {}).upon [.int 5]).run pushesAndPops { budget := some 9 } []).ending =
        .value (some (.int 5)) ∧
      OutcomeUpon [.int 5] ((fresh {} {} {}).run pushesAndPops { budget := some 9 } [])
        (((fresh {} {} {}).upon [.int 5]).run pushesAndPops { budget := some 9 } []) := by
  have hending : ((fresh {} {} {}).run pushesAndPops { budget := some 9 } []).ending = .value none := by
    decide +kernel
  refine ⟨hending, by decide +kernel, ?_⟩
  exact (run_upon pushesAndPops rfl [] (fresh {} {} {}) [.int 5] (by rw [hending]; decide)
    (by rw [hending]; decide)).2

end Machine

end CellMachine
