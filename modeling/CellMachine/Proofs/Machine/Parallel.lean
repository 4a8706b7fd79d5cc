import CellMachine.Proofs.Machine.Endings

/-!
# Runs side by side

Two runs of a program on machines that differ in their operand stacks, their frames or their sinks, in
a way that a relation for each of these parts describes. Main statements: if changes of each part keep
its relation, then the two runs do the same turns and end alike, unless the first of them is refused
for a cause that is excused, and up to there the second has kept step with it. What is recorded makes
no difference. With relations of a part to itself this says what holds in every state of one run.
-/

namespace CellMachine

theorem Lockstep.same {ε σ α : Type} {excused : ε → Prop} (x : EStateM ε σ α) :
    Respects excused Eq x := by
  intro s t h
  subst h
  cases x s with
  | ok a s => exact .ok a rfl
  | error e s => exact .error e rfl

/-- What an operation keeps, refused or not, holds of two equal states that go through it together. -/
theorem Lockstep.of_invariant {ε σ α : Type} {excused : ε → Prop} {I : σ → Prop} {x : EStateM ε σ α}
    (h : ∀ s, I s → match x s with | .ok _ t | .error _ t => I t) :
    Respects excused (fun s t => s = t ∧ I s) x := by
  intro s t hst
  obtain ⟨rfl, hs⟩ := hst
  have hx := h s hs
  cases hr : x s with
  | ok a t =>
    rw [hr] at hx
    exact .ok a ⟨rfl, hx⟩
  | error e t =>
    rw [hr] at hx
    exact .error e ⟨rfl, hx⟩

/-- Results that are related, or refusals for the same cause or for one that is excused. -/
inductive Matched {ε α β : Type} (excused : ε → Prop) (R : α → β → Prop) :
    Except ε α → Except ε β → Prop
  | ok {a : α} {b : β} (h : R a b) : Matched excused R (.ok a) (.ok b)
  | error (e : ε) : Matched excused R (.error e) (.error e)
  | excused {e : ε} (r : Except ε β) (h : excused e) : Matched excused R (.error e) r

theorem Matched.same {ε α : Type} {excused : ε → Prop} (x : Except ε α) : Matched excused Eq x x := by
  cases x with
  | ok a => exact .ok rfl
  | error e => exact .error e

theorem Matched.mono {ε α β : Type} {excused excused' : ε → Prop} {R : α → β → Prop}
    {x : Except ε α} {y : Except ε β} (h : Matched excused R x y)
    (hex : ∀ e, excused e → excused' e) : Matched excused' R x y := by
  cases h with
  | ok h => exact .ok h
  | error e => exact .error e
  | excused _ h => exact .excused _ (hex _ h)

/-! ### Relations between parts -/

structure StacksKept (excused : Cause → Prop) (S : OperandStack → OperandStack → Prop) : Prop where
  push (c : Cell) : Respects excused S (OperandStack.push c)
  pop : Respects excused S OperandStack.pop
  popAs {α : Type} (tag : TypeTag) (value? : Cell → Option α) :
    Respects excused S (OperandStack.popAs tag value?)
  swap : Respects excused S OperandStack.swap

structure VariablesKept (excused : Cause → Prop) (F : FrameStack → FrameStack → Prop) : Prop where
  load {s t : FrameStack} (h : F s t) (scope : Scope) (type : ValueType) (slot : UInt16) :
    Matched excused Eq (s.load scope type slot) (t.load scope type slot)
  store {s t : FrameStack} (h : F s t) (scope : Scope) (slot : UInt16) (c : Cell) :
    Matched excused F (s.store scope slot c) (t.store scope slot c)

structure FramesKept (excused : Cause → Prop) (F : FrameStack → FrameStack → Prop) : Prop extends
    VariablesKept excused F where
  push {s t : FrameStack} (h : F s t) (function locals : UInt16) :
    F (s.push function locals) (t.push function locals)
  pop {s t : FrameStack} (h : F s t) :
    Option.Rel (fun x y => F x.2 y.2) s.pop? t.pop?

def SinksKept (excused : Cause → Prop) (K : Output → Output → Prop) : Prop :=
  ∀ pieces, Respects (fun reason => excused (.printRefused reason)) K (Output.print pieces)

theorem StacksKept.same (excused : Cause → Prop) : StacksKept excused Eq where
  push _ := .same _
  pop := .same _
  popAs _ _ := .same _
  swap := .same _

theorem FramesKept.same (excused : Cause → Prop) : FramesKept excused Eq where
  load h scope type slot := by
    subst h
    exact .same _
  store h scope slot c := by
    subst h
    exact .same _
  push h function locals := by rw [h]
  pop {s t} h := by
    subst h
    cases s.pop? with
    | none => exact .none
    | some x => exact .some rfl

theorem SinksKept.same (excused : Cause → Prop) : SinksKept excused Eq :=
  fun _ => .same _

namespace Machine

/-- Machines at the same place of a run, with related parts. -/
structure Alike (S : OperandStack → OperandStack → Prop) (F : FrameStack → FrameStack → Prop)
    (K : Output → Output → Prop) (m n : Machine) : Prop where
  stack : S m.stack n.stack
  frames : F m.frames n.frames
  continuations : m.continuations = n.continuations
  executed : m.executed = n.executed
  sink : K m.sink n.sink

/-- How the second of two runs goes if the first, from `s`, ends as it does: it ends alike, or has come
to the same position when the first ends for a cause that is excused. -/
inductive EndsInStep (excused : Cause → Prop) (R : Machine → Machine → Prop) (p : Program)
    (limits limits' : Limits) (s t : Position × Machine) (fault? : Option Fault) (m' : Machine) : Prop
  | alike {n' : Machine} (he : EndsAs p limits' t fault? n') (h : R m' n')
  | excused {q : Position} {m n : Machine} {cause : Cause} (first : Reaches p limits s (q, m))
    (second : Reaches p limits' t (q, n)) (h : R m n) (hc : excused cause)
    (last : m.advance p limits q =
      .ended (some (Fault.located cause q.function.id q.cursor)) m')
    (hf : fault? = some (Fault.located cause q.function.id q.cursor))

/-- What two runs come to in as many turns: the same, or the first ended for a cause that is excused. -/
inductive OutcomesInStep (excused : Cause → Prop) (R : Machine → Machine → Prop) :
    Outcome → Outcome → Prop
  | unfinished {m n : Machine} (h : R m n) :
    OutcomesInStep excused R ⟨.unfinished, m⟩ ⟨.unfinished, n⟩
  | ended (fault? : Option Fault) {m n : Machine} (h : R m n) :
    OutcomesInStep excused R (outcome fault? m) (outcome fault? n)
  | excused {fault : Fault} (m : Machine) (o : Outcome) (h : excused fault.cause) :
    OutcomesInStep excused R ⟨.fault fault, m⟩ o

theorem OutcomesInStep.machine {R : Machine → Machine → Prop} {o o' : Outcome}
    (h : OutcomesInStep (fun _ => False) R o o') : R o.machine o'.machine := by
  cases h with
  | unfinished h => exact h
  | ended fault? h => rwa [outcome_machine, outcome_machine]
  | excused _ _ h => exact h.elim

/-- What two runs side by side need: changes keep the relations, budgets are the same, and limits of
pending calls are the same too, or else the first is tighter and its faults are excused. -/
structure SideBySide (excused : Cause → Prop) (limits limits' : Limits)
    (S : OperandStack → OperandStack → Prop) (F : FrameStack → FrameStack → Prop)
    (K : Output → Output → Prop) : Prop where
  operands : StacksKept excused S
  frames : FramesKept excused F
  sinks : SinksKept excused K
  budget : limits.budget = limits'.budget
  calls : limits.maxCalls = limits'.maxCalls ∨
    excused (.callDepth limits.maxCalls) ∧ limits.maxCalls ≤ limits'.maxCalls

namespace SideBySide

variable {excused : Cause → Prop} {limits limits' : Limits}
  {S : OperandStack → OperandStack → Prop} {F : FrameStack → FrameStack → Prop}
  {K : Output → Output → Prop}

/-! ### One instruction -/

theorem onStack {α : Type} {x : OperandStack.Op α} (hx : Respects excused S x) :
    Respects excused (Alike S F K) (Machine.onStack x) := by
  intro m n h
  obtain ⟨stack, frames, continuations, executed, sink, journal⟩ := m
  obtain ⟨stack', frames', continuations', executed', sink', journal'⟩ := n
  have hr := hx _ _ h.stack
  simp only [Machine.onStack]
  generalize x stack = r at hr
  generalize x stack' = r' at hr
  cases hr with
  | ok a hs => exact .ok a ⟨hs, h.frames, h.continuations, h.executed, h.sink⟩
  | error e hs => exact .error e ⟨hs, h.frames, h.continuations, h.executed, h.sink⟩
  | excused r hex => exact .excused _ hex

theorem store {scope : Scope} {slot : UInt16} {c : Cell}
    (hF : ∀ {s t : FrameStack}, F s t → Matched excused F (s.store scope slot c) (t.store scope slot c)) :
    Respects excused (Alike S F K) (Machine.store scope slot c) := by
  intro m n hmn
  have hs := hF hmn.frames
  rw [store_eq, store_eq]
  generalize m.frames.store scope slot c = r at hs
  generalize n.frames.store scope slot c = r' at hs
  cases hs with
  | ok hf => exact .ok () ⟨hmn.stack, hf, hmn.continuations, hmn.executed, hmn.sink⟩
  | error cause => exact .error cause hmn
  | excused r hex => exact .excused _ hex

theorem kept_of_parts (hS : StacksKept excused S) (hF : VariablesKept excused F)
    (hK : SinksKept excused K) : Kept excused (Alike S F K) where
  push c := onStack (hS.push c)
  pop := onStack hS.pop
  popAs tag value? := onStack (hS.popAs tag value?)
  swap := onStack hS.swap
  load scope type slot := by
    intro m n hmn
    have hl := hF.load hmn.frames scope type slot
    unfold Machine.load
    generalize m.frames.load scope type slot = r at hl
    generalize n.frames.load scope type slot = r' at hl
    cases hl with
    | ok hc =>
      subst hc
      exact .ok _ hmn
    | error cause => exact .error cause hmn
    | excused r hex => exact .excused _ hex
  store scope slot c := store fun hst => hF.store hst scope slot c
  print pieces := by
    intro m n hmn
    obtain ⟨stack, frames, continuations, executed, sink, journal⟩ := m
    obtain ⟨stack', frames', continuations', executed', sink', journal'⟩ := n
    have hw := hK pieces _ _ hmn.sink
    simp only [Machine.print]
    generalize Output.print pieces sink = r at hw
    generalize Output.print pieces sink' = r' at hw
    cases hw with
    | ok _ hk => exact .ok () ⟨hmn.stack, hmn.frames, hmn.continuations, hmn.executed, hk⟩
    | error e hk => exact .error _ ⟨hmn.stack, hmn.frames, hmn.continuations, hmn.executed, hk⟩
    | excused r hex => exact .excused _ hex
  noted e _ := by
    intro m n hmn
    exact .ok () ⟨hmn.stack, hmn.frames, hmn.continuations, hmn.executed, hmn.sink⟩
  moment := by
    intro m n hmn
    unfold Machine.moment
    rw [hmn.executed]
    exact .ok _ hmn

theorem kept (h : SideBySide excused limits limits' S F K) : Kept excused (Alike S F K) :=
  kept_of_parts h.operands h.frames.toVariablesKept h.sinks

end SideBySide

/-! ### One turn -/

/-- Turns at a position that come to the same, or of which the first ends the run for a cause that is
excused. -/
inductive InStep (excused : Cause → Prop) (R : Machine → Machine → Prop) (q : Position) :
    Progress → Progress → Prop
  | running (q' : Position) {m n : Machine} (h : R m n) :
    InStep excused R q (.running q' m) (.running q' n)
  | ended (fault? : Option Fault) {m n : Machine} (h : R m n) :
    InStep excused R q (.ended fault? m) (.ended fault? n)
  | excused {cause : Cause} (m : Machine) (r : Progress) (h : excused cause) :
    InStep excused R q (.ended (some (Fault.located cause q.function.id q.cursor)) m) r

namespace Alike

variable {S : OperandStack → OperandStack → Prop} {F : FrameStack → FrameStack → Prop}
  {K : Output → Output → Prop} {m n : Machine}

theorem note (h : Alike S F K m n) (e e' : Event) : Alike S F K (m.note e) (n.note e') :=
  ⟨h.stack, h.frames, h.continuations, h.executed, h.sink⟩

theorem count (h : Alike S F K m n) :
    Alike S F K { m with executed := m.executed + 1 } { n with executed := n.executed + 1 } :=
  ⟨h.stack, h.frames, h.continuations, congrArg (· + 1) h.executed, h.sink⟩

theorem spent? (h : Alike S F K m n) {limits limits' : Limits}
    (hb : limits.budget = limits'.budget) : m.spent? limits = n.spent? limits' := by
  simp only [Machine.spent?, hb, h.executed]

theorem turns (h : Alike S F K m n) {limits limits' : Limits}
    (hb : limits.budget = limits'.budget) : m.turns limits = n.turns limits' := by
  simp only [Machine.turns, hb, h.executed, h.continuations]

end Alike

section Turn

variable {excused : Cause → Prop} {limits limits' : Limits}
  {S : OperandStack → OperandStack → Prop} {F : FrameStack → FrameStack → Prop}
  {K : Output → Output → Prop} {p : Program} {m n : Machine}

theorem leave_alike {F' : FrameStack → FrameStack → Prop} (hmn : Alike S F K m n)
    (hpop : Option.Rel (fun x y => F' x.2 y.2) m.frames.pop? n.frames.pop?) :
    Option.Rel (Alike S F' K) m.leave? n.leave? := by
  unfold leave?
  generalize m.frames.pop? = x at hpop
  generalize n.frames.pop? = y at hpop
  cases hpop with
  | none => exact .none
  | some hf => exact .some ⟨hmn.stack, hf, hmn.continuations, hmn.executed, hmn.sink⟩

theorem endCall_inStep (hmn : Alike S F K m n) (hleave : Option.Rel (Alike S F K) m.leave? n.leave?)
    (q : Position) :
    InStep excused (Alike S F K) q (m.endCall p q.function) (n.endCall p q.function) := by
  unfold endCall
  generalize m.leave? = x at hleave
  generalize n.leave? = y at hleave
  cases hleave with
  | none => exact .ended _ hmn
  | @some m' n' hmn' =>
    dsimp only
    rw [hmn'.continuations]
    cases n'.continuations.pop? with
    | none => exact .ended none hmn'
    | some x =>
      obtain ⟨k, ks⟩ := x
      have hback : Alike S F K { m' with continuations := ks } { n' with continuations := ks } :=
        ⟨hmn'.stack, hmn'.frames, rfl, hmn'.executed, hmn'.sink⟩
      dsimp only
      cases p.function k.caller with
      | error cause => exact .ended _ (hback.note _ _)
      | ok caller => exact .running _ (hback.note _ _)

variable (hpush : ∀ {s t : FrameStack}, F s t → ∀ function locals,
    F (s.push function locals) (t.push function locals))
  (hcalls : limits.maxCalls = limits'.maxCalls ∨
    excused (.callDepth limits.maxCalls) ∧ limits.maxCalls ≤ limits'.maxCalls)

include hpush hcalls

theorem beginCall_inStep (hmn : Alike S F K m n) (q : Position) (callee : UInt16) (back : Nat) :
    InStep excused (Alike S F K) q (m.beginCall p limits q.function q.cursor callee back)
      (n.beginCall p limits' q.function q.cursor callee back) := by
  unfold beginCall
  cases p.function callee with
  | error cause => exact .ended _ hmn
  | ok g =>
    have hdepth : m.continuations.depth = n.continuations.depth := by rw [hmn.continuations]
    dsimp only
    rw [hdepth]
    by_cases hd : limits.maxCalls ≤ n.continuations.depth
    · rw [if_pos hd]
      rcases hcalls with heq | ⟨hex, -⟩
      · rw [← heq, if_pos hd]
        exact .ended _ hmn
      · exact .excused _ _ hex
    · have hd' : ¬ limits'.maxCalls ≤ n.continuations.depth := by
        rcases hcalls with heq | ⟨-, hle⟩ <;> omega
      have hks : m.continuations.push ⟨back, q.function.id⟩ =
          n.continuations.push ⟨back, q.function.id⟩ := by rw [hmn.continuations]
      rw [if_neg hd, if_neg hd']
      exact .running _ ⟨hmn.stack, hpush hmn.frames g.id g.locals, hks, hmn.executed, hmn.sink⟩

/-- One turn of each of two machines, if the end of a call and the next instruction keep the
relation. -/
theorem advance_inStep (hb : limits.budget = limits'.budget) (hmn : Alike S F K m n) (q : Position)
    (hleave : Option.Rel (Alike S F K) m.leave? n.leave?)
    (hexecute : Agree excused (Alike S F K)
      (execute p q.function q.cursor { m with executed := m.executed + 1 })
      (execute p q.function q.cursor { n with executed := n.executed + 1 })) :
    InStep excused (Alike S F K) q (m.advance p limits q) (n.advance p limits' q) := by
  unfold advance
  split
  · exact endCall_inStep hmn hleave q
  rw [hmn.spent? hb]
  cases n.spent? limits' with
  | some budget => exact .ended _ hmn
  | none =>
    dsimp only
    unfold dispatch
    generalize execute p q.function q.cursor { m with executed := m.executed + 1 } = r at hexecute
    generalize execute p q.function q.cursor { n with executed := n.executed + 1 } = r' at hexecute
    cases hexecute with
    | error cause hmn' => exact .ended _ hmn'
    | excused r hex => exact .excused _ _ hex
    | ok flow hmn' =>
      cases flow with
      | next c => exact .running _ hmn'
      | call callee back => exact beginCall_inStep hpush hcalls hmn' q callee back
      | stop => exact .ended none hmn'

end Turn

namespace SideBySide

variable {excused : Cause → Prop} {limits limits' : Limits}
  {S : OperandStack → OperandStack → Prop} {F : FrameStack → FrameStack → Prop}
  {K : Output → Output → Prop} {p : Program} {m n : Machine}

section Turn

variable (h : SideBySide excused limits limits' S F K)

include h

theorem enter (hmn : Alike S F K m n) (f : Function) : Alike S F K (m.enter f) (n.enter f) :=
  ⟨hmn.stack, h.frames.push hmn.frames f.id f.locals, hmn.continuations, hmn.executed, hmn.sink⟩

theorem leave (hmn : Alike S F K m n) : Option.Rel (Alike S F K) m.leave? n.leave? :=
  leave_alike hmn (h.frames.pop hmn.frames)

/-- The step of the simulation: one turn of each, from machines with related parts. -/
theorem advance (hmn : Alike S F K m n) (q : Position) :
    InStep excused (Alike S F K) q (m.advance p limits q) (n.advance p limits' q) :=
  advance_inStep h.frames.push h.calls h.budget hmn q (h.leave hmn)
    (h.kept.execute p q.function q.cursor _ _ hmn.count)

/-! ### Whole runs -/

theorem turn {s t : Position × Machine} (ht : Turn p limits s t) (hs : Alike S F K s.2 n) :
    ∃ n', Turn p limits' (s.1, n) (t.1, n') ∧ Alike S F K t.2 n' := by
  have hr := h.advance (p := p) hs s.1
  have ha : s.2.advance p limits s.1 = .running t.1 t.2 := ht
  rw [ha] at hr
  generalize hb : n.advance p limits' s.1 = r at hr
  cases hr with
  | running q' hmn => exact ⟨_, .of_advance hb, hmn⟩

theorem reaches {s t : Position × Machine} (hr : Reaches p limits s t) (hs : Alike S F K s.2 n) :
    ∃ n', Reaches p limits' (s.1, n) (t.1, n') ∧ Alike S F K t.2 n' := by
  induction hr with
  | refl => exact ⟨n, .refl, hs⟩
  | tail _ ht ih =>
    obtain ⟨n₁, hr₁, h₁⟩ := ih
    obtain ⟨n₂, ht₂, h₂⟩ := h.turn ht h₁
    exact ⟨n₂, hr₁.tail ht₂, h₂⟩

/-- Runs side by side end alike, or the first of them ends for a cause that is excused. -/
theorem endsAs {q : Position} (hmn : Alike S F K m n) {fault? : Option Fault} {m' : Machine}
    (he : EndsAs p limits (q, m) fault? m') :
    EndsInStep excused (Alike S F K) p limits limits' (q, m) (q, n) fault? m' := by
  obtain ⟨⟨q₁, m₁⟩, hr, ha⟩ := he
  obtain ⟨n₁, hr', h₁⟩ := h.reaches hr hmn
  have hlast := h.advance (p := p) h₁ q₁
  dsimp only at ha hlast
  rw [ha] at hlast
  generalize hb : n₁.advance p limits' q₁ = r at hlast
  cases hlast with
  | ended _ hmn' => exact .alike ⟨_, hr', hb⟩ hmn'
  | excused _ _ hex => exact .excused hr hr' h₁ hex ha rfl

/-- The start of two runs side by side: both have stored the same arguments, or the first of them
could not for a cause that is excused. -/
theorem storeArguments (hmn : Alike S F K m n) (args : List Cell) :
    Agree excused (Alike S F K)
      (Machine.storeArguments args.length args 0 (m.enter p.entryFunction))
      (Machine.storeArguments args.length args 0 (n.enter p.entryFunction)) :=
  h.kept.storeArguments args.length args 0 _ _ (h.enter hmn p.entryFunction)

/-- A state of the first run has a counterpart in the second. -/
theorem visits {args : List Cell} (hmn : Alike S F K m n) {s : Position × Machine}
    (hv : Visits p limits args m s) :
    ∃ n', Visits p limits' args n (s.1, n') ∧ Alike S F K s.2 n' := by
  obtain ⟨entered, he, hr⟩ := hv
  have hstart := h.storeArguments (p := p) hmn args
  rw [he] at hstart
  generalize hn : Machine.storeArguments args.length args 0 (n.enter p.entryFunction) = r at hstart
  cases hstart with
  | ok _ hentered =>
    obtain ⟨n', hr', h'⟩ := h.reaches hr hentered
    exact ⟨n', ⟨_, hn, hr'⟩, h'⟩

theorem proceed (hmn : Alike S F K m n) (turns : Nat) (q : Position) :
    OutcomesInStep excused (Alike S F K) (m.proceed p limits turns q)
      (n.proceed p limits' turns q) := by
  induction turns generalizing m n q with
  | zero => exact .unfinished hmn
  | succ turns ih =>
    have hstep := h.advance (p := p) hmn q
    unfold Machine.proceed
    generalize m.advance p limits q = r at hstep
    generalize n.advance p limits' q = r' at hstep
    cases hstep with
    | running q' hmn' => exact ih hmn' q'
    | excused _ _ hex => exact .excused _ _ hex
    | ended fault? hmn' =>
      cases fault? with
      | none => exact .ended none hmn'
      | some fault => exact .ended (some fault) hmn'

theorem runWithin (hmn : Alike S F K m n) (args : List Cell) (turns : Nat) :
    OutcomesInStep excused (Alike S F K) (m.runWithin p limits args turns)
      (n.runWithin p limits' args turns) := by
  have hstart := h.storeArguments (p := p) hmn args
  unfold Machine.runWithin
  generalize Machine.storeArguments args.length args 0 (m.enter p.entryFunction) = r at hstart
  generalize Machine.storeArguments args.length args 0 (n.enter p.entryFunction) = r' at hstart
  cases hstart with
  | ok _ hentered => exact h.proceed hentered turns _
  | error cause hleft => exact .ended (some { cause }) hleft
  | excused _ hex => exact .excused _ _ hex

end Turn

end SideBySide

end Machine

end CellMachine
