import CellMachine.Machine.Step

/-!
# Runs

A run is a loop over a position in the program. Calls do not nest: a call leaves a continuation on a
stack of its own, and a function that has come to the end of its code resumes the topmost one. A
machine can run again; whatever an earlier run left stays beneath.
-/

namespace CellMachine

/-- The next instruction. A cursor at the end of the code means that the function has ended. -/
structure Position where
  function : Function
  cursor : Nat

inductive Progress
  | running (position : Position) (m : Machine)
  | ended (fault? : Option Fault) (m : Machine)

/-- How a run ended: with the top of the operand stack, with a fault, or not within the turns it was
given. -/
inductive Ending
  | value (top : Option Cell)
  | fault (f : Fault)
  | unfinished
deriving DecidableEq

structure Outcome where
  ending : Ending
  machine : Machine

namespace Machine

def beginCall (p : Program) (limits : Limits) (f : Function) (cursor : Nat) (callee : UInt16)
    (back : Nat) (m : Machine) : Progress :=
  match p.function callee with
  | .error cause => .ended (some (Fault.located cause f.id cursor)) m
  | .ok g =>
    if limits.maxCalls ≤ m.continuations.depth then
      .ended (some (Fault.located (.callDepth limits.maxCalls) f.id cursor)) m
    else
      let m := m.note (.call f.id g.id g.name)
      let m := { m with continuations := m.continuations.push ⟨back, f.id⟩ }
      .running ⟨g, 0⟩ (m.enter g)

/-- The end of `f`: its frame goes, and the function that called it goes on, if one did. -/
def endCall (p : Program) (f : Function) (m : Machine) : Progress :=
  match m.leave? with
  | none => .ended (some { cause := .noFrameToPop }) m
  | some m =>
    match m.continuations.pop? with
    | none => .ended none m
    | some (k, continuations) =>
      let m := { m with continuations }.note (.ret f.id k.caller k.cursor)
      match p.function k.caller with
      | .ok caller => .running ⟨caller, k.cursor⟩ m
      | .error cause => .ended (some { cause }) m

def spent? (limits : Limits) (m : Machine) : Option Nat :=
  match limits.budget with
  | some budget => if budget ≤ m.executed then some budget else none
  | none => none

def dispatch (p : Program) (limits : Limits) (f : Function) (cursor : Nat) (m : Machine) : Progress :=
  match execute p f cursor { m with executed := m.executed + 1 } with
  | .error cause m => .ended (some (Fault.located cause f.id cursor)) m
  | .ok (.next cursor) m => .running ⟨f, cursor⟩ m
  | .ok (.call callee back) m => m.beginCall p limits f cursor callee back
  | .ok .stop m => .ended none m

def advance (p : Program) (limits : Limits) (position : Position) (m : Machine) : Progress :=
  -- The end of a function is no instruction and needs no budget.
  if position.function.code.size ≤ position.cursor then m.endCall p position.function
  else
    match m.spent? limits with
    | some budget =>
      .ended (some (Fault.located (.budgetSpent budget) position.function.id position.cursor)) m
    | none => m.dispatch p limits position.function position.cursor

/-- Turns until the run ends, at most as many as given. -/
def proceed (p : Program) (limits : Limits) : (turns : Nat) → Position → Machine → Outcome
  | 0, _, m => ⟨.unfinished, m⟩
  | turns + 1, position, m =>
    match m.advance p limits position with
    | .running position m => proceed p limits turns position m
    | .ended none m => ⟨.value m.stack.top?, m⟩
    | .ended (some fault) m => ⟨.fault fault, m⟩

/-- Turns of a run without a budget, which would take longer than any machine lasts. -/
def unboundedTurns : Nat := Nat.pow 2 62

def turns (limits : Limits) (m : Machine) : Nat :=
  match limits.budget with
  -- An instruction uses one unit of budget and adds at most one continuation, the end of a function
  -- removes one, and the last turn ends the run.
  | some budget => 2 * (budget - m.executed) + m.continuations.depth + 1
  | none => unboundedTurns

/-- Stores arguments into the variables of the top frame, from `slot` on. -/
def storeArguments (count : Nat) : (args : List Cell) → (slot : Nat) → Op Unit
  | [], _ => pure ()
  | c :: args, slot =>
    if slot < UInt16.size then do
      store .top (UInt16.ofNat slot) c
      storeArguments count args (slot + 1)
    else throw (.tooManyArguments count)

def run (p : Program) (limits : Limits) (args : List Cell) (m : Machine) : Outcome :=
  match storeArguments args.length args 0 (m.enter p.entryFunction) with
  | .error cause m => ⟨.fault { cause }, m⟩
  | .ok () m => m.proceed p limits (m.turns limits) ⟨p.entryFunction, 0⟩

end Machine

/-! ### Executions -/

structure Execution where
  ending : Ending
  /-- Instructions executed. -/
  executed : Nat
  sink : Output
  journal : Journal

def Program.execute (p : Program) (limits : Limits) (args : List Cell) (sink : Output)
    (journal : Journal) : Execution :=
  let started := journal.record (.runStart p.functions.size p.natives.size)
  let outcome := (Machine.fresh limits sink started).run p limits args
  let executed := outcome.machine.executed
  let journal := outcome.machine.journal
  match Output.flush outcome.machine.sink, outcome.ending with
  | .ok () sink, .value top => ⟨.value top, executed, sink, journal.record (.runFinished executed)⟩
  | .error reason sink, .value _ => ⟨.fault { cause := .flushRefused reason }, executed, sink, journal⟩
  | .ok () sink, .fault fault | .error _ sink, .fault fault =>
    ⟨.fault fault, executed, sink, journal.record (.runAborted fault executed)⟩
  | .ok () sink, .unfinished | .error _ sink, .unfinished => ⟨.unfinished, executed, sink, journal⟩

end CellMachine
