import CellMachine.Frame
import CellMachine.Journal
import CellMachine.OperandStack
import CellMachine.Program
import CellMachine.Sink

/-!
# The machine

The state of an execution, and changes of it that may be refused. What a refused change did before
it was refused stays done.
-/

namespace CellMachine

/-- What one run may use: operand cells, pending calls and, if it is bounded, instructions. -/
structure Limits where
  maxStack : Nat := 1048576
  maxCalls : Nat := 65536
  budget : Option Nat := none
deriving DecidableEq, Repr, Inhabited

/-- Where a call goes on when the function it called has ended. -/
structure Continuation where
  cursor : Nat
  caller : UInt16
deriving DecidableEq, Repr, Inhabited

structure Machine where
  stack : OperandStack
  frames : FrameStack
  continuations : Stack Continuation
  /-- Instructions executed so far. -/
  executed : Nat
  sink : Output
  journal : Journal
deriving Inhabited

namespace Machine

/-- A machine that has not run yet. -/
def fresh (limits : Limits) (sink : Output) (journal : Journal) : Machine where
  stack := OperandStack.empty limits.maxStack
  frames := FrameStack.empty
  continuations := Stack.empty
  executed := 0
  sink := sink
  journal := journal

/-- A change of the machine that may be refused. -/
abbrev Op (α : Type) : Type := EStateM Cause Machine α

/-! ### Changes of one part -/

@[inline]
def onStack (op : OperandStack.Op α) : Op α := fun m =>
  match m with
  | ⟨stack, frames, continuations, executed, sink, journal⟩ =>
    match op stack with
    | .ok value stack => .ok value ⟨stack, frames, continuations, executed, sink, journal⟩
    | .error cause stack => .error cause ⟨stack, frames, continuations, executed, sink, journal⟩

def load (scope : Scope) (t : ValueType) (slot : UInt16) : Op Cell := fun m =>
  match m.frames.load scope t slot with
  | .ok c => .ok c m
  | .error cause => .error cause m

def store (scope : Scope) (slot : UInt16) (c : Cell) : Op Unit := fun m =>
  match m.frames.checkSlot scope slot with
  | .error cause => .error cause m
  | .ok () =>
    match m with
    | ⟨stack, frames, continuations, executed, sink, journal⟩ =>
      .ok () ⟨stack, frames.write scope slot c, continuations, executed, sink, journal⟩

/-- Reads a variable of the top frame by its index among the first four. -/
def loadCached (t : ValueType) (index : UInt16) : Op Cell := fun m =>
  match m.frames.loadCached t.tag index with
  | .ok c => .ok c m
  | .error cause => .error cause m

def storeCached (index : UInt16) (c : Cell) : Op Unit := store .top index c

def print (pieces : List (List UInt8)) : Op Unit := fun m =>
  match m with
  | ⟨stack, frames, continuations, executed, sink, journal⟩ =>
    match Output.print pieces sink with
    | .ok () sink => .ok () ⟨stack, frames, continuations, executed, sink, journal⟩
    | .error reason sink =>
      .error (.printRefused reason) ⟨stack, frames, continuations, executed, sink, journal⟩

@[inline]
def note (m : Machine) (e : Event) : Machine := { m with journal := m.journal.record e }

/-- Records an event, which may tell something of the machine. -/
@[inline]
def noted (e : Machine → Event) : Op Unit := fun m => .ok () (m.note (e m))

/-- The count of executed instructions. -/
@[inline]
def moment : Op Nat := fun m => .ok m.executed m

/-- What does not change the machine but may be refused. -/
@[inline]
def lookup (found : Except Cause α) : Op α := fun m =>
  match found with
  | .ok value => .ok value m
  | .error cause => .error cause m

/-! ### Calls -/

def enter (m : Machine) (f : Function) : Machine :=
  let invocation := m.frames.next
  let entered := { m with frames := m.frames.push f.id f.locals }
  entered.note (.pushFrame f.id invocation f.locals.toNat entered.frames.depth)

/-- Ends the innermost call, if there is one. -/
def leave? (m : Machine) : Option Machine :=
  match m.frames.pop? with
  | none => none
  | some (f, frames) =>
    some ({ m with frames }.note (.popFrame f.function f.invocation frames.depth))

end Machine

end CellMachine
