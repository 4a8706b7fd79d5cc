import CellMachine.Stack
import CellMachine.Fault

/-!
# The operand stack

One bounded stack of cells serves all active calls. Cells keep their type: taking a cell at another
type is refused and leaves it where it is.
-/

namespace CellMachine

structure OperandStack where
  cells : Stack Cell
  /-- The greatest depth. -/
  limit : Nat

namespace OperandStack

def empty (limit : Nat) : OperandStack := ⟨Stack.empty, limit⟩

instance : Inhabited OperandStack := ⟨empty 0⟩

def depth (s : OperandStack) : Nat := s.cells.depth

def top? (s : OperandStack) : Option Cell := s.cells.top?

/-- A change of the stack that may be refused. What it did before it was refused stays done. -/
abbrev Op (α : Type) : Type := EStateM Cause OperandStack α

def push (c : Cell) : Op Unit := fun s =>
  if s.limit ≤ s.depth then .error (.stackLimit s.limit) s
  else .ok () { s with cells := s.cells.push c }

/-- Takes the top cell, whatever its type. -/
def pop : Op Cell := fun s =>
  match s.cells.pop? with
  | none => .error .popFromEmpty s
  | some (c, rest) => .ok c { s with cells := rest }

/-- Takes the top cell if it has a value of the type, which is called `tag`. -/
def popAs (tag : TypeTag) (value? : Cell → Option α) : Op α := fun s =>
  match s.cells.pop? with
  | none => .error (.popTypedFromEmpty tag) s
  | some (c, rest) =>
    match value? c with
    | none => .error (.wrongType tag c.tag) s
    | some value => .ok value { s with cells := rest }

def popTyped (tag : TypeTag) : Op Cell := popAs tag fun c => if c.tag = tag then some c else none

def popInt : Op Int64 := popAs .int Cell.int?

def popDouble : Op Float := popAs .double Cell.double?

def popText : Op Text := popAs .string Cell.text?

/-- Exchanges the two topmost cells. -/
def swap : Op Unit := fun s =>
  match s.cells.pop? with
  | none => .error (.swapNeedsTwo s.depth) s
  | some (upper, rest) =>
    match rest.pop? with
    | none => .error (.swapNeedsTwo s.depth) s
    | some (lower, rest) => .ok () { s with cells := (rest.push upper).push lower }

end OperandStack

end CellMachine
