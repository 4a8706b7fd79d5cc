import CellMachine.Arithmetic
import CellMachine.Machine
import CellMachine.Native

/-!
# One instruction

`execute` carries out the instruction at a cursor and says how control goes on. Every instruction reads
its own operand, field by field, and goes on behind the last field that it read. Instructions that
compare keep what they compare: they take both operands and put them back.
-/

namespace CellMachine

namespace OperandStack

def doubleOp (o : DoubleOp) : Op Unit := do
  let upper ← popDouble
  let lower ← popDouble
  push (.double (o.apply lower upper))

def intOp (o : IntOp) : Op Unit := do
  let upper ← popInt
  let lower ← popInt
  match o.apply lower upper with
  | .ok n => push (.int n)
  | .error cause => throw cause

def negate : Numeric → Op Unit
  | .double => do
    let d ← popDouble
    push (.double (-d))
  | .int => do
    let n ← popInt
    push (.int (-n))

/-- A double becomes the nearest integer toward zero that there is, and NaN becomes 0. A text
becomes 1 unless it is empty. -/
def convert : Conversion → Op Unit
  | .intToDouble => do
    let n ← popInt
    push (.double n.toFloat)
  | .doubleToInt => do
    let d ← popDouble
    push (.int d.toInt64)
  | .textToInt => do
    let t ← popText
    push (.int (if t.isEmpty then 0 else 1))

/-- The two topmost integers, which stay where they are. -/
def peekInts : Op (Int64 × Int64) := do
  let upper ← popInt
  let lower ← popInt
  push (.int lower)
  push (.int upper)
  return (lower, upper)

/-- The two topmost doubles, which stay where they are. -/
def peekDoubles : Op (Float × Float) := do
  let upper ← popDouble
  let lower ← popDouble
  push (.double lower)
  push (.double upper)
  return (lower, upper)

def compare : Numeric → Op Unit
  | .double => do
    let (lower, upper) ← peekDoubles
    push (.int (compareDoubles lower upper))
  | .int => do
    let (lower, upper) ← peekInts
    push (.int (compareInts lower upper))

end OperandStack

/-- How control goes on after an instruction: at a cursor of the same function, with a call that will
come back to a cursor, or not at all. -/
inductive Flow
  | next (cursor : Nat)
  | call (function : UInt16) (back : Nat)
  | stop
deriving DecidableEq, Repr

/-- How control goes on, seen from the cursor that an instruction leaves behind. -/
inductive Control
  | next
  | call (function : UInt16)
  | stop
deriving DecidableEq, Repr

def Control.flow (cursor : Nat) : Control → Flow
  | .next => .next cursor
  | .call function => .call function cursor
  | .stop => .stop

namespace Machine

/-! ### Operands -/

/-- A change of the machine that also moves a cursor in the code. -/
abbrev CursorOp (α : Type) : Type := StateT Nat Op α

/-- Reads a field of an operand and moves behind it. -/
def readField (code : Code) (width : Nat) (read : Nat → Option α) : CursorOp α := fun pos => do
  let value ← lookup (code.field width pos (read pos))
  return (value, pos + width)

def readUInt16 (code : Code) : CursorOp UInt16 := readField code 2 code.uint16?

def readInt16 (code : Code) : CursorOp Int16 := readField code 2 code.int16?

def readInt64 (code : Code) : CursorOp Int64 := readField code 8 code.int64?

def readDouble (code : Code) : CursorOp Float := do
  let bits ← readField code 8 code.uint64?
  return Float.ofBits bits

/-- Where a jump goes, counted from the end of the jump. The end of the code is a target too. -/
def jumpTarget (code : Code) (start : Nat) (offset : Int16) : Except Cause Nat :=
  let target : Int := start + offset.toInt
  if 0 ≤ target ∧ target ≤ code.size then .ok target.toNat
  else .error (.jumpOutside target code.size)

def jumpBy (code : Code) (offset : Int16) : CursorOp Unit := fun pos => do
  let target ← lookup (jumpTarget code pos offset)
  return ((), target)

/-! ### Effects -/

/-- Takes the top value of a type and prints it. -/
def printTop (t : ValueType) : Op Unit := do
  let c ← onStack (OperandStack.popTyped t.tag)
  print c.pieces

def pushVariable (scope : Scope) (t : ValueType) (slot : UInt16) : Op Unit := do
  let c ← load scope t slot
  onStack (OperandStack.push c)

def popVariable (scope : Scope) (t : ValueType) (slot : UInt16) : Op Unit := do
  let c ← onStack (OperandStack.popTyped t.tag)
  store scope slot c

def pushCached (t : ValueType) (index : UInt16) : Op Unit := do
  let c ← loadCached t index
  onStack (OperandStack.push c)

def popCached (t : ValueType) (index : UInt16) : Op Unit := do
  let c ← onStack (OperandStack.popTyped t.tag)
  storeCached index c

def callNative (p : Program) (id : UInt16) : Op Unit := do
  let native ← lookup (p.native id)
  let (code, registers) ← onStack native.prepare
  noted fun _ => .nativeCall native.name
  let moment ← moment
  onStack (native.deliver (code { registers with moment }))

/-! ### Instructions -/

/-- Carries out an instruction whose tag has been read. -/
def carryOut (p : Program) (f : Function) : Opcode → CursorOp Control
  | .invalid => throw .invalidInstruction
  | .literal .double => do
    let d ← readDouble f.code
    onStack (OperandStack.push (.double d))
    return .next
  | .literal .int => do
    let n ← readInt64 f.code
    onStack (OperandStack.push (.int n))
    return .next
  | .literal .text => do
    let id ← readUInt16 f.code
    let t ← lookup (p.constant id)
    onStack (OperandStack.push (.text t))
    return .next
  | .zero t => do
    onStack (OperandStack.push (Cell.zero t))
    return .next
  | .one .double => do
    onStack (OperandStack.push (.double 1.0))
    return .next
  | .one .int => do
    onStack (OperandStack.push (.int 1))
    return .next
  | .minusOne .double => do
    onStack (OperandStack.push (.double (-1.0)))
    return .next
  | .minusOne .int => do
    onStack (OperandStack.push (.int (-1)))
    return .next
  | .doubleOp o => do
    onStack (OperandStack.doubleOp o)
    return .next
  | .intOp o => do
    onStack (OperandStack.intOp o)
    return .next
  | .negate n => do
    onStack (OperandStack.negate n)
    return .next
  | .print t => do
    printTop t
    return .next
  | .convert c => do
    onStack (OperandStack.convert c)
    return .next
  | .swap => do
    onStack OperandStack.swap
    return .next
  | .pop => do
    let _ ← onStack OperandStack.pop
    return .next
  | .loadShort t index => do
    pushCached t (UInt16.ofNat index.val)
    return .next
  | .storeShort t index => do
    popCached t (UInt16.ofNat index.val)
    return .next
  | .load t => do
    let slot ← readUInt16 f.code
    pushVariable .top t slot
    return .next
  | .store t => do
    let slot ← readUInt16 f.code
    popVariable .top t slot
    return .next
  | .loadContext t => do
    let context ← readUInt16 f.code
    let slot ← readUInt16 f.code
    pushVariable (.context context) t slot
    return .next
  | .storeContext t => do
    let context ← readUInt16 f.code
    let slot ← readUInt16 f.code
    popVariable (.context context) t slot
    return .next
  | .compare n => do
    onStack (OperandStack.compare n)
    return .next
  | .jump => do
    let offset ← readInt16 f.code
    jumpBy f.code offset
    return .next
  | .jumpIf c => do
    let offset ← readInt16 f.code
    let (lower, upper) ← onStack OperandStack.peekInts
    if c.holds lower upper then jumpBy f.code offset
    return .next
  | .dump => do
    noted fun m => .dump m.stack.top?
    return .next
  | .breakpoint => do
    let pos ← get
    noted fun _ => .breakpoint f.id (pos - 1)
    return .next
  | .stop => return .stop
  | .call => do
    let id ← readUInt16 f.code
    return .call id
  | .callNative => do
    let id ← readUInt16 f.code
    callNative p id
    return .next
  | .ret => do
    set f.code.size
    return .next

/-- Carries out the instruction of `f` at `cursor`. -/
def execute (p : Program) (f : Function) (cursor : Nat) : Op Flow := do
  let op ← lookup (f.code.opcodeAt cursor)
  noted fun m => .dispatch f.id cursor op m.stack.depth
  let (control, pos) ← (carryOut p f op).run (cursor + 1)
  return control.flow pos

end Machine

end CellMachine
