import CellMachine.Bytes
import CellMachine.Fault
import CellMachine.Opcode

/-!
# Code

The instructions of one function as bytes. A read at a position never moves anything; a read that
would cross the end has no result.
-/

namespace CellMachine

/-- Encoded instructions. -/
structure Code where
  bytes : Array UInt8
deriving DecidableEq, Inhabited

namespace Code

def empty : Code := ⟨#[]⟩

def size (code : Code) : Nat := code.bytes.size

def byte? (code : Code) (pos : Nat) : Option UInt8 := code.bytes[pos]?

/-- The `width` bytes from `pos` on. -/
def slice? (code : Code) (width pos : Nat) : Option (List UInt8) :=
  if pos + width ≤ code.size then some (code.bytes.extract pos (pos + width)).toList else none

/-- The unsigned number of `width` bytes at `pos`. -/
def nat? (code : Code) (width pos : Nat) : Option Nat := (code.slice? width pos).map ofLittleEndian

def uint16? (code : Code) (pos : Nat) : Option UInt16 := (code.nat? 2 pos).map UInt16.ofNat

def int16? (code : Code) (pos : Nat) : Option Int16 := (code.uint16? pos).map UInt16.toInt16

def uint32? (code : Code) (pos : Nat) : Option UInt32 := (code.nat? 4 pos).map UInt32.ofNat

def uint64? (code : Code) (pos : Nat) : Option UInt64 := (code.nat? 8 pos).map UInt64.ofNat

def int64? (code : Code) (pos : Nat) : Option Int64 := (code.uint64? pos).map UInt64.toInt64

/-- The opcode at `pos`, if the byte there is the tag of one. -/
def opcode? (code : Code) (pos : Nat) : Option Opcode := (code.byte? pos).bind Opcode.ofTag?

/-! ### Reads of an execution -/

/-- The opcode an execution finds at its cursor. -/
def opcodeAt (code : Code) (pos : Nat) : Except Cause Opcode :=
  match code.byte? pos with
  | none => .error .pastEnd
  | some tag =>
    match Opcode.ofTag? tag with
    | none => .error (.unknownOpcode tag)
    | some op => .ok op

/-- A field of an operand, or the fault of a field that crosses the end. -/
def field (code : Code) (width pos : Nat) (read : Option α) : Except Cause α :=
  match read with
  | some value => .ok value
  | none => .error (.truncatedOperand width pos code.size)

end Code

end CellMachine
