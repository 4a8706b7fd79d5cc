import CellMachine.Cell

/-!
# Opcodes

An instruction is one tag byte and an operand of the layout that the tag prescribes. Opcodes are
grouped by what they do and parameterised by the type they do it for; `Opcode.all` puts the 84 of
them in the order of their tags. Main statement: `ofTag? n = some op` exactly if `n` is the tag of `op`.
-/

namespace CellMachine

/-- The types that arithmetic works on. -/
inductive Numeric
  | double | int
deriving DecidableEq, Repr, Inhabited

namespace Numeric

def type : Numeric → ValueType
  | double => .double
  | int => .int

end Numeric

inductive DoubleOp
  | add | sub | mul | div
deriving DecidableEq, Repr, Inhabited

inductive IntOp
  | add | sub | mul | div | mod | or | and | xor
deriving DecidableEq, Repr, Inhabited

inductive Conversion
  | intToDouble | doubleToInt | textToInt
deriving DecidableEq, Repr, Inhabited

/-- What a conditional jump asks of the two topmost integers, the lower one first. -/
inductive Comparison
  | ne | eq | gt | ge | lt | le
deriving DecidableEq, Repr, Inhabited

/-- What follows a tag byte. -/
inductive Layout
  | none
  | double
  | int
  | id
  | contextSlot
  | jumpOffset
deriving DecidableEq, Repr, Inhabited

def Layout.width : Layout → Nat
  | none => 0
  | double | int => 8
  | id | jumpOffset => 2
  | contextSlot => 4

inductive Opcode
  /-- Fatal when executed. -/
  | invalid
  /-- Push the inline number, or the constant with the inline id. -/
  | literal (t : ValueType)
  /-- Push zero, or the empty text. -/
  | zero (t : ValueType)
  | one (n : Numeric)
  | minusOne (n : Numeric)
  | doubleOp (o : DoubleOp)
  | intOp (o : IntOp)
  | negate (n : Numeric)
  | print (t : ValueType)
  | convert (c : Conversion)
  | swap
  | pop
  /-- Push one of the first four variables of the executing function. -/
  | loadShort (t : ValueType) (slot : Fin 4)
  | storeShort (t : ValueType) (slot : Fin 4)
  /-- Push the variable with the inline slot of the executing function. -/
  | load (t : ValueType)
  | store (t : ValueType)
  /-- Push a variable of the innermost active call of another function. -/
  | loadContext (t : ValueType)
  | storeContext (t : ValueType)
  /-- Push how the two topmost numbers compare, keeping them. -/
  | compare (n : Numeric)
  | jump
  | jumpIf (c : Comparison)
  /-- Log the top cell, keeping it. -/
  | dump
  | stop
  | call
  | callNative
  | ret
  /-- Log that this point was reached. -/
  | breakpoint
deriving DecidableEq, Repr, Inhabited

namespace Opcode

def layout : Opcode → Layout
  | literal .double => .double
  | literal .int => .int
  | literal .text | load _ | store _ | call | callNative => .id
  | loadContext _ | storeContext _ => .contextSlot
  | jump | jumpIf _ => .jumpOffset
  | _ => .none

/-- Bytes of an instruction: the tag and the operand. -/
def length (op : Opcode) : Nat := 1 + op.layout.width

def isJump (op : Opcode) : Bool := op.layout == .jumpOffset

/-- Whether the executing function or the whole program ends here. -/
def isTerminator : Opcode → Bool
  | ret | stop | invalid => true
  | _ => false

/-! ### Tags -/

/-- All opcodes, each at the position of its tag. -/
def all : Array Opcode := #[
  invalid, literal .double, literal .int, literal .text,
  zero .double, zero .int, zero .text, one .double, one .int, minusOne .double, minusOne .int,
  doubleOp .add, intOp .add, doubleOp .sub, intOp .sub, doubleOp .mul, intOp .mul,
  doubleOp .div, intOp .div, intOp .mod, negate .double, negate .int,
  intOp .or, intOp .and, intOp .xor,
  print .int, print .double, print .text,
  convert .intToDouble, convert .doubleToInt, convert .textToInt, swap, pop,
  loadShort .double 0, loadShort .double 1, loadShort .double 2, loadShort .double 3,
  loadShort .int 0, loadShort .int 1, loadShort .int 2, loadShort .int 3,
  loadShort .text 0, loadShort .text 1, loadShort .text 2, loadShort .text 3,
  storeShort .double 0, storeShort .double 1, storeShort .double 2, storeShort .double 3,
  storeShort .int 0, storeShort .int 1, storeShort .int 2, storeShort .int 3,
  storeShort .text 0, storeShort .text 1, storeShort .text 2, storeShort .text 3,
  load .double, load .int, load .text, store .double, store .int, store .text,
  loadContext .double, loadContext .int, loadContext .text,
  storeContext .double, storeContext .int, storeContext .text,
  compare .double, compare .int,
  jump, jumpIf .ne, jumpIf .eq, jumpIf .gt, jumpIf .ge, jumpIf .lt, jumpIf .le,
  dump, stop, call, callNative, ret, breakpoint]

/-- The opcode with a tag. -/
def ofTag? (tag : UInt8) : Option Opcode := all[tag.toNat]?

/-- Position of a type among three neighbouring opcodes. -/
def typeIndex : ValueType → UInt8
  | .double => 0
  | .int => 1
  | .text => 2

def numericIndex : Numeric → UInt8
  | .double => 0
  | .int => 1

def tag : Opcode → UInt8
  | invalid => 0
  | literal t => 1 + typeIndex t
  | zero t => 4 + typeIndex t
  | one n => 7 + numericIndex n
  | minusOne n => 9 + numericIndex n
  | doubleOp .add => 11
  | intOp .add => 12
  | doubleOp .sub => 13
  | intOp .sub => 14
  | doubleOp .mul => 15
  | intOp .mul => 16
  | doubleOp .div => 17
  | intOp .div => 18
  | intOp .mod => 19
  | negate n => 20 + numericIndex n
  | intOp .or => 22
  | intOp .and => 23
  | intOp .xor => 24
  | print .int => 25
  | print .double => 26
  | print .text => 27
  | convert .intToDouble => 28
  | convert .doubleToInt => 29
  | convert .textToInt => 30
  | swap => 31
  | pop => 32
  | loadShort t slot => 33 + 4 * typeIndex t + UInt8.ofNat slot.val
  | storeShort t slot => 45 + 4 * typeIndex t + UInt8.ofNat slot.val
  | load t => 57 + typeIndex t
  | store t => 60 + typeIndex t
  | loadContext t => 63 + typeIndex t
  | storeContext t => 66 + typeIndex t
  | compare n => 69 + numericIndex n
  | jump => 71
  | jumpIf .ne => 72
  | jumpIf .eq => 73
  | jumpIf .gt => 74
  | jumpIf .ge => 75
  | jumpIf .lt => 76
  | jumpIf .le => 77
  | dump => 78
  | stop => 79
  | call => 80
  | callNative => 81
  | ret => 82
  | breakpoint => 83

theorem size_all : all.size = 84 := rfl

theorem ofTag?_tag (op : Opcode) : ofTag? op.tag = some op := by
  cases op with
  | loadShort t slot => revert slot; cases t <;> decide +kernel
  | storeShort t slot => revert slot; cases t <;> decide +kernel
  | literal t | zero t | print t | load t | store t | loadContext t | storeContext t =>
    cases t <;> decide +kernel
  | one n | minusOne n | negate n | compare n => cases n <;> decide +kernel
  | doubleOp o => cases o <;> decide +kernel
  | intOp o => cases o <;> decide +kernel
  | convert c => cases c <;> decide +kernel
  | jumpIf c => cases c <;> decide +kernel
  | invalid | swap | pop | jump | dump | stop | call | callNative | ret | breakpoint => decide +kernel

/-- Every entry of the table stands at its own tag. -/
theorem tag_of_ofTag? {n : UInt8} {op : Opcode} (h : ofTag? n = some op) : op.tag = n := by
  have table : ∀ i : Fin 256, ∀ op, ofTag? (UInt8.ofNat i.val) = some op → op.tag = UInt8.ofNat i.val := by
    decide +kernel
  have hn : UInt8.ofNat n.toNat = n := by simp
  have := table ⟨n.toNat, n.toNat_lt⟩ op
  rw [hn] at this
  exact this h

theorem ofTag?_eq_some_iff {n : UInt8} {op : Opcode} : ofTag? n = some op ↔ op.tag = n :=
  ⟨tag_of_ofTag?, fun h => h ▸ ofTag?_tag op⟩

/-! ### Mnemonics -/

def letter : ValueType → String
  | .double => "D"
  | .int => "I"
  | .text => "S"

def mnemonic : Opcode → String
  | invalid => "INVALID"
  | literal t => letter t ++ "LOAD"
  | zero t => letter t ++ "LOAD0"
  | one n => letter n.type ++ "LOAD1"
  | minusOne n => letter n.type ++ "LOADM1"
  | doubleOp .add => "DADD"
  | doubleOp .sub => "DSUB"
  | doubleOp .mul => "DMUL"
  | doubleOp .div => "DDIV"
  | intOp .add => "IADD"
  | intOp .sub => "ISUB"
  | intOp .mul => "IMUL"
  | intOp .div => "IDIV"
  | intOp .mod => "IMOD"
  | intOp .or => "IAOR"
  | intOp .and => "IAAND"
  | intOp .xor => "IAXOR"
  | negate n => letter n.type ++ "NEG"
  | print t => letter t ++ "PRINT"
  | convert .intToDouble => "I2D"
  | convert .doubleToInt => "D2I"
  | convert .textToInt => "S2I"
  | swap => "SWAP"
  | pop => "POP"
  | loadShort t slot => "LOAD" ++ letter t ++ "VAR" ++ toString slot.val
  | storeShort t slot => "STORE" ++ letter t ++ "VAR" ++ toString slot.val
  | load t => "LOAD" ++ letter t ++ "VAR"
  | store t => "STORE" ++ letter t ++ "VAR"
  | loadContext t => "LOADCTX" ++ letter t ++ "VAR"
  | storeContext t => "STORECTX" ++ letter t ++ "VAR"
  | compare n => letter n.type ++ "CMP"
  | jump => "JA"
  | jumpIf .ne => "IFICMPNE"
  | jumpIf .eq => "IFICMPE"
  | jumpIf .gt => "IFICMPG"
  | jumpIf .ge => "IFICMPGE"
  | jumpIf .lt => "IFICMPL"
  | jumpIf .le => "IFICMPLE"
  | dump => "DUMP"
  | stop => "STOP"
  | call => "CALL"
  | callNative => "CALLNATIVE"
  | ret => "RETURN"
  | breakpoint => "BREAK"

def ofMnemonic? (name : String) : Option Opcode := all.find? fun op => op.mnemonic == name

end Opcode

end CellMachine
