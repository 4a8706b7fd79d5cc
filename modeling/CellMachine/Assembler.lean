import CellMachine.Code
import CellMachine.Instruction

/-!
# Assembler

Code is written one directive at a time. A jump names a label; its offset, counted from the end of
the offset field, is filled in as soon as both the jump and the label have a position. Whether all
offsets could be filled in is reported when the code is finished.
-/

namespace CellMachine

/-- A request to the assembler. Labels are numbered in the order of their creation. -/
inductive Directive
  /-- An opcode without operand. -/
  | plain (op : Opcode)
  /-- A byte as it is. -/
  | byte (b : UInt8)
  | int (n : Int64)
  /-- Push the double with these bits. -/
  | double (bits : UInt64)
  | withId (op : Opcode) (id : UInt16)
  | withContext (op : Opcode) (context slot : UInt16)
  | newLabel
  /-- Put a label here. -/
  | bind (label : Nat)
  | jump (op : Opcode) (label : Nat)
  /-- A jump by a given offset. -/
  | jumpBy (op : Opcode) (offset : Int16)
deriving DecidableEq, Repr

namespace Assembler

/-- The position of a label, or the offset fields that wait for it, the latest first. -/
structure Label where
  position : Option Nat := none
  pending : List Nat := []
deriving DecidableEq, Inhabited

structure LongJump where
  position : Nat
  distance : Int
deriving DecidableEq

inductive Fault
  | tooFar (jump : LongJump)
  | unbound (label : Nat)
deriving DecidableEq

def Fault.message : Fault → String
  | .tooFar jump =>
    s!"jump at offset {jump.position} spans {jump.distance} bytes, beyond the 16-bit offset field"
  | .unbound label => s!"label {label} used but never bound"

end Assembler

/-- Code under construction. Of the jumps that are too long it remembers the one found first. -/
structure Assembler where
  code : Array UInt8 := #[]
  labels : Array Assembler.Label := #[]
  tooFar : Option Assembler.LongJump := none
deriving DecidableEq

namespace Assembler

def empty : Assembler := {}

def position (a : Assembler) : Nat := a.code.size

def append (a : Assembler) (bytes : List UInt8) : Assembler := { a with code := a.code ++ bytes }

def InReach (distance : Int) : Prop := -32768 ≤ distance ∧ distance ≤ 32767

instance (distance : Int) : Decidable (InReach distance) := inferInstanceAs (Decidable (_ ∧ _))

theorem inReach_iff {distance : Int} : InReach distance ↔ -32768 ≤ distance ∧ distance ≤ 32767 := .rfl

/-- The distances within reach are those that an offset of sixteen bits can be. -/
theorem inReach_iff_exists_offset {distance : Int} :
    InReach distance ↔ ∃ offset : Int16, offset.toInt = distance := by
  constructor
  · intro h
    exact ⟨Int16.ofInt distance, Int16.toInt_ofInt_of_le h.1 (Int.lt_add_one_of_le h.2)⟩
  · rintro ⟨offset, rfl⟩
    exact ⟨offset.le_toInt, Int.le_of_lt_add_one offset.toInt_lt⟩

def offsetBytes (distance : Int) : List UInt8 := Layout.jumpOffset.encoded (Int16.ofInt distance)

def overwrite (code : Array UInt8) (pos : Nat) : List UInt8 → Array UInt8
  | [] => code
  | b :: rest => overwrite (code.setIfInBounds pos b) (pos + 1) rest

def fill (a : Assembler) (field target : Nat) : Assembler :=
  -- Offsets count from the end of their field.
  let distance : Int := target - (field + 2 : Nat)
  if InReach distance then { a with code := overwrite a.code field (offsetBytes distance) }
  else { a with tooFar := a.tooFar <|> some ⟨field - 1, distance⟩ }

def emit? (a : Assembler) (op : Opcode) (l : Layout) (operand : l.Operand) : Option Assembler :=
  (Instruction.make? op l operand).map fun i => a.append i.encoded

/-- A jump to a label: filled in at once if the label has a position, later otherwise. -/
def jump? (a : Assembler) (op : Opcode) (label : Nat) : Option Assembler :=
  match a.labels[label]? with
  | none => none
  | some state =>
    match a.emit? op .jumpOffset 0 with
    | none => none
    | some a' =>
      let field := a.position + 1
      match state.position with
      | some target => some (a'.fill field target)
      | none =>
        some { a' with labels := a'.labels.setIfInBounds label { state with pending := field :: state.pending } }

def bind? (a : Assembler) (label : Nat) : Option Assembler :=
  match a.labels[label]? with
  | none => none
  | some state =>
    match state.position with
    | some _ => none -- A label gets its position once.
    | none =>
      let here := a.position
      let bound := { a with labels := a.labels.setIfInBounds label { position := some here, pending := [] } }
      some (state.pending.reverse.foldl (fun a field => a.fill field here) bound)

/-- What a directive makes of the code so far. A directive that does not fit, such as an operand for
an opcode without one, is refused. -/
def follow? (a : Assembler) : Directive → Option Assembler
  | .plain op => a.emit? op .none ()
  | .byte b => some (a.append [b])
  | .int n => a.emit? (.literal .int) .int n
  | .double bits => a.emit? (.literal .double) .double bits
  | .withId op id => a.emit? op .id id
  | .withContext op context slot => a.emit? op .contextSlot (context, slot)
  | .newLabel => some { a with labels := a.labels.push {} }
  | .bind label => a.bind? label
  | .jump op label => a.jump? op label
  | .jumpBy op offset => a.emit? op .jumpOffset offset

def finish (a : Assembler) : Except Fault Code :=
  -- A jump that is too long is reported before a label without a position.
  match a.tooFar with
  | some jump => .error (.tooFar jump)
  | none =>
    match a.labels.findIdx? fun state => !state.pending.isEmpty with
    | some label => .error (.unbound label)
    | none => .ok ⟨a.code⟩

end Assembler

end CellMachine
