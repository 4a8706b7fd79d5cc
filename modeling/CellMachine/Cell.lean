import CellMachine.Text.Utf8
import CellMachine.Decimal

/-!
# Types and cells

A cell is one unit of storage, on the operand stack or in a variable: an integer, a double or a
text. It carries its type, so that a use at another type can be refused. Declarations may also name
`void`, for no result, and `invalid`, the mark of a type that was never set.
-/

namespace CellMachine

/-- A type as declarations name it. -/
inductive TypeTag
  | invalid | void | double | int | string
deriving DecidableEq, Repr, Inhabited

inductive ValueType
  | double | int | text
deriving DecidableEq, Repr, Inhabited

namespace TypeTag

/-- The number of a type in an image. -/
def code : TypeTag → UInt8
  | invalid => 0
  | void => 1
  | double => 2
  | int => 3
  | string => 4

def ofCode? : UInt8 → Option TypeTag
  | 0 => some invalid
  | 1 => some void
  | 2 => some double
  | 3 => some int
  | 4 => some string
  | _ => none

theorem ofCode?_code (t : TypeTag) : ofCode? t.code = some t := by
  cases t <;> rfl

theorem code_of_ofCode? {n : UInt8} {t : TypeTag} (h : ofCode? n = some t) : t.code = n := by
  unfold ofCode? at h
  split at h <;> cases h <;> rfl

def name : TypeTag → String
  | invalid => "invalid"
  | void => "void"
  | double => "double"
  | int => "int"
  | string => "string"

instance : ToString TypeTag := ⟨name⟩

/-- The values of a type, if it has any. -/
def valueType? : TypeTag → Option ValueType
  | double => some .double
  | int => some .int
  | string => some .text
  | invalid | void => none

end TypeTag

/-- The name under which declarations know a type of values. -/
def ValueType.tag : ValueType → TypeTag
  | double => .double
  | int => .int
  | text => .string

theorem ValueType.valueType?_tag (t : ValueType) : t.tag.valueType? = some t := by
  cases t <;> rfl

inductive Cell
  | int (n : Int64)
  | double (d : Float)
  | text (t : Text)
deriving DecidableEq

namespace Cell

def type : Cell → ValueType
  | int _ => .int
  | double _ => .double
  | text _ => .text

def tag (c : Cell) : TypeTag := c.type.tag

def int? : Cell → Option Int64
  | int n => some n
  | _ => none

def double? : Cell → Option Float
  | double d => some d
  | _ => none

def text? : Cell → Option Text
  | text t => some t
  | _ => none

def zero : ValueType → Cell
  | .int => int 0
  | .double => double 0.0
  | .text => text Text.empty

/-- Equality of the numbers or texts held: a NaN equals nothing and the two zeros are equal. -/
def same : Cell → Cell → Bool
  | int m, int n => m == n
  | double d, double e => d == e
  | text s, text t => s.bytes == t.bytes
  | _, _ => false

/-- The text of a value, for people: bytes that are not UTF-8 appear as U+FFFD. -/
def display : Cell → String
  | int n => String.ofList (Decimal.ofInt n.toInt)
  | double d => String.ofList (Decimal.ofBits d.toBits)
  | text t => String.ofList (Utf8.lossy t.bytes)

/-- The pieces in which printing puts a value out: a sign goes before its digits. -/
def pieces : Cell → List (List UInt8)
  | int n =>
    if n.toInt < 0 then
      [utf8Bytes "-", utf8Bytes (String.ofList (Nat.toDigits 10 n.toInt.natAbs))]
    else [utf8Bytes (String.ofList (Nat.toDigits 10 n.toInt.natAbs))]
  | double d => [utf8Bytes (String.ofList (Decimal.ofBits d.toBits))]
  | text t => [t.bytes]

/-- The bytes that printing a value puts out. -/
def printed : Cell → List UInt8
  | int n => utf8Bytes (String.ofList (Decimal.ofInt n.toInt))
  | double d => utf8Bytes (String.ofList (Decimal.ofBits d.toBits))
  | text t => t.bytes

theorem flatten_pieces (c : Cell) : c.pieces.flatten = c.printed := by
  cases c with
  | int n =>
    simp only [pieces, printed, Decimal.ofInt]
    split
    · simp [utf8Bytes_eq]
    · exact List.flatten_singleton
  | double d => exact List.flatten_singleton
  | text t => exact List.flatten_singleton

@[simp] theorem type_zero (t : ValueType) : (zero t).type = t := by
  cases t <;> rfl

end Cell

end CellMachine
