import CellMachine.Opcode
import CellMachine.Fault

/-!
# Arithmetic

What instructions compute. Integers are 64 bits wide and wrap around; a quotient is truncated toward
zero and a remainder has the sign of the dividend. Doubles follow IEEE 754.
-/

namespace CellMachine

def IntOp.apply (o : IntOp) (lower upper : Int64) : Except Cause Int64 :=
  match o with
  | add => .ok (lower + upper)
  | sub => .ok (lower - upper)
  | mul => .ok (lower * upper)
  | div => if upper = 0 then .error .divisionByZero else .ok (lower / upper)
  | mod => if upper = 0 then .error .moduloByZero else .ok (lower % upper)
  | or => .ok (lower ||| upper)
  | and => .ok (lower &&& upper)
  | xor => .ok (lower ^^^ upper)

def DoubleOp.apply (o : DoubleOp) (lower upper : Float) : Float :=
  match o with
  | add => lower + upper
  | sub => lower - upper
  | mul => lower * upper
  | div => lower / upper

/-- Doubles that differ by less than this count as equal in comparisons. -/
def tolerance : Float := 1e-11

/-- 0 for doubles that count as equal, otherwise -1 or 1 as the difference is negative or not. -/
def compareDoubles (lower upper : Float) : Int64 :=
  let difference := lower - upper
  if difference.abs < tolerance then 0 else if difference < 0.0 then -1 else 1

def compareInts (lower upper : Int64) : Int64 :=
  if lower < upper then -1 else if lower = upper then 0 else 1

def Comparison.holds (c : Comparison) (lower upper : Int64) : Bool :=
  match c with
  | ne => lower != upper
  | eq => lower == upper
  | gt => upper < lower
  | ge => upper ≤ lower
  | lt => lower < upper
  | le => lower ≤ upper

end CellMachine
