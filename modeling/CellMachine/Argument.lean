import CellMachine.Cell

/-!
# Arguments

An argument of a program is given as a string. It is an integer if it is a decimal numeral of 64
bits, otherwise a double if it is a decimal number or a word for infinity or NaN, otherwise a text.
-/

namespace CellMachine.Argument

/-! ### Numerals -/

def isDigit (c : Char) : Bool := '0' ≤ c && c ≤ '9'

def digitValue (c : Char) : Nat := c.toNat - '0'.toNat

def ofDigits (digits : List Char) : Nat := digits.foldl (fun n c => 10 * n + digitValue c) 0

/-- The number of a numeral of digits only, of which there is at least one. -/
def natural? (cs : List Char) : Option Nat :=
  if cs ≠ [] ∧ cs.all isDigit then some (ofDigits cs) else none

/-- An optional sign, whether it is a minus, and what follows it. -/
def unsigned : List Char → Bool × List Char
  | '-' :: cs => (true, cs)
  | '+' :: cs => (false, cs)
  | cs => (false, cs)

def signed (negative : Bool) (n : Nat) : Int := if negative then -n else n

def int? (cs : List Char) : Option Int64 :=
  let (negative, digits) := unsigned cs
  match natural? digits with
  | none => none
  | some magnitude =>
    let n := signed negative magnitude
    if Int64.minValue.toInt ≤ n ∧ n ≤ Int64.maxValue.toInt then some (Int64.ofInt n) else none

/-! ### Decimal numbers -/

/-- The number `digits * 10 ^ exponent`. -/
structure Scientific where
  digits : Nat
  exponent : Int
deriving DecidableEq, Repr

/-- What may follow the digits of a decimal number: nothing, or an exponent. -/
def exponent? : List Char → Option Int
  | [] => some 0
  | c :: cs =>
    if c = 'e' ∨ c = 'E' then
      let (negative, digits) := unsigned cs
      (natural? digits).map (signed negative)
    else none

/-- A decimal number without a sign: digits, on at least one side of an optional point. -/
def scientific? (cs : List Char) : Option Scientific :=
  let whole := cs.takeWhile isDigit
  let rest := cs.dropWhile isDigit
  let (fraction, rest) :=
    match rest with
    | '.' :: rest => (rest.takeWhile isDigit, rest.dropWhile isDigit)
    | rest => ([], rest)
  if whole = [] ∧ fraction = [] then none
  else
    (exponent? rest).map fun e => ⟨ofDigits (whole ++ fraction), e - fraction.length⟩

/-- The bits of the double nearest to a decimal number. Far beyond the range of doubles, where the power
of ten is not worked out, it is infinite or zero. -/
def Scientific.bits (s : Scientific) : UInt64 :=
  let leading : Int := s.exponent + (Nat.toDigits 10 s.digits).length
  if s.digits = 0 ∨ leading < -400 then 0
  else if 400 < leading then Decimal.infinity
  else if 0 ≤ s.exponent then Decimal.nearestBits (s.digits * Nat.pow 10 s.exponent.toNat) 1
  else Decimal.nearestBits s.digits (Nat.pow 10 (-s.exponent).toNat)

def Scientific.nearest (s : Scientific) : Float := Float.ofBits s.bits

/-- A word for a number that is not finite, in any letter case. -/
def word? (cs : List Char) : Option Float :=
  let lower := cs.map Char.toLower
  if lower = "inf".toList ∨ lower = "infinity".toList then some (1.0 / 0.0)
  else if lower = "nan".toList then some (0.0 / 0.0)
  else none

def double? (cs : List Char) : Option Float :=
  let (negative, cs) := unsigned cs
  let magnitude? := word? cs <|> (scientific? cs).map Scientific.nearest
  magnitude?.map fun d => if negative then -d else d

/-! ### Arguments as cells -/

/-- An argument that is no number and has a NUL, so that it is no text either. -/
structure Unusable where
  argument : String
  /-- Bytes before the NUL. -/
  position : Nat
deriving DecidableEq, Repr

def toCell (argument : String) : Except Unusable Cell :=
  match int? argument.toList with
  | some n => .ok (.int n)
  | none =>
    match double? argument.toList with
    | some d => .ok (.double d)
    | none =>
      match Text.ofBytes (utf8Bytes argument) with
      | .ok t => .ok (.text t)
      | .error position => .error { argument, position }

def toCells (arguments : List String) : Except Unusable (List Cell) := arguments.mapM toCell

end CellMachine.Argument

namespace CellMachine

/-! ### Command lines -/

structure CommandLine where
  file : Option String := none
  args : List String := []
  maxStack : Option Nat := none
  maxCalls : Option Nat := none
  budget : Option Nat := none
  verbose : Bool := false
deriving DecidableEq, Repr, Inhabited

namespace CommandLine

def cells (c : CommandLine) : Except Argument.Unusable (List Cell) := Argument.toCells c.args

end CommandLine

end CellMachine
