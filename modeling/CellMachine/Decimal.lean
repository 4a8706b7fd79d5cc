/-!
# Numbers in decimal

Integers are written with all their digits. A double is written with six significant digits: the
exact binary value is rounded to six digits, a tie going to the even neighbour, and the exponent is
written out where it is then below -4 or above 5. Elsewhere the value is rounded once more, to as many
digits after the point as leave six. Trailing zeros of the fraction are left out.
-/

namespace CellMachine.Decimal

def ofInt (n : Int) : List Char :=
  if n < 0 then '-' :: Nat.toDigits 10 n.natAbs else Nat.toDigits 10 n.natAbs

/-! ### Rounding a ratio -/

/-- `num / den` rounded to the nearest number, a tie to the even one. -/
def roundDiv (num den : Nat) : Nat :=
  let quotient := num / den
  let twice := 2 * (num % den)
  if twice < den then quotient
  else if den < twice then quotient + 1
  else if quotient % 2 = 0 then quotient
  else quotient + 1

/-- The greatest `k` with `10 ^ k ≤ n`, zero for `n = 0`. -/
def floorLog (n : Nat) : Nat :=
  if n < 10 then 0 else floorLog (n / 10) + 1

/-- The least `k` with `den ≤ num * 10 ^ k`, for a positive `num`. -/
def scaling (num den : Nat) : Nat :=
  if 0 < num ∧ num < den then scaling (num * 10) den + 1 else 0
termination_by den - num
decreasing_by omega

/-- The decimal exponent of the first digit of `num / den`. -/
def exponent (num den : Nat) : Int :=
  if den ≤ num then floorLog (num / den) else -(scaling num den : Int)

/-- A positive number of six significant digits: `digits * 10 ^ (exponent - 5)`. -/
structure Significant where
  digits : Nat
  exponent : Int
deriving DecidableEq, Repr

def Significant.ofRatio (num den : Nat) : Significant :=
  let e := Decimal.exponent num den
  let digits :=
    if e ≤ 5 then roundDiv (num * Nat.pow 10 (5 - e).toNat) den
    else roundDiv num (den * Nat.pow 10 (e - 5).toNat)
  if digits = 1000000 then ⟨100000, e + 1⟩ else ⟨digits, e⟩

/-! ### Layout of the digits -/

/-- The digits of `n`, after as many zeros as make them a number of digits at least. -/
def padded (width n : Nat) : List Char :=
  let digits := Nat.toDigits 10 n
  List.replicate (width - digits.length) '0' ++ digits

/-- The number `n / 10 ^ decimals`: a point before the last digits of `n`, and a digit before it. -/
def pointed (decimals n : Nat) : List Char :=
  let digits := padded (decimals + 1) n
  if decimals = 0 then digits
  else digits.take (digits.length - decimals) ++ '.' :: digits.drop (digits.length - decimals)

def fixed (decimals num den : Nat) : List Char :=
  pointed decimals (roundDiv (num * Nat.pow 10 decimals) den)

def trimEnd (c : Char) (text : List Char) : List Char := (text.reverse.dropWhile (· == c)).reverse

/-- Without the zeros at the end of a fraction, and without the point if no digit is left of it. -/
def stripTrailingZeros (text : List Char) : List Char :=
  if '.' ∈ text then trimEnd '.' (trimEnd '0' text) else text

/-- One digit before the point, and an exponent of at least two digits. -/
def Significant.scientific (s : Significant) : List Char :=
  stripTrailingZeros (pointed 5 s.digits) ++
    'e' :: (if s.exponent < 0 then '-' else '+') :: padded 2 s.exponent.natAbs

/-- The text of a positive ratio. Its exponent is the one after rounding, not before. -/
def ofRatio (num den : Nat) : List Char :=
  let s := Significant.ofRatio num den
  if s.exponent < -4 ∨ 6 ≤ s.exponent then s.scientific
  else stripTrailingZeros (fixed (5 - s.exponent).toNat num den)

/-! ### Doubles by their bits -/

def signBit (bits : UInt64) : Bool := Nat.pow 2 63 ≤ bits.toNat

def biasedExponent (bits : UInt64) : Nat := bits.toNat / Nat.pow 2 52 % Nat.pow 2 11

def fractionField (bits : UInt64) : Nat := bits.toNat % Nat.pow 2 52

/-- The integer `m` in the magnitude `m * 2 ^ (scale - 1075)` of a finite double. -/
def significand (bits : UInt64) : Nat :=
  if biasedExponent bits = 0 then fractionField bits else fractionField bits + Nat.pow 2 52

def scale (bits : UInt64) : Nat := max (biasedExponent bits) 1

/-- Numerator and denominator of the magnitude of a finite double. -/
def magnitude (bits : UInt64) : Nat × Nat :=
  if 1075 ≤ scale bits then (significand bits * Nat.pow 2 (scale bits - 1075), 1)
  else (significand bits, Nat.pow 2 (1075 - scale bits))

def unsignedText (bits : UInt64) : List Char :=
  if biasedExponent bits = 2047 then ['i', 'n', 'f']
  else if significand bits = 0 then ['0']
  else
    let (num, den) := magnitude bits
    ofRatio num den

def ofBits (bits : UInt64) : List Char :=
  if biasedExponent bits = 2047 ∧ fractionField bits ≠ 0 then ['n', 'a', 'n']
  else if signBit bits then '-' :: unsignedText bits
  else unsignedText bits

/-! ### The nearest double -/

/-- Numerator and denominator of `num / den / 2 ^ e`. -/
def shifted (num den : Nat) (e : Int) : Nat × Nat :=
  if 0 ≤ e then (num, den * Nat.pow 2 e.toNat) else (num * Nat.pow 2 (-e).toNat, den)

/-- The binary exponent of the first bit of a positive ratio. -/
def firstBit (num den : Nat) : Int :=
  let e : Int := num.log2 - den.log2
  let (num, den) := shifted num den e
  if den ≤ num then e else e - 1

/-- The exponent of the last bit that a double as great as the ratio has. -/
def lastBit (num den : Nat) : Int := max (firstBit num den - 52) (-1074)

def infinity : UInt64 := 0x7FF0000000000000

/-- The bits of the double `m * 2 ^ e`. Read as numbers they grow with the doubles, so that a significand
of one bit too many carries into the exponent, and beyond the greatest double is infinity. -/
def bitsOf (m : Nat) (e : Int) : UInt64 :=
  .ofNat (min ((e + 1074).toNat * Nat.pow 2 52 + m) infinity.toNat)

/-- The bits of the double nearest to a positive ratio, a tie going to the even one. -/
def nearestBits (num den : Nat) : UInt64 :=
  let e := lastBit num den
  let (num, den) := shifted num den e
  bitsOf (roundDiv num den) e

end CellMachine.Decimal
