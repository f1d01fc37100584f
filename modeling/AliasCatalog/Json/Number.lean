/-!
# JSON numbers

A number literal without fraction and exponent that fits in 64 bits, signed or unsigned, is an
integer.  Every other literal is a decimal, which has to lie in the range of binary64.

The range is examined as a machine would: of the whole part and then of the fraction the leading
digits are kept that fit in 64 bits, and the number is out of range when this significand, rounded to
binary64, times the power of ten, rounded to binary64, exceeds every finite number.
-/

namespace AliasCatalog.Json

inductive Number where
  | integer (value : Int)
  /-- Any other number, as written. -/
  | decimal (literal : String)
  deriving DecidableEq, Repr

/-- The parts of a number literal: digits are numbers below ten. -/
structure Literal where
  negative : Bool
  whole : List Nat
  fraction : Option (List Nat)
  /-- The exponent: is it negative, and its digits. -/
  exponent : Option (Bool × List Nat)
  deriving DecidableEq, Repr

/-- The value of a sequence of decimal digits. -/
def ofDigits (digits : List Nat) : Nat :=
  digits.foldl (fun n digit => 10 * n + digit) 0

/-- A positive number rounded to 53 significant bits, a tie to the even neighbour. -/
def roundToBinary64 (n : Nat) : Nat :=
  let shift := Nat.log2 n - 52
  let unit := Nat.pow 2 shift
  let low := n % unit
  let kept := n / unit
  let up := unit < 2 * low || (2 * low == unit && kept % 2 == 1)
  (if up then kept + 1 else kept) * unit

/-- The least number that rounds to infinity: half a unit past the largest finite number. -/
def binary64Overflow : Nat :=
  Nat.pow 2 1024 - Nat.pow 2 970

/-- Extends a significand by digits as long as it fits in 64 bits; the second part are the digits
left over. -/
def extendSignificand (significand : Nat) : List Nat → Nat × List Nat
  | [] => (significand, [])
  | digit :: rest =>
    if 10 * significand + digit < Nat.pow 2 64 then extendSignificand (10 * significand + digit) rest
    else (significand, digit :: rest)

namespace Literal

/-- Does the literal lie beyond the range of binary64? -/
def overflows (literal : Literal) : Bool :=
  let (whole, dropped) := extendSignificand 0 literal.whole
  let fraction := literal.fraction.getD []
  let (significand, ignored) := extendSignificand whole fraction
  let stated : Int :=
    match literal.exponent with
    | some (true, digits) => -(ofDigits digits : Int)
    | some (false, digits) => ofDigits digits
    | none => 0
  let exponent : Int := dropped.length - (fraction.length - ignored.length : Nat) + stated
  if significand = 0 || exponent < 0 then false
  else if 308 < exponent then true
  else binary64Overflow ≤ roundToBinary64 significand * roundToBinary64 (Nat.pow 10 exponent.toNat)

/-- The digits as characters. -/
def digitText (digits : List Nat) : String :=
  String.ofList (digits.map Nat.digitChar)

def text (literal : Literal) : String :=
  (if literal.negative then "-" else "") ++ digitText literal.whole
    ++ (match literal.fraction with
      | some digits => "." ++ digitText digits
      | none => "")
    ++ (match literal.exponent with
      | some (negative, digits) => "e" ++ (if negative then "-" else "") ++ digitText digits
      | none => "")

/-- The number of a literal; `none` beyond the range.  Minus zero is no integer. -/
def number? (literal : Literal) : Option Number :=
  let magnitude := ofDigits literal.whole
  let plain := literal.fraction.isNone && literal.exponent.isNone
  if plain && !literal.negative && magnitude < Nat.pow 2 64 then some (.integer magnitude)
  else if plain && literal.negative && 0 < magnitude && magnitude ≤ Nat.pow 2 63 then
    some (.integer (-magnitude))
  else if literal.overflows then none
  else some (.decimal literal.text)

end Literal

end AliasCatalog.Json
