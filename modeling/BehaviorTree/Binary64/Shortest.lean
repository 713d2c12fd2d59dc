import BehaviorTree.Binary64

/-!
The shortest decimal that reads back as a given binary64 number, and the nearest to it of those, and
its text: positional from 10⁻⁴ up to 10¹⁶, with an exponent beyond.
-/

namespace BehaviorTree

/-- The number `digits * 10 ^ exponent`. -/
structure Decimal where
  digits : Nat
  exponent : Int
  deriving DecidableEq

namespace Binary64

/-- Numerator and denominator of a finite number without sign. -/
def quotient (value : Binary64) : Nat × Nat :=
  let field := value.bits / leadingBit
  let significand := if field = 0 then value.bits else value.bits % leadingBit + leadingBit
  let exponent : Int := (max field 1 : Nat) - 1075
  if 0 ≤ exponent then (significand * Nat.pow 2 exponent.toNat, 1)
  else (significand, Nat.pow 2 (-exponent).toNat)

def digitCount (value : Nat) : Nat := (Nat.toDigits 10 value).length

/-- The exponent of the first decimal digit of a positive quotient. -/
def leadingExponent (num den : Nat) : Int :=
  if den ≤ num then (digitCount (num / den) : Int) - 1 else -(digitCount ((den - 1) / num) : Int)

/-- A quotient as whole steps of `10 ^ exponent`, the rest and what it is a part of. -/
def onGrid (num den : Nat) (exponent : Int) : Nat × Nat × Nat :=
  let (num, den) :=
    if 0 ≤ exponent then (num, den * Nat.pow 10 exponent.toNat)
    else (num * Nat.pow 10 (-exponent).toNat, den)
  (num / den, num % den, den)

/-- The decimal with a count of digits that reads back as the value, the nearer one of two, or the
larger one of two equally near. -/
def readingBack? (value : Binary64) (count : Nat) : Option Decimal :=
  let (num, den) := value.quotient
  let exponent := leadingExponent num den + 1 - count
  let (low, rest, unit) := onGrid num den exponent
  let readsBack (digits : Nat) : Bool := ofDecimal digits exponent == value
  let nearer := if unit ≤ 2 * rest then low + 1 else low
  let other := if unit ≤ 2 * rest then low else low + 1
  if readsBack nearer then some ⟨nearer, exponent⟩
  else if readsBack other then some ⟨other, exponent⟩
  else none

/-- Seventeen digits tell any two numbers apart, so a count up to that is found. -/
def shortest (value : Binary64) : Decimal :=
  (((List.range 17).map (· + 1)).findSome? value.readingBack?).getD ⟨0, 0⟩

end Binary64

namespace Decimal

/-- Without zeros at the end of the digits. -/
def trimZeros : (count : Nat) → Decimal → Decimal
  | 0, decimal => decimal
  | count + 1, decimal =>
    if decimal.digits % 10 = 0 then trimZeros count ⟨decimal.digits / 10, decimal.exponent + 1⟩
    else decimal

def zeros (count : Nat) : List Char := List.replicate count '0'

/-- Digits around a point in front of which `whole` of them stand; there is one on either side. -/
def positional (digits : List Char) (whole : Int) : List Char :=
  if whole ≤ 0 then ['0', '.'] ++ zeros (-whole).toNat ++ digits
  else if digits.length ≤ whole.toNat then
    digits ++ zeros (whole.toNat - digits.length) ++ ['.', '0']
  else digits.take whole.toNat ++ '.' :: digits.drop whole.toNat

/-- Digits with the point behind the first one, and an exponent. -/
def scientific (digits : List Char) (exponent : Int) : List Char :=
  digits.take 1 ++ (if digits.length ≤ 1 then [] else '.' :: digits.drop 1) ++
    'e' :: (toString exponent).toList

/-- The first exponent that is written. -/
def scientificFrom : Int := 16

/-- The last exponent that is not written. -/
def positionalFrom : Int := -4

def toText (decimal : Decimal) : List Char :=
  let digits := Nat.toDigits 10 decimal.digits
  let leading := decimal.exponent + digits.length - 1
  if positionalFrom ≤ leading && leading < scientificFrom then positional digits (leading + 1)
  else scientific digits leading

end Decimal

namespace Binary64

def toText (value : Binary64) : String :=
  if infinity.bits ≤ value.bits then "inf"
  else if value.bits = 0 then "0.0"
  else
    let decimal := value.shortest
    String.ofList (decimal.trimZeros (digitCount decimal.digits)).toText

example : (ofDecimal 5 (-324)).toText = "5e-324" ∧ (ofDecimal 1 (-4)).toText = "0.0001" ∧
    (ofDecimal 3 (-1)).toText = "0.3" ∧ (ofDecimal 1 16).toText = "1e16" ∧
    (ofDecimal 9999999999999998 0).toText = "9999999999999998.0" := by decide +kernel

/-- Halfway between two decimals that read back, the larger one is written. -/
example : (ofDecimal 298023223876953125 (-25)).toText = "2.9802322387695313e-8" := by
  decide +kernel

end Binary64

end BehaviorTree
