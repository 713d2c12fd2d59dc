/-!
The numbers of IEEE 754 binary64, as bit patterns, and the reading of decimals: a decimal becomes
the nearest binary64 number, a tie the one with an even last bit, and what is too large infinity.
-/

namespace BehaviorTree

structure Binary64 where
  bits : Nat
  deriving DecidableEq

namespace Binary64

def infinity : Binary64 := ⟨0x7FF0000000000000⟩

/-- The weight of the leading bit of a significand; the exponent field stands from this bit on. -/
def leadingBit : Nat := 0x10000000000000

/-- The quotient rounded to the nearest integer, ties to even. -/
def roundDiv (num den : Nat) : Nat :=
  let quotient := num / den
  let rest := 2 * (num % den)
  if den < rest || (rest == den && quotient % 2 == 1) then quotient + 1 else quotient

/-- The quotient divided by a power of two, rounded. -/
def scaledDiv (num den : Nat) (exponent : Int) : Nat :=
  if 0 ≤ exponent then roundDiv num (den * Nat.pow 2 exponent.toNat)
  else roundDiv (num * Nat.pow 2 (-exponent).toNat) den

/-- The exponent of the last bit in the binary64 form of a positive quotient. -/
def lastBitExponent (num den : Nat) : Int :=
  let guess : Int := (num.log2 : Int) - (den.log2 : Int) - 52
  let reaches : Bool :=
    if 0 ≤ guess then den * leadingBit * Nat.pow 2 guess.toNat ≤ num
    else den * leadingBit ≤ num * Nat.pow 2 (-guess).toNat
  max (-1074) (if reaches then guess else guess - 1)

/-- The binary64 number nearest to a positive quotient. The significand of a normal number carries
its leading bit into the exponent field, so one sum packs every case. -/
def ofQuotient (num den : Nat) : Binary64 :=
  let exponent := lastBitExponent num den
  let packed := (exponent + 1074).toNat * leadingBit + scaledDiv num den exponent
  if packed < infinity.bits then ⟨packed⟩ else infinity

/-- The decimal digits of `digits` count for the exponent bounds beyond which the value is
infinite or rounds to zero. -/
def ofDecimal (digits : Nat) (exponent : Int) : Binary64 :=
  let magnitude : Int := (Nat.toDigits 10 digits).length + exponent
  if digits = 0 then ⟨0⟩
  else if 310 < magnitude then infinity
  else if magnitude < -330 then ⟨0⟩
  else if 0 ≤ exponent then ofQuotient (digits * Nat.pow 10 exponent.toNat) 1
  else ofQuotient digits (Nat.pow 10 (-exponent).toNat)

/-- The value 1. -/
example : ofDecimal 10 (-1) = ⟨0x3FF0000000000000⟩ := by decide +kernel

/-- The least positive number, and half of it, a tie that goes to zero. -/
example : ofDecimal 5 (-324) = ⟨1⟩ ∧ ofDecimal 2 (-324) = ⟨0⟩ := by decide +kernel

end Binary64

end BehaviorTree
