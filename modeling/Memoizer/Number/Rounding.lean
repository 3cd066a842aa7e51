import Memoizer.Number.Basic

namespace Memoizer.Number

def roundDiv (num den : Nat) : Nat :=
  let q := num / den
  let twice := 2 * (num % den)
  if twice < den then q
  else if den < twice then q + 1
  else q + q % 2

/-- The power of two by which `num / den` is divided so that its whole part has 53 bits, raised to
the least one a double has. The result counts from 2 to the minus 1074. -/
def scaleOf (num den : Nat) : Nat :=
  let scaled := num * twoPow 1074 / den
  scaled.log2 - 52

/-- The bits of the positive double nearest to `num / den`. A significand that rounds up to 53 bits
and one carries into the exponent by itself. -/
def bitsOfRatio (num den : Nat) : Nat :=
  let scale := scaleOf num den
  let significand := roundDiv (num * twoPow 1074) (den * twoPow scale)
  min (scale * twoPow 52 + significand) (2047 * twoPow 52)

def signed (negative : Bool) (magnitude : Nat) : Number :=
  ⟨UInt64.ofNat (if negative then twoPow 63 + magnitude else magnitude)⟩

def ofRatio (negative : Bool) (num den : Nat) : Number :=
  signed negative (bitsOfRatio num den)

def ofNat (n : Nat) : Number :=
  ofRatio false n 1

def ofInt (n : Int) : Number :=
  ofRatio (n < 0) n.natAbs 1

def ofDecimal (digits : Nat) (exponent : Int) : Number :=
  if digits = 0 then ofNat 0
  else
    let size := Int.ofNat (Nat.toDigits 10 digits).length + exponent
    -- Beyond four hundred places on either side every value is infinite or zero.
    if 400 < size then signed false (2047 * twoPow 52)
    else if size < -400 then ofNat 0
    else if 0 ≤ exponent then ofRatio false (digits * tenPow exponent.toNat) 1
    else ofRatio false digits (tenPow (-exponent).toNat)

end Memoizer.Number
