namespace Memoizer

/-- A double by its 64 bits, so that equality is equality of bits and every rule is exact arithmetic on naturals. -/
structure Number where
  bits : UInt64
deriving DecidableEq

namespace Number

def twoPow (n : Nat) : Nat := Nat.pow 2 n

def tenPow (n : Nat) : Nat := Nat.pow 10 n

def isNegative (x : Number) : Bool := x.bits.toNat / twoPow 63 == 1

def exponentBits (x : Number) : Nat := x.bits.toNat / twoPow 52 % twoPow 11

def fractionBits (x : Number) : Nat := x.bits.toNat % twoPow 52

def isFinite (x : Number) : Bool := x.exponentBits != 2047

def isNaN (x : Number) : Bool := x.exponentBits == 2047 && x.fractionBits != 0

/-- The magnitude of a finite number is its significand times two to its `scale` minus 1074. -/
def significand (x : Number) : Nat :=
  if x.exponentBits = 0 then x.fractionBits else twoPow 52 + x.fractionBits

def scale (x : Number) : Nat := x.exponentBits - 1

def wholePart? (x : Number) : Option Nat :=
  if !x.isFinite then none
  else
    let m := x.significand * twoPow x.scale
    if m % twoPow 1074 = 0 then some (m / twoPow 1074) else none

/-- The number as an array index: whole and not negative, minus zero included. An index beyond 64
bits is the largest one. -/
def index? (x : Number) : Option Nat :=
  match x.wholePart? with
  | some 0 => some 0
  | some n => if x.isNegative then none else some (min n (twoPow 64 - 1))
  | none => none

end Number

end Memoizer
