import Memoizer.Number.Basic

namespace Memoizer.Number

/-- The reals that round to a finite double, in units of `1 / unit`: its own value, the ends of the
interval around it, and whether the ends belong to it. -/
structure Interval where
  value : Nat
  low : Nat
  high : Nat
  closed : Bool
  unit : Nat

def interval (x : Number) : Interval :=
  let m := x.significand
  let step := twoPow x.scale
  -- Below a power of two the lower neighbour is nearer.
  let below := if x.fractionBits = 0 ∧ 1 < x.exponentBits then step else 2 * step
  { value := 4 * m * step
    low := 4 * m * step - below
    high := 4 * m * step + 2 * step
    closed := m % 2 = 0
    unit := twoPow 1076 }

def Interval.holds (i : Interval) (num den : Nat) : Bool :=
  let n := num * i.unit
  if i.closed then i.low * den ≤ n && n ≤ i.high * den else i.low * den < n && n < i.high * den

structure Decimal where
  digits : Nat
  count : Nat
  point : Int
deriving DecidableEq

def decimalPoint (num den : Nat) : Int :=
  if den ≤ num then Int.ofNat (Nat.toDigits 10 (num / den)).length
  else 1 - Int.ofNat (Nat.toDigits 10 ((den - 1) / num)).length

/-- Of the two decimals of `count` digits around the value, the nearer one that lies in the
interval; of two equally near, the larger. -/
def Interval.nearest? (i : Interval) (point : Int) (count : Nat) : Option Decimal :=
  let places := Int.ofNat count - point
  let up := tenPow places.toNat
  let down := tenPow (-places).toNat
  let num := i.value * up
  let den := i.unit * down
  let floor := num / den
  let lower := i.holds (floor * down) up
  let upper := i.holds ((floor + 1) * down) up
  let upperNearer := den ≤ 2 * (num % den)
  if upper && (!lower || upperNearer) then some ⟨floor + 1, count, point⟩
  else if lower then some ⟨floor, count, point⟩
  else none

def Interval.shortest (i : Interval) : Decimal :=
  let point := decimalPoint i.value i.unit
  -- Seventeen digits always suffice.
  let counts := (List.range 17).map (· + 1)
  (counts.findSome? (i.nearest? point)).getD ⟨0, 1, point⟩

def shortest (x : Number) : Decimal :=
  x.interval.shortest

end Memoizer.Number
