import Memoizer.Number.Shortest

namespace Memoizer.Number

def digitsText (n : Nat) : List Char := Nat.toDigits 10 n

def zeros (n : Nat) : List Char := List.replicate n '0'

def Decimal.positional (d : Decimal) : String :=
  let written := digitsText d.digits
  let extra := written.length - d.count
  let digits := (written.reverse.dropWhile (· == '0')).reverse
  let point := d.point + Int.ofNat extra
  if point ≤ 0 then String.ofList ("0.".toList ++ zeros (-point).toNat ++ digits)
  else if digits.length ≤ point.toNat then String.ofList (digits ++ zeros (point.toNat - digits.length))
  else String.ofList (digits.take point.toNat ++ ['.'] ++ digits.drop point.toNat)

def signText (x : Number) : String := if x.isNegative then "-" else ""

/-- A whole number below 10 ^ 15 is written as an integer, and minus zero without its sign; any
other number as its shortest decimal. -/
def format (x : Number) : String :=
  if x.isNaN then "NaN"
  else if !x.isFinite then x.signText ++ "inf"
  else match x.wholePart? with
    | some 0 => "0"
    | some n =>
      if n < tenPow 15 then x.signText ++ String.ofList (digitsText n) else x.signText ++ x.shortest.positional
    | none => x.signText ++ x.shortest.positional

end Memoizer.Number
