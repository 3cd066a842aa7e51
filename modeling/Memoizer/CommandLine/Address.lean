import Memoizer.Text.Quoted

namespace Memoizer.CommandLine

def decimalValue (cs : List Char) : Nat := cs.foldl (fun n c => 10 * n + (c.toNat - 48)) 0

def isDecimal (cs : List Char) : Bool := !cs.isEmpty && cs.all Char.isDigit

def isSocketNumber (cs : List Char) : Bool := isDecimal cs && decimalValue cs < 65536

def isByte (cs : List Char) : Bool :=
  isDecimal cs && cs.length ≤ 3 && decimalValue cs < 256 && (cs.length == 1 || cs.head? != some '0')

def splitAt (sep : Char) : List Char → List (List Char)
  | [] => [[]]
  | c :: cs =>
    if c == sep then [] :: splitAt sep cs
    else match splitAt sep cs with
      | [] => [[c]]
      | part :: parts => (c :: part) :: parts

def isIpv4 (cs : List Char) : Bool :=
  let parts := splitAt '.' cs
  parts.length == 4 && parts.all isByte

def isGroup (cs : List Char) : Bool :=
  !cs.isEmpty && cs.length ≤ 4 && cs.all fun c => (Text.Quoted.hexDigit? c).isSome

/-- How many groups the parts stand for; an IPv4 address at the end stands for two. -/
def groupCount? : List (List Char) → Option Nat
  | [] => some 0
  | [part] => if isGroup part then some 1 else if isIpv4 part then some 2 else none
  | part :: parts => if isGroup part then (groupCount? parts).map (· + 1) else none

def splitGap : List Char → Option (List Char × List Char)
  | ':' :: ':' :: cs => some ([], cs)
  | c :: cs => (splitGap cs).map fun p => (c :: p.1, p.2)
  | [] => none

def groupsOf (cs : List Char) : Option Nat :=
  if cs.isEmpty then some 0 else groupCount? (splitAt ':' cs)

/-- Eight groups, or fewer with one gap for the missing ones. In front of a gap there is no IPv4
address. -/
def isIpv6 (cs : List Char) : Bool :=
  match splitGap cs with
  | none => groupsOf cs == some 8
  | some (front, back) =>
    match groupsOf front, groupsOf back with
    | some m, some n => m + n ≤ 7 && !front.contains '.'
    | _, _ => false

def isScope (cs : List Char) : Bool := isDecimal cs && decimalValue cs < 4294967296

def isBracketed (cs : List Char) : Bool :=
  match splitAt '%' cs with
  | [address] => isIpv6 address
  | [address, zone] => isIpv6 address && isScope zone
  | _ => false

def isAddress (text : String) : Bool :=
  match text.toList with
  | '[' :: cs =>
    match splitAt ']' cs with
    | [inside, ':' :: number] => isBracketed inside && isSocketNumber number
    | _ => false
  | cs =>
    match splitAt ':' cs with
    | [host, number] => isIpv4 host && isSocketNumber number
    | _ => false

end Memoizer.CommandLine
