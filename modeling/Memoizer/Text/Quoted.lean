namespace Memoizer.Text.Quoted

def escapeChar : Char → List Char
  | '\\' => ['\\', '\\']
  | '"' => ['\\', '"']
  | '\n' => ['\\', 'n']
  | '\r' => ['\\', 'r']
  | '\t' => ['\\', 't']
  | c => [c]

def escape (s : String) : String :=
  String.ofList (s.toList.flatMap escapeChar)

def quote (s : String) : String :=
  "\"" ++ escape s ++ "\""

def hexDigit? (c : Char) : Option Nat :=
  let n := c.toNat
  if 48 ≤ n && n ≤ 57 then some (n - 48)
  else if 97 ≤ n && n ≤ 102 then some (n - 87)
  else if 65 ≤ n && n ≤ 70 then some (n - 55)
  else none

def octalDigit? (c : Char) : Option Nat :=
  let n := c.toNat
  if 48 ≤ n && n ≤ 55 then some (n - 48) else none

/-- Where reading stands inside a literal: between characters, behind a backslash, inside a numeric
escape with its value so far, or behind an escaped carriage return. -/
inductive Mode
  | plain
  | escape
  | hex (left value : Nat)
  | openCode
  | braces (digits value : Nat)
  | octal (left value : Nat)
  | escapedReturn

inductive Step
  | close (out : List Nat)
  | fail
  | more (out : List Nat) (next : Mode)

def Step.after (out : List Nat) : Step → Step
  | .close rest => .close (out ++ rest)
  | .fail => .fail
  | .more rest next => .more (out ++ rest) next

def plainStep (quote c : Char) : Step :=
  if c = quote then .close []
  else if c = '\\' then .more [] .escape
  else if c = '\n' then .fail
  else if c = '\r' then .fail
  else .more [c.toNat] .plain

def escapeStep (c : Char) : Step :=
  if c = 'n' then .more [10] .plain
  else if c = 't' then .more [9] .plain
  else if c = 'r' then .more [13] .plain
  else if c = 'b' then .more [8] .plain
  else if c = 'v' then .more [11] .plain
  else if c = 'f' then .more [12] .plain
  else if c = 'x' then .more [] (.hex 2 0)
  else if c = 'u' then .more [] .openCode
  else if c = '\r' then .more [] .escapedReturn
  else if c = '\n' ∨ c = '\u2028' ∨ c = '\u2029' then .more [] .plain
  else match octalDigit? c with
    | some d => .more [] (.octal (if d ≤ 3 then 2 else 1) d)
    | none => .more [c.toNat] .plain

def hexStep (left value : Nat) (c : Char) : Step :=
  match hexDigit? c with
  | none => .fail
  | some d =>
    if left ≤ 1 then .more [16 * value + d] .plain else .more [] (.hex (left - 1) (16 * value + d))

def step (quote : Char) : Mode → Char → Step
  | .plain, c => plainStep quote c
  | .escape, c => escapeStep c
  | .hex left value, c => hexStep left value c
  | .openCode, c => if c = '{' then .more [] (.braces 0 0) else hexStep 4 0 c
  | .braces digits value, c =>
    if c = '}' then
      if digits = 0 ∨ value > 0x10FFFF then .fail else .more [value] .plain
    else match hexDigit? c with
      | some d => .more [] (.braces (digits + 1) (16 * value + d))
      | none => .fail
  | .octal left value, c =>
    match octalDigit? c with
    | some d =>
      if left ≤ 1 then .more [8 * value + d] .plain else .more [] (.octal (left - 1) (8 * value + d))
    | none => (plainStep quote c).after [value]
  | .escapedReturn, c => if c = '\n' then .more [] .plain else plainStep quote c

/-- The code units of the rest of a literal opened by `quote`, and the text behind it. -/
def readUnits (quote : Char) : Mode → List Char → Option (List Nat × List Char)
  | _, [] => none
  | mode, c :: rest =>
    match step quote mode c with
    | .close out => some (out, rest)
    | .fail => none
    | .more out next => (readUnits quote next rest).map fun p => (out ++ p.1, p.2)

def charOf (n : Nat) : Char :=
  if n.isValidChar then Char.ofNat n else '\ufffd'

def isHigh (n : Nat) : Bool := 0xD800 ≤ n && n < 0xDC00

def isLow (n : Nat) : Bool := 0xDC00 ≤ n && n < 0xE000

def joinPair (high low : Nat) : Nat :=
  0x10000 + (high - 0xD800) * 0x400 + (low - 0xDC00)

/-- The characters of a list of code units; a high surrogate waits for the low one behind it. -/
def joinUnits : Option Nat → List Nat → List Char
  | none, [] => []
  | some high, [] => [charOf high]
  | none, n :: rest => if isHigh n then joinUnits (some n) rest else charOf n :: joinUnits none rest
  | some high, n :: rest =>
    if isLow n then charOf (joinPair high n) :: joinUnits none rest
    else if isHigh n then charOf high :: joinUnits (some n) rest
    else charOf high :: charOf n :: joinUnits none rest

def read (quote : Char) (cs : List Char) : Option (List Char × List Char) :=
  (readUnits quote .plain cs).map fun p => (joinUnits none p.1, p.2)

end Memoizer.Text.Quoted
