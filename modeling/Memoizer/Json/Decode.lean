import Memoizer.Number.Rounding
import Memoizer.Text.Quoted

namespace Memoizer.Json

/-- Faults come in the order of the text: a value of the wrong shape is reported before anything malformed behind it. -/
inductive Fault
  | malformed
  | mismatch
deriving DecidableEq

abbrev Decoder (α : Type) := List Char → Except Fault (α × List Char)

def isBlank (c : Char) : Bool := c == ' ' || c == '\n' || c == '\t' || c == '\r'

def skipBlank (cs : List Char) : List Char := cs.dropWhile isBlank

inductive StringMode
  | plain
  | escape
  | hex (left value : Nat)

inductive StringStep
  | close
  | fail
  | more (out : List Nat) (next : StringMode)

def escapeStep (c : Char) : StringStep :=
  match c with
  | '"' => .more [34] .plain
  | '\\' => .more [92] .plain
  | '/' => .more [47] .plain
  | 'b' => .more [8] .plain
  | 'f' => .more [12] .plain
  | 'n' => .more [10] .plain
  | 'r' => .more [13] .plain
  | 't' => .more [9] .plain
  | 'u' => .more [] (.hex 4 0)
  | _ => .fail

def stringStep : StringMode → Char → StringStep
  | .plain, c =>
    if c = '"' then .close
    else if c = '\\' then .more [] .escape
    else if c.toNat < 0x20 then .fail
    else .more [c.toNat] .plain
  | .escape, c => escapeStep c
  | .hex left value, c =>
    match Text.Quoted.hexDigit? c with
    | none => .fail
    | some d =>
      if left ≤ 1 then .more [16 * value + d] .plain else .more [] (.hex (left - 1) (16 * value + d))

def readUnits : StringMode → List Char → Option (List Nat × List Char)
  | _, [] => none
  | mode, c :: rest =>
    match stringStep mode c with
    | .close => some ([], rest)
    | .fail => none
    | .more out next => (readUnits next rest).map fun p => (out ++ p.1, p.2)

/-- The characters of code units; a surrogate has to come with its partner. -/
def joinUnits : Option Nat → List Nat → Option (List Char)
  | none, [] => some []
  | some _, [] => none
  | none, n :: rest =>
    if Text.Quoted.isHigh n then joinUnits (some n) rest
    else if Text.Quoted.isLow n then none
    else (joinUnits none rest).map (Text.Quoted.charOf n :: ·)
  | some high, n :: rest =>
    if Text.Quoted.isLow n then
      (joinUnits none rest).map (Text.Quoted.charOf (Text.Quoted.joinPair high n) :: ·)
    else none

def readString (cs : List Char) : Option (String × List Char) :=
  (readUnits .plain cs).bind fun p => (joinUnits none p.1).map fun chars => (String.ofList chars, p.2)

def skipWord (word : String) (cs : List Char) : Option (List Char) :=
  if word.toList.isPrefixOf cs then some (cs.drop word.length) else none

def readDigits (cs : List Char) : Nat × Nat × List Char :=
  let digits := cs.takeWhile Char.isDigit
  (digits.foldl (fun n c => 10 * n + (c.toNat - 48)) 0, digits.length, cs.dropWhile Char.isDigit)

def readWhole (cs : List Char) : Option (Nat × List Char) :=
  let (value, count, rest) := readDigits cs
  -- There is no leading zero.
  if count = 0 || (1 < count && cs.head? == some '0') then none else some (value, rest)

def readFraction : List Char → Option (Nat × Nat × List Char)
  | '.' :: rest =>
    let (value, count, rest) := readDigits rest
    if count = 0 then none else some (value, count, rest)
  | cs => some (0, 0, cs)

def readExponentDigits (sign : Int) (cs : List Char) : Option (Int × List Char) :=
  let (value, count, rest) := readDigits cs
  if count = 0 then none else some (sign * Int.ofNat value, rest)

def readExponent : List Char → Option (Int × List Char)
  | c :: rest =>
    if c == 'e' || c == 'E' then
      match rest with
      | '-' :: rest => readExponentDigits (-1) rest
      | '+' :: rest => readExponentDigits 1 rest
      | _ => readExponentDigits 1 rest
    else some (0, c :: rest)
  | [] => some (0, [])

def readNumber (cs : List Char) : Option (Number × List Char) := do
  let cs := if cs.head? == some '-' then cs.tail else cs
  let (whole, rest) ← readWhole cs
  let (fraction, places, rest) ← readFraction rest
  let (exponent, rest) ← readExponent rest
  some (Number.ofDecimal (whole * Number.tenPow places + fraction) (exponent - Int.ofNat places), rest)

def startsNumber (c : Char) : Bool := c == '-' || c.isDigit

mutual

/-- Passes over any value. It may be nested as deep as the fuel, the length of the text. -/
def skipValue : Nat → List Char → Option (List Char)
  | 0, _ => none
  | fuel + 1, cs =>
    match skipBlank cs with
    | [] => none
    | c :: rest =>
      if c == '"' then (readUnits .plain rest).map (·.2)
      else if c == '[' then skipElements fuel true rest
      else if c == '{' then skipMembers fuel true rest
      else if startsNumber c then (readNumber (c :: rest)).map (·.2)
      else if c == 't' then skipWord "true" (c :: rest)
      else if c == 'f' then skipWord "false" (c :: rest)
      else if c == 'n' then skipWord "null" (c :: rest)
      else none

def skipElements : Nat → Bool → List Char → Option (List Char)
  | 0, _, _ => none
  | fuel + 1, first, cs =>
    match first, skipBlank cs with
    | true, ']' :: rest => some rest
    | true, rest => (skipValue fuel rest).bind (skipElements fuel false)
    | false, ']' :: rest => some rest
    | false, ',' :: rest => (skipValue fuel rest).bind (skipElements fuel false)
    | false, _ => none

def skipMembers : Nat → Bool → List Char → Option (List Char)
  | 0, _, _ => none
  | fuel + 1, first, cs =>
    match first, skipBlank cs with
    | _, '}' :: rest => some rest
    | true, '"' :: rest => skipMember fuel rest
    | false, ',' :: rest =>
      match skipBlank rest with
      | '"' :: rest => skipMember fuel rest
      | _ => none
    | _, _ => none

def skipMember : Nat → List Char → Option (List Char)
  | 0, _ => none
  | fuel + 1, cs =>
    match readUnits .plain cs with
    | none => none
    | some (_, rest) =>
      match skipBlank rest with
      | ':' :: rest => (skipValue fuel rest).bind (skipMembers fuel false)
      | _ => none

end

/-- The fault of a value that is not of the wanted kind: a scalar is read first and may be malformed,
an array or object is of the wrong shape as it opens. -/
def faultAt : List Char → Fault
  | [] => .malformed
  | c :: rest =>
    let wellFormed :=
      if c == '"' then (readString rest).isSome
      else if c == '[' || c == '{' then true
      else if startsNumber c then (readNumber (c :: rest)).any (·.1.isFinite)
      else if c == 't' then (skipWord "true" (c :: rest)).isSome
      else if c == 'f' then (skipWord "false" (c :: rest)).isSome
      else if c == 'n' then (skipWord "null" (c :: rest)).isSome
      else false
    if wellFormed then .mismatch else .malformed

def orMalformed {α : Type} : Option α → Except Fault α
  | some a => .ok a
  | none => .error .malformed

def string : Decoder String := fun cs =>
  match skipBlank cs with
  | '"' :: rest => orMalformed (readString rest)
  | cs => .error (faultAt cs)

def bool : Decoder Bool := fun cs =>
  match skipBlank cs with
  | 't' :: rest => (orMalformed (skipWord "true" ('t' :: rest))).map (true, ·)
  | 'f' :: rest => (orMalformed (skipWord "false" ('f' :: rest))).map (false, ·)
  | cs => .error (faultAt cs)

def nextElement (first : Bool) (cs : List Char) : Except Fault (Option (List Char)) :=
  match skipBlank cs with
  | ']' :: _ => .ok none
  | ',' :: rest =>
    if first then .ok (some (',' :: rest))
    else match skipBlank rest with
      | [] => .error .malformed
      | ']' :: _ => .error .malformed
      | rest => .ok (some rest)
  | [] => .error .malformed
  | rest => if first then .ok (some rest) else .error .malformed

def closeArray (cs : List Char) : Except Fault (List Char) :=
  match skipBlank cs with
  | ']' :: rest => .ok rest
  | _ => .error .malformed

def elements {α : Type} (decode : Decoder α) : Nat → Bool → Decoder (List α)
  | 0, _, _ => .error .malformed
  | fuel + 1, first, cs => do
    match ← nextElement first cs with
    | none => do
      let rest ← closeArray cs
      .ok ([], rest)
    | some cs => do
      let (a, rest) ← decode cs
      let (as, rest) ← elements decode fuel false rest
      .ok (a :: as, rest)

def list {α : Type} (decode : Decoder α) : Decoder (List α) := fun cs =>
  match skipBlank cs with
  | '[' :: rest => elements decode (rest.length + 1) true rest
  | cs => .error (faultAt cs)

/-- A field of a record in the making: how its value is entered, and whether it may be left out. -/
structure RecordField (σ : Type) where
  key : String
  required : Bool := false
  enter : σ → Decoder σ

/-- The record from an array, by position. Fields at the end may be left out. -/
def positional {σ : Type} : List (RecordField σ) → Bool → σ → Decoder σ
  | [], _, s, cs => do
    let rest ← closeArray cs
    .ok (s, rest)
  | f :: fields, first, s, cs => do
    match ← nextElement first cs with
    | none => if f.required then .error .mismatch else positional fields first s cs
    | some cs => do
      let (s, rest) ← f.enter s cs
      positional fields false s rest

def nextKey (first : Bool) (cs : List Char) : Except Fault (Option (List Char)) :=
  match first, skipBlank cs with
  | _, '}' :: _ => .ok none
  | true, '"' :: rest => .ok (some rest)
  | false, ',' :: rest =>
    match skipBlank rest with
    | '"' :: rest => .ok (some rest)
    | _ => .error .malformed
  | _, _ => .error .malformed

def colon (cs : List Char) : Except Fault (List Char) :=
  match skipBlank cs with
  | ':' :: rest => .ok rest
  | _ => .error .malformed

def closeObject (cs : List Char) : Except Fault (List Char) :=
  match skipBlank cs with
  | '}' :: rest => .ok rest
  | _ => .error .malformed

/-- The record from an object. A key of no field is passed over, a repeated key is a mismatch. -/
def members {σ : Type} (fields : List (RecordField σ)) : Nat → List String → σ → Decoder σ
  | 0, _, _, _ => .error .malformed
  | fuel + 1, seen, s, cs => do
    match ← nextKey seen.isEmpty cs with
    | none =>
      if fields.any fun f => f.required && !seen.contains f.key then .error .mismatch
      else do
        let rest ← closeObject cs
        .ok (s, rest)
    | some cs => do
      let (key, rest) ← orMalformed (readString cs)
      match fields.find? (·.key == key) with
      | some f =>
        if seen.contains key then .error .mismatch
        else do
          let rest ← colon rest
          let (s, rest) ← f.enter s rest
          members fields fuel (key :: seen) s rest
      | none => do
        let rest ← colon rest
        let rest ← orMalformed (skipValue (rest.length + 1) rest)
        members fields fuel (key :: seen) s rest

def record {σ : Type} (fields : List (RecordField σ)) (start : σ) : Decoder σ := fun cs =>
  match skipBlank cs with
  | '{' :: rest => members fields (rest.length + 1) [] start rest
  | '[' :: rest => positional fields true start rest
  | cs => .error (faultAt cs)

def decode {α : Type} (d : Decoder α) (text : String) : Except Fault α := do
  let (a, rest) ← d text.toList
  if (skipBlank rest).isEmpty then .ok a else .error .malformed

end Memoizer.Json
