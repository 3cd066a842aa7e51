import Memoizer.Number.Rounding
import Memoizer.Source.Chars
import Memoizer.Text.Quoted

namespace Memoizer.Source

/-- A slash is always read as a punctuator and a backtick as a token of its own; where a regular expression or a template
may start, the grammar reads on from there. -/
inductive Token
  | name (text : String) (escaped : Bool)
  | privateName (text : String)
  | punct (text : String)
  | number (value : Number)
  | bigint
  | string (value : String)
  | backtick
  | done
  | invalid
deriving DecidableEq

/-- Longest first, so that the first one found is the longest. -/
def punctuators : List String :=
  [">>>=", "...", "===", "!==", "**=", "<<=", ">>=", ">>>", "&&=", "||=", "??=", "=>", "==", "!=", "<=", ">=",
    "&&", "||", "??", "?.", "++", "--", "+=", "-=", "*=", "/=", "%=", "&=", "|=", "^=", "<<", ">>", "**",
    "\x7b", "\x7d", "(", ")", "[", "]", ".", ";", ",", "<", ">", "+", "-", "*", "/", "%", "&", "|", "^", "!",
    "~", "?", ":", "=", "@"]

def startsDigit (cs : List Char) : Bool := cs.head?.any Char.isDigit

def lexPunct (cs : List Char) : Token × Nat :=
  match punctuators.find? fun p => p.toList.isPrefixOf cs with
  | none => (.invalid, 0)
  -- A question mark, a point and a digit are a conditional with a fraction behind it.
  | some p => if p == "?." && startsDigit (cs.drop 2) then (.punct "?", 1) else (.punct p, p.length)

inductive NameMode
  | plain
  | slash
  | openCode
  | hex (left value : Nat)
  | braces (value : Nat)

/-- The characters of a name with its escapes resolved, and how much text it takes. -/
def readName : NameMode → List Char → Option (List Char × Nat)
  | .plain, [] => some ([], 0)
  | _, [] => none
  | .plain, c :: cs =>
    if isNamePart c then (readName .plain cs).map fun p => (c :: p.1, p.2 + 1)
    else if c == '\\' then (readName .slash cs).map fun p => (p.1, p.2 + 1)
    else some ([], 0)
  | .slash, c :: cs =>
    if c == 'u' then (readName .openCode cs).map fun p => (p.1, p.2 + 1) else none
  | .openCode, c :: cs =>
    if c == '{' then (readName (.braces 0) cs).map fun p => (p.1, p.2 + 1)
    else match Text.Quoted.hexDigit? c with
      | some d => (readName (.hex 3 d) cs).map fun p => (p.1, p.2 + 1)
      | none => none
  | .hex left value, c :: cs =>
    match Text.Quoted.hexDigit? c with
    | none => none
    | some d =>
      if left ≤ 1 then
        (readName .plain cs).map fun p => (Text.Quoted.charOf (16 * value + d) :: p.1, p.2 + 1)
      else (readName (.hex (left - 1) (16 * value + d)) cs).map fun p => (p.1, p.2 + 1)
  | .braces value, c :: cs =>
    if c == '}' then (readName .plain cs).map fun p => (Text.Quoted.charOf value :: p.1, p.2 + 1)
    else match Text.Quoted.hexDigit? c with
      | some d => (readName (.braces (16 * value + d)) cs).map fun p => (p.1, p.2 + 1)
      | none => none

def isNameText : List Char → Bool
  | [] => false
  | c :: cs => isNameStart c && cs.all isNamePart

def lexName (make : String → Bool → Token) (cs : List Char) : Token × Nat :=
  match readName .plain cs with
  | some (chars, taken) =>
    if isNameText chars then (make (String.ofList chars) (chars.length != taken), taken) else (.invalid, 0)
  | none => (.invalid, 0)

def digitIn (radix : Nat) (c : Char) : Bool := (Text.Quoted.hexDigit? c).any (· < radix)

def valueIn (radix : Nat) (digits : List Char) : Nat :=
  digits.foldl (fun n c => radix * n + (Text.Quoted.hexDigit? c).getD 0) 0

def separatorsFit : List Char → Bool
  | [] => true
  | '_' :: _ => false
  | _ :: cs => fit cs
where
  fit : List Char → Bool
    | [] => true
    | ['_'] => false
    | '_' :: '_' :: _ => false
    | _ :: cs => fit cs

def digitRun (radix : Nat) (cs : List Char) : List Char :=
  cs.takeWhile fun c => digitIn radix c || c == '_'

def withoutSeparators (cs : List Char) : List Char := cs.filter (· != '_')

def endsNumber (cs : List Char) (result : Token × Nat) : Token × Nat :=
  if (cs.drop result.2).head?.any fun c => isNamePart c || c == '\\' then (.invalid, 0) else result

def lexRadix (radix : Nat) (cs : List Char) : Token × Nat :=
  let run := digitRun radix (cs.drop 2)
  let digits := withoutSeparators run
  let taken := 2 + run.length
  if digits.isEmpty || !separatorsFit run then (.invalid, 0)
  else if (cs.drop taken).head? == some 'n' then (.bigint, taken + 1)
  else (.number (Number.ofNat (valueIn radix digits)), taken)

def fractionRun (cs : List Char) : List Char × Nat :=
  match cs with
  | '.' :: rest =>
    let run := digitRun 10 rest
    (run, 1 + run.length)
  | _ => ([], 0)

def exponentRun (cs : List Char) : Option (Int × Nat) :=
  match cs with
  | c :: rest =>
    if c == 'e' || c == 'E' then
      let (sign, skip) : Int × Nat := match rest.head? with
        | some '-' => (-1, 1)
        | some '+' => (1, 1)
        | _ => (1, 0)
      let run := digitRun 10 (rest.drop skip)
      if run.isEmpty || !separatorsFit run then none
      else some (sign * Int.ofNat (valueIn 10 (withoutSeparators run)), 1 + skip + run.length)
    else some (0, 0)
  | [] => some (0, 0)

def lexDecimal (cs : List Char) : Token × Nat :=
  let whole := digitRun 10 cs
  let rest := cs.drop whole.length
  if !whole.isEmpty && rest.head? == some 'n' then
    (if separatorsFit whole then (.bigint, whole.length + 1) else (.invalid, 0))
  else
    let (fraction, fractionTaken) := fractionRun rest
    match exponentRun (rest.drop fractionTaken) with
    | none => (.invalid, 0)
    | some (exponent, exponentTaken) =>
      if !separatorsFit whole || !separatorsFit fraction then (.invalid, 0)
      else
        let places := withoutSeparators fraction
        let digits := valueIn 10 (withoutSeparators whole ++ places)
        (.number (Number.ofDecimal digits (exponent - Int.ofNat places.length)),
          whole.length + fractionTaken + exponentTaken)

def lexLegacyOctal (cs : List Char) : Token × Nat :=
  let run := cs.takeWhile Char.isDigit
  if run.all (digitIn 8) then (.number (Number.ofNat (valueIn 8 run)), run.length) else lexDecimal cs

def lexNumber (cs : List Char) : Token × Nat :=
  endsNumber cs <| match cs with
    | '0' :: c :: _ =>
      if c == 'x' || c == 'X' then lexRadix 16 cs
      else if c == 'o' || c == 'O' then lexRadix 8 cs
      else if c == 'b' || c == 'B' then lexRadix 2 cs
      else if c.isDigit then lexLegacyOctal cs
      else lexDecimal cs
    | _ => lexDecimal cs

def lexString (quote : Char) (cs : List Char) : Token × Nat :=
  match Text.Quoted.read quote cs with
  | some (chars, rest) => (.string (String.ofList chars), 1 + cs.length - rest.length)
  | none => (.invalid, 0)

/-- The token at the beginning of a text without blanks in front, and how much of it it takes. -/
def lex : List Char → Token × Nat
  | [] => (.done, 0)
  | c :: cs =>
    if isNameStart c || c == '\\' then lexName .name (c :: cs)
    else if c == '#' then
      match lexName (fun text _ => .privateName text) cs with
      | (token, taken) => (token, taken + 1)
    else if c.isDigit || (c == '.' && startsDigit cs) then lexNumber (c :: cs)
    else if c == '"' || c == '\'' then lexString c cs
    else if c == '`' then (.backtick, 1)
    else lexPunct (c :: cs)

inductive BlankMode
  | code
  | line
  | opening
  | block
  | closing

/-- Passes over white space and comments: whether a line end was among it, and how much it was.
A comment that is not closed is an error. -/
def skipBlanks : BlankMode → Bool → Nat → List Char → Option (Bool × Nat)
  | .code, newline, taken, [] => some (newline, taken)
  | .line, newline, taken, [] => some (newline, taken)
  | _, _, _, [] => none
  | .code, newline, taken, c :: cs =>
    if isLineEnd c then skipBlanks .code true (taken + 1) cs
    else if isSpace c then skipBlanks .code newline (taken + 1) cs
    else if c == '/' && cs.head? == some '/' then skipBlanks .line newline (taken + 1) cs
    else if c == '/' && cs.head? == some '*' then skipBlanks .opening newline (taken + 1) cs
    else some (newline, taken)
  | .line, newline, taken, c :: cs =>
    if isLineEnd c then skipBlanks .code true (taken + 1) cs else skipBlanks .line newline (taken + 1) cs
  | .opening, newline, taken, _ :: cs => skipBlanks .block newline (taken + 1) cs
  | .closing, newline, taken, _ :: cs => skipBlanks .code newline (taken + 1) cs
  | .block, newline, taken, c :: cs =>
    if c == '*' && cs.head? == some '/' then skipBlanks .closing newline (taken + 1) cs
    else skipBlanks .block (newline || isLineEnd c) (taken + 1) cs

end Memoizer.Source
