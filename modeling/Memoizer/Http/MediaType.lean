namespace Memoizer.Http

structure MediaType where
  top : String
  sub : String
  suffix : Option String
deriving DecidableEq

def isTokenChar (c : Char) : Bool :=
  c.isAlphanum || "!#$%&'*+-.^_`|~".toList.contains c

def isQuotable (c : Char) : Bool := 32 ≤ c.toNat && c.toNat < 127

inductive ParameterMode
  | start
  | name
  | valueStart
  | value
  | quotedStart
  | quoted
  | afterQuoted

/-- Where reading parameters goes with a character, if it may stand there. A quoted value has at least
one character. -/
def ParameterMode.step : ParameterMode → Char → Option ParameterMode
  | .start, c => if c == ' ' then some .start else if isTokenChar c then some .name else none
  | .name, c => if c == '=' then some .valueStart else if isTokenChar c then some .name else none
  | .valueStart, c => if c == '"' then some .quotedStart else if isTokenChar c then some .value else none
  | .value, c => if c == ';' then some .start else if isTokenChar c then some .value else none
  | .quotedStart, c => if isQuotable c then some .quoted else none
  | .quoted, c => if c == '"' then some .afterQuoted else if isQuotable c then some .quoted else none
  | .afterQuoted, c => if c == ';' then some .start else if c == ' ' then some .afterQuoted else none

def ParameterMode.mayEnd : ParameterMode → Bool
  | .name => false
  | .quotedStart => false
  | .quoted => false
  | _ => true

def parametersFit : ParameterMode → List Char → Bool
  | mode, [] => mode.mayEnd
  | mode, c :: cs =>
    match mode.step c with
    | some mode => parametersFit mode cs
    | none => false

def lowerText (cs : List Char) : String := String.ofList (cs.map Char.toLower)

/-- The subtype in front of its last plus sign and the suffix behind it. A plus sign at the very
beginning is part of the subtype. -/
def splitSuffix (cs : List Char) : List Char × Option (List Char) :=
  let suffix := (cs.reverse.takeWhile (· != '+')).reverse
  let stem := cs.take (cs.length - suffix.length - 1)
  if stem.isEmpty then (cs, none) else (stem, some suffix)

def MediaType.ofParts (top sub : List Char) : MediaType :=
  let (stem, suffix) := splitSuffix sub
  ⟨lowerText top, lowerText stem, suffix.map lowerText⟩

def MediaType.parse? (text : String) : Option MediaType :=
  let cs := text.toList
  let top := cs.takeWhile isTokenChar
  match cs.drop top.length with
  | '/' :: rest =>
    let sub := rest.takeWhile isTokenChar
    let fits := match rest.drop sub.length with
      | [] => true
      | c :: params => c == ';' && !sub.isEmpty && parametersFit .start params
    if !top.isEmpty && fits then some (.ofParts top sub) else none
  | _ => none

def MediaType.isJson (t : MediaType) : Bool :=
  t.top == "application" && (t.sub == "json" || t.suffix == some "json")

end Memoizer.Http
