import Memoizer.Source.Cursor
import Memoizer.Source.Lines

namespace Memoizer.Source

structure Language where
  isModule : Bool := true
  markup : Bool := false
  typed : Bool := false
deriving DecidableEq

/-- What the surroundings allow: `return`, `await` and `yield` as operators, `in` as one unless in the head of a loop, and
whether a colon ends the expression, so that it starts no result type. -/
structure Context where
  source : SourceText
  size : Nat
  language : Language
  inFunction : Bool := false
  awaits : Bool := false
  yields : Bool := false
  noIn : Bool := false
  colonEnds : Bool := false

abbrev Reader := ReaderT Context (StateT Cursor Option)

def advance : Reader Unit := modify Cursor.advance

def resume (m : Mark) : Reader Unit := set (Cursor.at m)

def atPunct (p : String) : Reader Bool := return (← get).isPunct p

def atWord (w : String) : Reader Bool := return (← get).isWord w

def skipPunct (p : String) : Reader Bool := do
  let found ← atPunct p
  if found then advance
  return found

def skipWord (w : String) : Reader Bool := do
  let found ← atWord w
  if found then advance
  return found

def punct (p : String) : Reader Unit := do
  unless ← skipPunct p do failure

def word (w : String) : Reader Unit := do
  unless ← skipWord w do failure

def afterNewline : Reader Bool := return (← get).newline

def start : Reader Mark := return (← get).here

def textFrom (m : Mark) : Reader String := return m.slice (← get).behind

def placeOf (m : Mark) : Reader Place := do
  let ctx ← read
  match ctx.source.placeAt (byteLength (ctx.source.text.take (ctx.size - m.left))) with
  | some place => return place
  | none => failure

def withContext {α : Type} (f : Context → Context) (r : Reader α) : Reader α := fun ctx => r (f ctx)

def enclosed {α : Type} (r : Reader α) : Reader α :=
  withContext (fun ctx => { ctx with noIn := false, colonEnds := false }) r

/-- Repeats a step, handing its result on, until it gives a final one. A step that takes no text ends
the reading in failure, so the repetition ends. -/
def iterate {α β : Type} (step : α → Reader (α ⊕ β)) (a : α) : Reader β := fun ctx cursor =>
  match step a ctx cursor with
  | none => none
  | some (.inr b, cursor') => some (b, cursor')
  | some (.inl a', cursor') =>
    if cursor'.here.left < cursor.here.left then iterate step a' ctx cursor' else none
termination_by _ cursor => cursor.here.left

/-- Items up to a closing punctuator, with commas between them and maybe one behind the last. -/
def commaList {α : Type} (close : String) (item : Reader α) : Reader (List α) := do
  if ← skipPunct close then return []
  iterate (fun items => do
    let items := items ++ [← item]
    if ← skipPunct close then return .inr items
    punct ","
    if ← skipPunct close then return .inr items
    return .inl items) []

/-- A statement ends at a semicolon, in front of a closing brace, or where a line or the text ends. -/
def semicolon : Reader Unit := do
  if ← skipPunct ";" then return
  let c ← get
  unless c.isPunct "\x7d" || c.token == .done || c.newline do failure

def reservedWords : List String :=
  ["break", "case", "catch", "class", "const", "continue", "debugger", "default", "delete", "do", "else", "enum",
    "export", "extends", "false", "finally", "for", "function", "if", "import", "in", "instanceof", "new", "null",
    "return", "super", "switch", "this", "throw", "true", "try", "typeof", "var", "void", "while", "with"]

def isVariable (ctx : Context) (text : String) : Bool :=
  !reservedWords.contains text && !(ctx.awaits && text == "await") && !(ctx.yields && text == "yield")

def anyName : Reader String := do
  match (← get).token with
  | .name text _ => do
    advance
    return text
  | _ => failure

def variableName : Reader String := do
  let text ← anyName
  if isVariable (← read) text then return text else failure

def standsAtVariable (ctx : Context) (c : Cursor) : Bool :=
  match c.token with
  | .name text _ => isVariable ctx text
  | _ => false

def stringToken : Reader String := do
  match (← get).token with
  | .string value => do
    advance
    return value
  | _ => failure

end Memoizer.Source
