import Memoizer.Source.Grammar
import Memoizer.Text.Basic

namespace Memoizer.Source

def isOpening (c : Cursor) : Bool := c.isPunct "(" || c.isPunct "[" || c.isPunct "\x7b"

def isClosing (c : Cursor) : Bool := c.isPunct ")" || c.isPunct "]" || c.isPunct "\x7d"

def balanced : Reader Unit :=
  iterate (fun depth => do
    let c ← get
    if c.token == .done || c.token == .invalid then failure
    let depth := if isOpening c then depth + 1 else if isClosing c then depth - 1 else depth
    advance
    return if depth == 0 then .inr () else .inl depth) 0

/-- A closing angle, also as the first part of a longer punctuator. -/
def closeAngle : Reader Unit := do
  let c ← get
  match c.token with
  | .punct p => if Text.startsWith ">" p then resume (c.here.drop 1) else failure
  | _ => failure

def typeArguments (g : Grammar) : Reader Unit := do
  punct "<"
  iterate (fun _ => do
    g.typeText
    if ← skipPunct "," then return .inl ()
    closeAngle
    return .inr ()) ()

def typeOperators : List String :=
  ["keyof", "typeof", "readonly", "unique", "infer", "asserts", "new", "abstract"]

def dottedName : Reader Unit := do
  let _ ← anyName
  iterate (fun _ => do
    if ← skipPunct "." then
      let _ ← anyName
      return .inl ()
    return .inr ()) ()

def startsType (c : Cursor) : Bool :=
  match c.token with
  | .name .. => true
  | .number _ => true
  | .bigint => true
  | .string _ => true
  | .punct p => ["(", "[", "\x7b", "<", "-"].contains p
  | _ => false

def namedType (g : Grammar) : Reader Unit := do
  dottedName
  if ← atPunct "<" then typeArguments g
  let c ← get
  if c.isWord "is" && !c.newline then
    advance
    g.typeText

def primaryType (g : Grammar) : Reader Unit := do
  let c ← get
  match c.token with
  | .punct "(" => do
    balanced
    if ← skipPunct "=>" then g.typeText
  | .punct "<" => do
    typeArguments g
    balanced
    punct "=>"
    g.typeText
  | .punct "-" => do
    advance
    advance
  | .punct _ => if isOpening c then balanced else failure
  | .name text _ =>
    if text == "import" then do
      advance
      balanced
      if ← skipPunct "." then namedType g
    else if typeOperators.contains text && startsType c.advance then do
      advance
      g.typeText
    else namedType g
  | .number _ => advance
  | .bigint => advance
  | .string _ => advance
  | _ => failure

def postfixType (g : Grammar) : Reader Unit := do
  primaryType g
  iterate (fun _ => do
    let c ← get
    if c.isPunct "[" && !c.newline then
      balanced
      return .inl ()
    return .inr ()) ()

def unionType (g : Grammar) : Reader Unit := do
  if (← atPunct "|") || (← atPunct "&") then advance
  postfixType g
  iterate (fun _ => do
    if (← atPunct "|") || (← atPunct "&") then
      advance
      postfixType g
      return .inl ()
    return .inr ()) ()

def typeText (g : Grammar) : Reader Unit := do
  unionType g
  let c ← get
  if c.isWord "extends" && !c.newline then
    advance
    unionType g
    punct "?"
    g.typeText
    punct ":"
    g.typeText

def typeMark (g : Grammar) : Reader Unit := do
  if (← read).language.typed && (← atPunct ":") then
    advance
    g.typeText

end Memoizer.Source
