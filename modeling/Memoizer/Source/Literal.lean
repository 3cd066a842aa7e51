import Memoizer.Source.Function

namespace Memoizer.Source

def templateRun : Bool → List Char → Option (Nat × Bool)
  | _, [] => none
  | true, _ :: cs => (templateRun false cs).map fun p => (p.1 + 1, p.2)
  | false, c :: cs =>
    if c == '`' then some (0, false)
    else if c == '$' && cs.head? == some '{' then some (0, true)
    else (templateRun (c == '\\') cs).map fun p => (p.1 + 1, p.2)

def template (g : Grammar) : Reader Expr :=
  iterate (fun (parts : List String × List Expr) => do
    let m := (← get).next
    match templateRun false m.text with
    | none => failure
    | some (size, false) => do
      resume (m.drop (size + 1))
      return .inr (.template (parts.1 ++ [m.slice (m.left - size)]) parts.2)
    | some (size, true) => do
      resume (m.drop (size + 2))
      let node ← enclosed g.expression
      unless ← atPunct "\x7d" do failure
      return .inl (parts.1 ++ [m.slice (m.left - size)], parts.2 ++ [node.expr])) ([], [])

inductive RegexMode
  | plain
  | escaped
  | set
  | setEscaped

def regexRun : RegexMode → List Char → Option Nat
  | _, [] => none
  | mode, c :: cs =>
    if isLineEnd c then none
    else match mode with
      | .plain =>
        if c == '/' then some 0
        else
          let mode := if c == '\\' then RegexMode.escaped else if c == '[' then .set else .plain
          (regexRun mode cs).map (· + 1)
      | .escaped => (regexRun .plain cs).map (· + 1)
      | .set =>
        let mode := if c == '\\' then RegexMode.setEscaped else if c == ']' then .plain else .set
        (regexRun mode cs).map (· + 1)
      | .setEscaped => (regexRun .set cs).map (· + 1)

def isRegexFlag (c : Char) : Bool := "dgimsuvy".toList.contains c

def distinct : List Char → Bool
  | [] => true
  | c :: cs => !cs.contains c && distinct cs

def regex : Reader Node := do
  let m ← start
  match regexRun .plain (m.drop 1).text with
  | none => failure
  | some size => do
    let behind := m.drop (size + 2)
    let flags := behind.text.takeWhile isNamePart
    unless flags.all isRegexFlag && distinct flags do failure
    resume (behind.drop flags.length)
    verbatimNode m

structure Items (α : Type) where
  items : List α := []
  fits : Bool := true
  pending : Bool := false

def Items.push {α : Type} (items : Items α) (item : α) (fits pending : Bool) : Items α :=
  ⟨items.items ++ [item], items.fits && fits, items.pending || pending⟩

def Items.unfit {α : Type} (items : Items α) : Items α := { items with fits := false }

def Items.target {α : Type} (items : Items α) (m : Mark) : Reader Target := do
  if items.fits then return .pattern (.verbatim (← textFrom m)) else return .invalid

/-- An array literal from its bracket on. A comma without an element in front of it is a hole; a comma
behind the last element adds nothing. In a pattern nothing follows a rest element. -/
def arrayLiteral (g : Grammar) : Reader Node := do
  let m ← start
  punct "["
  let elems ← iterate (fun (elems : Items (Option Expr)) => do
    if ← skipPunct "]" then return .inr elems
    if ← skipPunct "," then return .inl (elems.push none true false)
    let isSpread ← skipPunct "..."
    let node ← enclosed g.assign
    let elems :=
      if isSpread then elems.push (some (.spread node.expr)) node.target.isValid node.pending
      else elems.push (some node.expr) node.isElement node.pending
    if ← skipPunct "]" then return .inr elems
    punct ","
    return .inl (if isSpread then elems.unfit else elems)) {}
  return { start := m, expr := .array elems.items, target := ← elems.target m, pending := elems.pending }

/-- Whether the token ends a property key, so that the word in front of it is the key itself. -/
def endsKey (c : Cursor) : Bool :=
  ["(", ",", "\x7d", ":", "=", ";"].any c.isPunct || c.token == .done

def methodWords : Reader MethodWords := do
  let c ← get
  let next := c.advance
  if c.isWord "async" && !endsKey next && !next.newline then
    advance
    return { async := true, generator := ← skipPunct "*" }
  if (c.isWord "get" || c.isWord "set") && !endsKey next then
    advance
    return { kind := if c.isWord "get" then .getter else .setter }
  return { generator := ← skipPunct "*" }

def objectMember (g : Grammar) (members : Items ObjectMember) : Reader (Items ObjectMember) := do
  let m ← start
  if ← skipPunct "..." then
    let node ← enclosed g.assign
    settle node
    return members.push (.spread node.expr) (match node.target with | .simple _ => true | _ => false) false
  let words ← methodWords
  let key ← propertyKey g
  if words != {} || (← atPunct "(") then
    methodRest g words
    return members.push (.verbatim (← textFrom m)) false false
  if ← skipPunct ":" then
    let node ← enclosed g.assign
    return members.push (.property key.key node.expr false) node.isElement node.pending
  match key.shorthand with
  | none => failure
  | some name => do
    let isDefaulted ← skipPunct "="
    if isDefaulted then
      let _ ← enclosed g.value
    return members.push (.property key.key (.ident name) true) true isDefaulted

def objectLiteral (g : Grammar) : Reader Node := do
  let m ← start
  punct "\x7b"
  let members ← iterate (fun (members : Items ObjectMember) => do
    if ← skipPunct "\x7d" then return .inr members
    let isSpread ← atPunct "..."
    let members ← objectMember g members
    if ← skipPunct "\x7d" then return .inr members
    punct ","
    return .inl (if isSpread then members.unfit else members)) {}
  return { start := m, expr := .object members.items, target := ← members.target m, pending := members.pending }

end Memoizer.Source
