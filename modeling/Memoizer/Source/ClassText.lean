import Memoizer.Source.Literal

namespace Memoizer.Source

def memberKey (g : Grammar) : Reader Unit := do
  match (← get).token with
  | .privateName _ => advance
  | _ => do
    let _ ← propertyKey g

def staticBlock (g : Grammar) : Reader Unit :=
  withContext (fun ctx => { functionContext false false ctx with inFunction := false }) do
    punct "\x7b"
    let _ ← statementsToBrace g

def fieldRest (g : Grammar) : Reader Unit := do
  typeMark g
  if ← skipPunct "=" then
    let _ ← withContext (functionContext false false) g.value
  semicolon

def classMember (g : Grammar) : Reader Unit := do
  let c ← get
  if c.isWord "static" && !endsKey c.advance then advance
  if c.isWord "static" && (← atPunct "\x7b") then staticBlock g
  else do
    let words ← methodWords
    memberKey g
    if words != {} || (← atPunct "(") then methodRest g words
    else fieldRest g

/-- A class from the word `class` on, and whether it has a name. -/
def classRest (g : Grammar) : Reader Bool := do
  word "class"
  let isNamed := !(← atWord "extends") && !(← atPunct "\x7b")
  if isNamed then
    let _ ← variableName
  if ← skipWord "extends" then
    let node ← g.leftSide
    settle node
  punct "\x7b"
  iterate (fun _ => do
    if ← skipPunct "\x7d" then return .inr ()
    unless ← skipPunct ";" do classMember g
    return .inl ()) ()
  return isNamed

end Memoizer.Source
