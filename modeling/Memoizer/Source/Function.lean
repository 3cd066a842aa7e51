import Memoizer.Source.Pattern

namespace Memoizer.Source

def functionContext (async generator : Bool) (ctx : Context) : Context :=
  { ctx with inFunction := true, awaits := async, yields := generator, noIn := false, colonEnds := false }

/-- One parameter. A default written directly on it is no part of the pattern. -/
def parameter (g : Grammar) : Reader Pattern := do
  let target ← g.pattern
  if (← read).language.typed then
    let _ ← skipPunct "?"
    typeMark g
  if ← skipPunct "=" then
    let _ ← g.value
  return target

def parameters (g : Grammar) : Reader (List Pattern) :=
  iterate (fun (params : List Pattern) => do
    if ← skipPunct ")" then return .inr params
    -- Nothing may follow a rest parameter.
    if ← skipPunct "..." then
      let target ← g.pattern
      typeMark g
      punct ")"
      return .inr (params ++ [.rest target])
    let params := params ++ [← parameter g]
    if ← skipPunct ")" then return .inr params
    punct ","
    return .inl params) []

def statementsToBrace (g : Grammar) : Reader (List Statement) :=
  iterate (fun (stmts : List Statement) => do
    if ← skipPunct "\x7d" then return .inr stmts
    return .inl (stmts ++ [← g.statement])) []

def withoutDirectives (stmts : List Statement) : List Stmt :=
  (stmts.dropWhile Statement.isDirective).map Statement.stmt

def functionBody (g : Grammar) : Reader (List Stmt) := do
  punct "\x7b"
  return withoutDirectives (← statementsToBrace g)

inductive MethodKind
  | plain
  | getter
  | setter
deriving DecidableEq

def MethodKind.takes : MethodKind → List Pattern → Bool
  | .plain, _ => true
  | .getter, params => params.isEmpty
  | .setter, [.rest _] => false
  | .setter, params => params.length == 1

structure MethodWords where
  async : Bool := false
  generator : Bool := false
  kind : MethodKind := .plain
deriving DecidableEq

/-- Parameters and body of a method. It is kept as text, so nothing of it is returned. -/
def methodRest (g : Grammar) (words : MethodWords) : Reader Unit :=
  withContext (functionContext words.async words.generator) do
    punct "("
    let params ← parameters g
    unless words.kind.takes params do failure
    typeMark g
    let _ ← functionBody g

structure FunctionParts where
  start : Mark
  name : Option String
  params : List Pattern
  body : Option (List Stmt)
  async : Bool
  generator : Bool

def functionRest (g : Grammar) (m : Mark) (async : Bool) : Reader FunctionParts := do
  let generator ← skipPunct "*"
  let name ← if ← atPunct "(" then pure none else some <$> variableName
  withContext (functionContext async generator) do
    punct "("
    let params ← parameters g
    typeMark g
    let body ←
      if (← read).language.typed && !(← atPunct "\x7b") then do
        semicolon
        pure none
      else some <$> functionBody g
    return { start := m, name, params, body, async, generator }

def atAsyncFunction : Reader Bool := do
  let c ← get
  let next := c.advance
  return c.isWord "async" && next.isWord "function" && !next.newline

def function? (g : Grammar) : Reader (Option FunctionParts) := do
  let m ← start
  if ← atAsyncFunction then
    advance
    advance
    return some (← functionRest g m true)
  if ← skipWord "function" then return some (← functionRest g m false)
  return none

end Memoizer.Source
