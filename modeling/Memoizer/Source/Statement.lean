import Memoizer.Source.Expression

namespace Memoizer.Source

def keptStatement (m : Mark) (kind : String) : Reader Statement :=
  return { stmt := .verbatim kind (← textFrom m) (some (← placeOf m)) }

def condition (g : Grammar) : Reader Unit := do
  punct "("
  let _ ← enclosed g.expression
  punct ")"

def block (g : Grammar) : Reader Unit := do
  punct "\x7b"
  let _ ← statementsToBrace g

def declarator (g : Grammar) : Reader Declarator := do
  let target ← bindingPattern g
  typeMark g
  let init ← if ← skipPunct "=" then some <$> g.value else pure none
  return .mk target init

def declarators (g : Grammar) : Reader (List Declarator) := do
  iterate (fun (decls : List Declarator) => do
    let decls := decls ++ [← declarator g]
    if ← skipPunct "," then return .inl decls
    return .inr decls) []

def isPlainName : Pattern → Bool
  | .ident _ => true
  | _ => false

/-- Constants and patterns need a value. -/
def isInitialized (needsValue : Bool) : Declarator → Bool
  | .mk target init => init.isSome || (!needsValue && isPlainName target)

inductive DeclWord
  | plain (kind : DeclKind)
  | using

def DeclWord.needsValue : DeclWord → Bool
  | .plain .const => true
  | .plain _ => false
  | .using => true

def startsTarget (ctx : Context) (c : Cursor) : Bool :=
  standsAtVariable ctx c || c.isPunct "[" || c.isPunct "\x7b"

def declWord? : Reader (Option DeclWord) := do
  let ctx ← read
  let c ← get
  let next := c.advance
  if ← skipWord "var" then return some (.plain .var)
  if ← skipWord "const" then return some (.plain .const)
  if c.isWord "let" && startsTarget ctx next then
    advance
    return some (.plain .lexical)
  if c.isWord "using" && !next.newline && standsAtVariable ctx next && !next.isWord "of" then
    advance
    return some .using
  if ctx.awaits && c.isWord "await" && next.isWord "using" && !next.newline && !next.advance.newline &&
      standsAtVariable ctx next.advance then
    advance
    advance
    return some .using
  return none

def declaration (g : Grammar) (m : Mark) (declWord : DeclWord) : Reader Statement := do
  let decls ← declarators g
  unless decls.all (isInitialized declWord.needsValue) do failure
  semicolon
  match declWord with
  | .plain kind => return { stmt := .decl kind decls (some (← placeOf m)), listOnly := kind != .var }
  | .using => return { ← keptStatement m "using declaration" with listOnly := true }

def returnStatement (g : Grammar) (m : Mark) : Reader Statement := do
  unless (← read).inFunction do failure
  word "return"
  let c ← get
  let ends := c.newline || c.isPunct ";" || c.isPunct "\x7d" || c.token == .done
  let value ← if ends then pure none else some <$> expression g
  semicolon
  return { stmt := .ret (value.map Node.expr) (some (← placeOf m)) }

def substatement (g : Grammar) : Reader Unit := do
  if (← g.statement).listOnly then failure

def ifStatement (g : Grammar) : Reader Unit := do
  word "if"
  condition g
  substatement g
  if ← skipWord "else" then substatement g

def whileLoop (g : Grammar) : Reader Unit := do
  word "while"
  condition g
  substatement g

def doLoop (g : Grammar) : Reader Unit := do
  word "do"
  substatement g
  word "while"
  condition g
  -- The loop ends with or without a semicolon.
  let _ ← skipPunct ";"

def withoutIn {α : Type} (r : Reader α) : Reader α := withContext (fun ctx => { ctx with noIn := true }) r

def atInOrOf : Reader Bool := return (← atWord "of") || (← atWord "in")

def loopedOver (g : Grammar) : Reader Bool := do
  let isOf ← skipWord "of"
  if isOf then
    let _ ← g.value
  else
    word "in"
    let _ ← g.expression
  punct ")"
  return isOf

def optionalUpTo (g : Grammar) (close : String) : Reader Unit := do
  unless ← skipPunct close do
    let _ ← g.expression
    punct close

def countedRest (g : Grammar) : Reader Unit := do
  punct ";"
  optionalUpTo g ";"
  optionalUpTo g ")"

def declaredHead (g : Grammar) (declWord : DeclWord) : Reader Bool := do
  let decls ← withoutIn (declarators g)
  if ← atInOrOf then
    match decls with
    | [.mk _ none] => loopedOver g
    | _ => failure
  else do
    unless decls.all (isInitialized declWord.needsValue) do failure
    countedRest g
    return false

def loopTarget (g : Grammar) : Reader Unit := do
  let node ← withoutIn (leftSide g)
  unless node.target.isValid && (← atInOrOf) do failure

/-- The head of a loop behind its parenthesis, and whether the loop takes elements with `of`. -/
def loopHead (g : Grammar) : Reader Bool := do
  match ← declWord? with
  | some declWord => declaredHead g declWord
  | none =>
    if (← attempt (loopTarget g)).isSome then loopedOver g
    else do
      unless ← atPunct ";" do
        let _ ← withoutIn (expression g)
      countedRest g
      return false

/-- A loop that awaits its elements has to take some, where `await` is allowed. -/
def forLoop (g : Grammar) : Reader Unit := do
  word "for"
  let isAwaited ← skipWord "await"
  punct "("
  let isOf ← loopHead g
  if isAwaited && !(isOf && (← read).awaits) then failure
  substatement g

def caseBody (g : Grammar) : Reader Unit :=
  iterate (fun _ => do
    if (← atWord "case") || (← atWord "default") || (← atPunct "\x7d") then return .inr ()
    let _ ← g.statement
    return .inl ()) ()

def switchStatement (g : Grammar) : Reader Unit := do
  word "switch"
  condition g
  punct "\x7b"
  iterate (fun _ => do
    if ← skipPunct "\x7d" then return .inr ()
    unless ← skipWord "default" do
      word "case"
      let _ ← enclosed g.expression
    punct ":"
    caseBody g
    return .inl ()) ()

def catchClause (g : Grammar) : Reader Unit := do
  if ← skipPunct "(" then
    let _ ← g.pattern
    typeMark g
    punct ")"
  block g

def tryStatement (g : Grammar) : Reader Unit := do
  word "try"
  block g
  let isCaught ← skipWord "catch"
  if isCaught then catchClause g
  let isFinal ← skipWord "finally"
  if isFinal then block g
  unless isCaught || isFinal do failure

/-- Nothing but the end of the line may separate `throw` from its value. -/
def throwStatement (g : Grammar) : Reader Unit := do
  word "throw"
  if ← afterNewline then failure
  let _ ← g.expression
  semicolon

def jump : Reader Unit := do
  advance
  if standsAtVariable (← read) (← get) && !(← afterNewline) then advance
  semicolon

def withStatement (g : Grammar) : Reader Unit := do
  word "with"
  condition g
  substatement g

def classDeclaration (g : Grammar) : Reader Unit := do
  unless ← classRest g do failure

def labeled (g : Grammar) : Reader Unit := do
  advance
  punct ":"
  substatement g

/-- The statements kept as text that start with a word of their own: their kind and their reader. -/
def keptByWord (g : Grammar) (text : String) : Option (String × Reader Unit) :=
  match text with
  | "if" => some ("if statement", ifStatement g)
  | "for" => some ("loop", forLoop g)
  | "while" => some ("loop", whileLoop g)
  | "do" => some ("loop", doLoop g)
  | "switch" => some ("switch statement", switchStatement g)
  | "try" => some ("try statement", tryStatement g)
  | "throw" => some ("throw statement", throwStatement g)
  | "class" => some ("class declaration", classDeclaration g)
  | "break" | "continue" => some ("statement", jump)
  | "debugger" => some ("statement", advance *> semicolon)
  | "with" => some ("statement", withStatement g)
  | _ => none

def expressionStatement (g : Grammar) (m : Mark) : Reader Statement := do
  let node ← expression g
  semicolon
  return { stmt := .expr node.expr (some (← placeOf m)), isDirective := node.form == .string }

def otherStatement (g : Grammar) (m : Mark) : Reader Statement := do
  match ← declWord? with
  | some declWord => declaration g m declWord
  | none => do
    let c ← get
    if standsAtVariable (← read) c && c.advance.isPunct ":" then do
      labeled g
      keptStatement m "statement"
    else expressionStatement g m

def nestedFunction (m : Mark) (parts : FunctionParts) : Reader Statement := do
  if parts.name.isNone then failure
  return { ← keptStatement m "nested function declaration" with listOnly := parts.async || parts.generator }

def wordStatement (g : Grammar) (m : Mark) (text : String) : Reader Statement := do
  match keptByWord g text with
  | some (kind, r) => do
    r
    return { ← keptStatement m kind with listOnly := text == "class" }
  | none =>
    if text == "return" then returnStatement g m
    else match ← function? g with
      | some parts => nestedFunction m parts
      | none => otherStatement g m

def statement (g : Grammar) : Reader Statement := do
  let m ← start
  match (← get).token with
  | .punct "\x7b" => do
    block g
    keptStatement m "block statement"
  | .punct ";" => do
    advance
    keptStatement m "statement"
  | .name text false => wordStatement g m text
  | .name _ true => otherStatement g m
  | _ => expressionStatement g m

/-- The grammar down to a depth; deeper there is nothing. -/
def grammar : Nat → Grammar
  | 0 =>
    { assign := failure, expression := failure, binary := fun _ => failure, unary := failure, leftSide := failure,
      constructed := failure, pattern := failure, statement := failure, typeText := failure,
      element := fun _ => failure }
  | depth + 1 =>
    { assign := fun ctx c => assign (grammar depth) ctx c
      expression := fun ctx c => expression (grammar depth) ctx c
      binary := fun least ctx c => binary (grammar depth) least ctx c
      unary := fun ctx c => unary (grammar depth) ctx c
      leftSide := fun ctx c => leftSide (grammar depth) ctx c
      constructed := fun ctx c => constructed (grammar depth) ctx c
      pattern := fun ctx c => bindingPattern (grammar depth) ctx c
      statement := fun ctx c => statement (grammar depth) ctx c
      typeText := fun ctx c => typeText (grammar depth) ctx c
      element := fun m ctx c => element (grammar depth) m ctx c }

end Memoizer.Source
