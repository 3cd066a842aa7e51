import Memoizer.Source.ClassText
import Memoizer.Source.Markup

namespace Memoizer.Source

def arguments (g : Grammar) : Reader (List Expr) := do
  punct "("
  enclosed <| commaList ")" do
    if ← skipPunct "..." then return .spread (← g.value)
    g.value

/-- An expression in parentheses. They are dropped, but around an optional chain they end the chain, so
there they are kept. -/
def parenthesized (g : Grammar) : Reader Node := do
  let m ← start
  punct "("
  let node ← enclosed g.expression
  punct ")"
  if node.form == .chain then verbatimNode m
  else return { start := m, expr := node.expr, target := node.target.inParens }

def atArrow (c : Cursor) : Bool := c.isPunct "=>" && !c.newline

def arrowParameters (g : Grammar) (async : Bool) : Reader (List Pattern) := do
  punct "("
  let params ← enclosed (withContext (fun ctx => { ctx with awaits := async || ctx.awaits }) (parameters g))
  unless (← read).colonEnds do typeMark g
  if atArrow (← get) then return params else failure

def headNode (g : Grammar) : Reader Node := do
  let m ← start
  let params ← arrowParameters g false
  return { start := m, expr := .array [], pending := true, params := some params }

def mayBeHead : Reader Bool := do
  let ctx ← read
  let c ← get
  return atArrow c || (ctx.language.typed && !ctx.colonEnds && c.isPunct ":")

/-- An expression in parentheses, or the parameters of an arrow function. It is read as an expression
first, since parameters are hardly ever nested and expressions often are. -/
def parens (g : Grammar) : Reader Node := do
  let c ← get
  match ← attempt (parenthesized g) with
  | none => headNode g
  | some node =>
    if ← mayBeHead then (set c *> headNode g) <|> pure node else return node

def literalNode (m : Mark) (value : Literal) (form : Form) : Reader Node := do
  advance
  return { start := m, expr := .literal value, form }

def keptToken (m : Mark) : Reader Node := do
  advance
  verbatimNode m

def superNode (m : Mark) : Reader Node := do
  advance
  -- `super` stands only in front of an access or a call.
  unless (← atPunct ".") || (← atPunct "[") || (← atPunct "(") do failure
  verbatimNode m

def importNode (g : Grammar) (m : Mark) : Reader Node := do
  advance
  if ← skipPunct "." then word "meta"
  else
    let _ ← arguments g
  verbatimNode m

def functionNode (m : Mark) (parts : FunctionParts) : Reader Node :=
  match parts.body with
  | none => failure
  | some body =>
    return { start := m, expr := .function parts.name parts.params body parts.async parts.generator }

def nameNode (m : Mark) : Reader Node := do
  let name ← variableName
  return { start := m, expr := .ident name, target := .simple (.ident name) }

def wordNode (g : Grammar) (m : Mark) (text : String) : Reader Node := do
  match ← function? g with
  | some parts => functionNode m parts
  | none =>
    match text with
    | "null" => literalNode m .null .other
    | "true" => literalNode m (.bool true) .other
    | "false" => literalNode m (.bool false) .other
    | "this" => keptToken m
    | "super" => superNode m
    | "import" => importNode g m
    | "class" => do
      let _ ← classRest g
      verbatimNode m
    | _ => nameNode m

def primary (g : Grammar) : Reader Node := do
  let m ← start
  match (← get).token with
  | .name text escaped => if escaped then nameNode m else wordNode g m text
  | .number value => literalNode m (.number value) .other
  | .string value => literalNode m (.string value) .string
  | .bigint => keptToken m
  | .backtick => return { start := m, expr := ← template g }
  | .punct "(" => parens g
  | .punct "[" => arrayLiteral g
  | .punct "\x7b" => objectLiteral g
  | .punct "/" => regex
  | .punct "/=" => regex
  | .punct "<" => if (← read).language.markup then markupNode g else failure
  | _ => failure

def accessNode (node : Node) (expr : Expr) : Reader Node := do
  -- Inside an optional chain it is no target.
  if node.form == .chain then return { start := node.start, expr, form := .chain }
  return { start := node.start, expr, target := .simple (.verbatim (← textFrom node.start)) }

def keptAccess (node : Node) : Reader Node := do accessNode node (.verbatim (← textFrom node.start))

def nameAccess (node : Node) (make : Expr → MemberProp → Expr) : Reader Node := do
  match (← get).token with
  | .privateName _ => do
    advance
    keptAccess node
  | _ => do
    let name ← anyName
    accessNode node (make node.expr (.name name))

def indexAccess (g : Grammar) (node : Node) (make : Expr → MemberProp → Expr) : Reader Node := do
  punct "["
  let index ← enclosed g.expression
  punct "]"
  accessNode node (make node.expr (.computed index.expr))

def chained (node : Node) : Node := { node with form := .chain }

def optionalLink (g : Grammar) (node : Node) : Reader Node := do
  if ← atPunct "(" then
    return { start := node.start, expr := .optionalCall node.expr (← arguments g), form := .chain }
  if ← atPunct "[" then indexAccess g (chained node) .optionalMember
  else nameAccess (chained node) .optionalMember

def Node.follow (node : Node) (expr : Expr) : Node :=
  { start := node.start, expr, form := if node.form == .chain then .chain else .other }

def nonNullNode (node : Node) : Reader Node := do
  let expr := Expr.verbatim (← textFrom node.start)
  return match node.target with
    | .simple _ => { node.follow expr with target := .simple expr }
    | _ => node.follow expr

/-- One link behind a node, if one follows. Behind `new` there are no calls and no optional links. -/
def link? (g : Grammar) (calls : Bool) (node : Node) : Reader (Option Node) := do
  let c ← get
  match c.token with
  | .punct "." => do
    advance
    return some (← nameAccess node .member)
  | .punct "?." => do
    unless calls do failure
    advance
    return some (← optionalLink g node)
  | .punct "[" => return some (← indexAccess g node .member)
  | .punct "(" => if calls then return some (node.follow (.call node.expr (← arguments g))) else return none
  | .backtick => do
    if node.form == .chain then failure
    let _ ← template g
    return some (← verbatimNode node.start)
  | .punct "!" =>
    if (← read).language.typed && !c.newline then do
      advance
      return some (← nonNullNode node)
    else return none
  | _ => return none

def links (g : Grammar) (calls : Bool) (node : Node) : Reader Node :=
  iterate (fun node => do
    match ← link? g calls node with
    | none => return .inr node
    | some next => do
      settle node
      return .inl next) node

def newNode (g : Grammar) : Reader Node := do
  let m ← start
  word "new"
  if ← skipPunct "." then
    word "target"
    verbatimNode m
  else do
    let callee ← g.constructed
    settle callee
    let args ← if ← atPunct "(" then arguments g else pure []
    return { start := m, expr := .new callee.expr args }

def head (g : Grammar) : Reader Node := do
  if ← atWord "new" then newNode g else primary g

def constructed (g : Grammar) : Reader Node := do links g false (← head g)

def leftSide (g : Grammar) : Reader Node := do links g true (← head g)

def unaryOperator? (token : Token) : Option String :=
  match token with
  | .punct op => if ["+", "-", "~", "!"].contains op then some op else none
  | .name op false => if ["delete", "void", "typeof"].contains op then some op else none
  | _ => none

def atStep : Reader Bool := return (← atPunct "++") || (← atPunct "--")

def requireSimple (node : Node) : Reader Unit :=
  match node.target with
  | .simple _ => return
  | _ => failure

def stepped (g : Grammar) : Reader Node := do
  let node ← leftSide g
  if (← atStep) && !(← afterNewline) then
    requireSimple node
    advance
    verbatimNode node.start
  else return node

def awaitNode (g : Grammar) (m : Mark) : Reader Node := do
  advance
  settle (← g.unary)
  return { ← verbatimNode m with form := .unary }

def unary (g : Grammar) : Reader Node := do
  let m ← start
  if ← atStep then
    advance
    requireSimple (← g.unary)
    verbatimNode m
  else match unaryOperator? (← get).token with
    | some op => do
      advance
      let operand ← g.unary
      settle operand
      return { start := m, expr := .unary op operand.expr, form := .unary }
    | none => if (← read).awaits && (← atWord "await") then awaitNode g m else stepped g

def strength (op : String) : Option Nat :=
  match op with
  | "??" => some 1
  | "||" => some 2
  | "&&" => some 3
  | "|" => some 4
  | "^" => some 5
  | "&" => some 6
  | "==" | "!=" | "===" | "!==" => some 7
  | "<" | ">" | "<=" | ">=" | "instanceof" | "in" => some 8
  | "<<" | ">>" | ">>>" => some 9
  | "+" | "-" => some 10
  | "*" | "/" | "%" => some 11
  | "**" => some 12
  | _ => none

def operator? (ctx : Context) (token : Token) : Option (String × Nat) :=
  match token with
  | .punct op => (strength op).map fun s => (op, s)
  | .name "instanceof" false => some ("instanceof", 8)
  | .name "in" false => if ctx.noIn then none else some ("in", 8)
  | _ => none

def formOf (op : String) : Form :=
  if op == "??" then .coalesce else if op == "&&" || op == "||" then .logical else .other

/-- A power has no operator in front of its base, and `??` is not mixed with `&&` and `||`. -/
def operandsFit (op : String) (lhs rhs : Node) : Bool :=
  match formOf op with
  | .coalesce => lhs.form != .logical && rhs.form != .logical
  | .logical => lhs.form != .coalesce && rhs.form != .coalesce
  | _ => !(op == "**" && lhs.form == .unary)

def binaryNode (op : String) (lhs rhs : Node) : Reader Node := do
  settle lhs
  settle rhs
  if operandsFit op lhs rhs then
    return { start := lhs.start, expr := .binary op lhs.expr rhs.expr, form := formOf op }
  else failure

def privateIn (g : Grammar) (m : Mark) : Reader Node := do
  advance
  word "in"
  settle (← g.binary 9)
  verbatimNode m

def operand (g : Grammar) (least : Nat) : Reader Node := do
  let m ← start
  match (← get).token with
  | .privateName _ => if least ≤ 8 && !(← read).noIn then privateIn g m else failure
  | _ => unary g

def castNode (g : Grammar) (node : Node) : Reader Node := do
  advance
  unless ← skipWord "const" do g.typeText
  let kept ← verbatimNode node.start
  return match node.target with
    | .simple _ => { kept with target := .simple kept.expr }
    | _ => kept

def atCast : Reader Bool := do
  let c ← get
  return (← read).language.typed && (c.isWord "as" || c.isWord "satisfies") && !c.newline

def binary (g : Grammar) (least : Nat) : Reader Node := do
  iterate (fun lhs => do
    if least ≤ 8 && (← atCast) then
      settle lhs
      return .inl (← castNode g lhs)
    match operator? (← read) (← get).token with
    | none => return .inr lhs
    | some (op, s) =>
      if s < least then return .inr lhs
      else do
        advance
        let rhs ← g.binary (if op == "**" then s else s + 1)
        return .inl (← binaryNode op lhs rhs)) (← operand g least)

def conditional (g : Grammar) : Reader Node := do
  let test ← binary g 1
  if ← skipPunct "?" then
    settle test
    let yes ← withContext (fun ctx => { ctx with noIn := false, colonEnds := true }) g.value
    punct ":"
    let no ← g.value
    return { start := test.start, expr := .conditional test.expr yes no }
  return test

def startsValue (c : Cursor) : Bool :=
  match c.token with
  | .punct p => ["(", "[", "\x7b", "/", "/=", "+", "-", "~", "!", "++", "--", "<"].contains p
  | .name text _ => text != "in" && text != "of" && text != "instanceof"
  | .done => false
  | .invalid => false
  | _ => true

def yieldNode (g : Grammar) : Reader Node := do
  let m ← start
  word "yield"
  let c ← get
  if !c.newline then
    if ← skipPunct "*" then
      let _ ← g.value
    else if startsValue c then
      let _ ← g.value
  verbatimNode m

/-- The parameters of an arrow function and whether it is asynchronous, if one starts here with a name.
The arrow comes next then. -/
def namedHead? (g : Grammar) : Reader (Option (List Pattern × Bool)) := do
  let ctx ← read
  let c ← get
  let next := c.advance
  if c.isWord "async" && !next.newline && standsAtVariable ctx next && atArrow next.advance then
    advance
    return some ([.ident (← anyName)], true)
  if c.isWord "async" && !next.newline && next.isPunct "(" then
    attempt do
      advance
      return (← arrowParameters g true, true)
  else if standsAtVariable ctx c && atArrow next then
    return some ([.ident (← anyName)], false)
  else return none

def arrowBody (g : Grammar) (async : Bool) : Reader ArrowBody := do
  if ← atPunct "\x7b" then
    return .block (← withContext (functionContext async false) (functionBody g))
  return .expr (← withContext (fun ctx => { ctx with awaits := async, yields := false }) g.value)

def compoundOperators : List String :=
  ["+=", "-=", "*=", "/=", "%=", "**=", "<<=", ">>=", ">>>=", "&=", "|=", "^=", "&&=", "||=", "??="]

def assignTo (g : Grammar) (m : Mark) (op : String) (target : Expr) : Reader Node := do
  advance
  return { start := m, expr := .assign op target (← g.value), defaulted := op == "=" }

def arrowNode (g : Grammar) (m : Mark) (params : List Pattern) (async : Bool) : Reader Node := do
  punct "=>"
  return { start := m, expr := .arrow params (← arrowBody g async) async }

def assignment (g : Grammar) (node : Node) : Reader Node := do
  match (← get).token with
  | .punct op =>
    if op == "=" then
      match node.target with
      | .invalid => failure
      | .simple target => assignTo g node.start op target
      | .pattern target => assignTo g node.start op target
    else if compoundOperators.contains op then
      match node.target with
      | .simple target => assignTo g node.start op target
      | _ => failure
    else return node
  | _ => return node

def assign (g : Grammar) : Reader Node := do
  let m ← start
  if (← read).yields && (← atWord "yield") then yieldNode g
  else match ← namedHead? g with
    | some (params, async) => arrowNode g m params async
    | none => do
      let node ← conditional g
      match node.params with
      | some params => arrowNode g m params false
      | none => assignment g node

/-- Expressions with commas between them. More than one are kept as text. -/
def expression (g : Grammar) : Reader Node := do
  let first ← assign g
  settle first
  if ← atPunct "," then
    iterate (fun _ => do
      punct ","
      settle (← g.assign)
      if ← atPunct "," then return .inl ()
      return .inr ()) ()
    verbatimNode first.start
  else return first

end Memoizer.Source
