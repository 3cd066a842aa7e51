import Memoizer.Source.Reader
import Memoizer.Tree.Basic

namespace Memoizer.Source

inductive Form
  | other
  | string
  | chain
  | unary
  | logical
  | coalesce
deriving DecidableEq

inductive Target
  | invalid
  | simple (expr : Expr)
  | pattern (expr : Expr)

def Target.isValid : Target → Bool
  | .invalid => false
  | _ => true

def Target.inParens : Target → Target
  | .simple expr => .simple expr
  | _ => .invalid

/-- An expression as it was read. Whether an array or object literal is a pattern shows only behind it, so it is read both
ways at once. It is pending while it holds something that only a pattern may hold, or is the head of an arrow function. -/
structure Node where
  start : Mark
  expr : Expr
  form : Form := .other
  target : Target := .invalid
  defaulted : Bool := false
  pending : Bool := false
  params : Option (List Pattern) := none

def Node.isElement (n : Node) : Bool := n.defaulted || n.target.isValid

structure Statement where
  stmt : Stmt
  isDirective : Bool := false
  listOnly : Bool := false

/-- The readers that call themselves through others. Each is called only behind a token that was
taken, so the depth of calls is bounded by the length of the text. -/
structure Grammar where
  assign : Reader Node
  expression : Reader Node
  binary : Nat → Reader Node
  unary : Reader Node
  leftSide : Reader Node
  constructed : Reader Node
  pattern : Reader Pattern
  statement : Reader Statement
  typeText : Reader Unit
  element : Mark → Reader Mark

def settle (node : Node) : Reader Unit := if node.pending then failure else return

def Grammar.value (g : Grammar) : Reader Expr := do
  let node ← g.assign
  settle node
  return node.expr

def verbatimNode (m : Mark) : Reader Node := return { start := m, expr := .verbatim (← textFrom m) }

def attempt {α : Type} (r : Reader α) : Reader (Option α) := (some <$> r) <|> pure none

end Memoizer.Source
