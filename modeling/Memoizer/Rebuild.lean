import Memoizer.Body.Basic
import Memoizer.Number.Rounding
import Memoizer.Text.Name

namespace Memoizer

def Expr.undefined : Expr := .ident "undefined"

def Property.accessOf (object : Expr) : Property → Expr
  -- A key that is no name is written as an index.
  | .named key =>
    if Text.isName key then .member object (.name key) else .member object (.computed (.literal (.string key)))
  | .index position => .member object (.computed (.literal (.number (Number.ofNat position))))

def Constant.rebuild : Constant → Expr
  | .literal value => .literal value
  | .global name => .ident name
  | .function expr => expr
  | .unsupported _ (some expr) => expr
  | .unsupported _ none => .undefined

def Pattern.reference (name : String) : Pattern → Expr
  | .ident _ => .ident name
  | p => match p.boundNames with
    | first :: _ => .ident first
    | [] => .undefined

def Operand.rebuildWith (value : InstId → Expr) : Operand → Expr
  | .literal lit => .literal lit
  | .value id => value id

def Op.rebuildWith (value : InstId → Expr) : Op → Expr
  | .param name => .ident name
  | .declare _ pattern name _ => pattern.reference name
  | .constant c => c.rebuild
  | .read base property => property.accessOf (value base)
  | .object props => .object (props.map fun p => .property (.ident p.1) (p.2.rebuildWith value) false)
  | .call receiver (some property) args =>
    .call (property.accessOf (value receiver)) (args.map (Operand.rebuildWith value))
  | .call receiver none args => .call (value receiver) (args.map (Operand.rebuildWith value))
  | .ret (some id) => value id
  | .ret none => .undefined

namespace Body

/-- The expression that an instruction computes. A parameter or declaration is read by its name, so
what initialises it is not computed again. Operands refer backward, so looking only below `id` loses
nothing. -/
def rebuildExpr (b : Body) (id : InstId) : Expr :=
  match b.op? id with
  | some op => op.rebuildWith fun k => if k < id then b.rebuildExpr k else .undefined
  | none => .undefined
termination_by id

def rebuildStmt? (b : Body) (id : InstId) (isRoot : Bool) : Option Stmt :=
  match b.op? id with
  | some (.declare kind pattern _ value) =>
    some (.decl kind [.mk pattern (some (b.rebuildExpr value))] (b.placeAt id))
  | some (.ret value) => some (.ret (value.map b.rebuildExpr) (b.placeAt id))
  -- A call is a statement only where nothing consumes it.
  | some (.call ..) => if isRoot then some (.expr (b.rebuildExpr id) (b.placeAt id)) else none
  | _ => none

def reconstruct (b : Body) : List Stmt :=
  b.insts.keys.filterMap fun id => b.rebuildStmt? id (!b.isConsumed id)

end Body

end Memoizer
