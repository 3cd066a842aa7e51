import Memoizer.Tree.Basic

namespace Memoizer

abbrev InstId := Nat

/-- A value that is not computed here: a literal, a name bound by no parameter or declaration, a
function whose body is not analysed, or a form that is kept whole. -/
inductive Constant
  | literal (value : Literal)
  | global (name : String)
  | function (expr : Expr)
  | unsupported (kind : String) (expr : Option Expr)

inductive Operand
  | literal (value : Literal)
  | value (id : InstId)

def Operand.id? : Operand → Option InstId
  | .literal _ => none
  | .value id => some id

inductive Property
  | named (name : String)
  | index (position : Nat)
deriving DecidableEq

def Property.name : Property → String
  | .named name => name
  | .index position => toString position

inductive Op
  | param (name : String)
  | constant (value : Constant)
  | declare (kind : DeclKind) (pattern : Pattern) (name : String) (value : InstId)
  | read (object : InstId) (property : Property)
  | object (props : List (String × Operand))
  | call (receiver : InstId) (property : Option Property) (args : List Operand)
  | ret (value : Option InstId)

namespace Op

def operands : Op → List InstId
  | .param _ => []
  | .constant _ => []
  | .declare _ _ _ value => [value]
  | .read base _ => [base]
  | .object props => props.filterMap (·.2.id?)
  | .call receiver _ args => receiver :: args.filterMap Operand.id?
  | .ret value => value.toList

def boundNames : Op → List String
  | .param name => [name]
  | .declare _ pattern _ _ => pattern.boundNames
  | _ => []

def kindName : Op → String
  | .param _ => "param"
  | .constant _ => "const"
  | .declare .. => "declare"
  | .read .. => "read"
  | .object _ => "object"
  | .call .. => "call"
  | .ret _ => "return"

def isCall : Op → Bool
  | .call .. => true
  | _ => false

def isObject : Op → Bool
  | .object _ => true
  | _ => false

def isDeclare : Op → Bool
  | .declare .. => true
  | _ => false

end Op

structure Inst where
  op : Op
  place : Option Place

end Memoizer
