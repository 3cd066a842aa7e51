import Memoizer.Number.Basic
import Memoizer.Place

namespace Memoizer

inductive Literal
  | null
  | bool (value : Bool)
  | number (value : Number)
  | string (value : String)
deriving DecidableEq

inductive DeclKind
  | const
  | lexical
  | var
deriving DecidableEq

def DeclKind.keyword : DeclKind → String
  | .const => "const"
  | .lexical => "let"
  | .var => "var"

mutual

inductive PropKey
  | ident (name : String)
  | string (value : String)
  | number (value : Number)
  | computed (expr : Expr)

inductive MemberProp
  | name (name : String)
  | computed (index : Expr)

inductive ObjectMember
  | property (key : PropKey) (value : Expr) (shorthand : Bool)
  | spread (value : Expr)
  | verbatim (text : String)

inductive ArrowBody
  | expr (value : Expr)
  | block (stmts : List Stmt)

/-- An array element that is `none` is a hole. What is not analysed is kept as `verbatim` source text. -/
inductive Expr
  | literal (value : Literal)
  | ident (name : String)
  | member (object : Expr) (property : MemberProp)
  | call (callee : Expr) (args : List Expr)
  | optionalMember (object : Expr) (property : MemberProp)
  | optionalCall (callee : Expr) (args : List Expr)
  | new (callee : Expr) (args : List Expr)
  | template (quasis : List String) (exprs : List Expr)
  | object (members : List ObjectMember)
  | array (elems : List (Option Expr))
  | arrow (params : List Pattern) (body : ArrowBody) (async : Bool)
  | function (name : Option String) (params : List Pattern) (body : List Stmt) (async generator : Bool)
  | unary (op : String) (operand : Expr)
  | binary (op : String) (lhs rhs : Expr)
  | conditional (test yes no : Expr)
  | assign (op : String) (target value : Expr)
  | spread (value : Expr)
  | verbatim (text : String)

inductive Pattern
  | ident (name : String)
  | array (elems : List (Option Pattern))
  | object (props : List PatternProp) (rest : Option Pattern)
  | assign (target : Pattern) (default : Expr)
  | rest (target : Pattern)

inductive PatternProp
  | mk (key : PropKey) (value : Pattern) (shorthand : Bool)

inductive Declarator
  | mk (target : Pattern) (init : Option Expr)

inductive Stmt
  | decl (kind : DeclKind) (declarators : List Declarator) (place : Option Place)
  | ret (value : Option Expr) (place : Option Place)
  | expr (value : Expr) (place : Option Place)
  | verbatim (kind text : String) (place : Option Place)

end

instance : Inhabited Expr := ⟨.literal .null⟩

def Stmt.place : Stmt → Option Place
  | .decl _ _ place => place
  | .ret _ place => place
  | .expr _ place => place
  | .verbatim _ _ place => place

def Declarator.target : Declarator → Pattern
  | .mk target _ => target

def Declarator.init : Declarator → Option Expr
  | .mk _ init => init

inductive Export
  | none
  | named
  | default
deriving DecidableEq

structure Function where
  name : String
  params : List Pattern
  body : List Stmt
  async : Bool
  generator : Bool
  exported : Export
  place : Option Place

inductive ImportSpec
  | named (imported : String) (localName : String)
  | default (localName : String)
  | namespace (localName : String)
deriving DecidableEq

structure Import where
  source : String
  specs : List ImportSpec
deriving DecidableEq

inductive Item
  | importDecl (decl : Import)
  | function (func : Function)
  | raw (text : String)

structure Module where
  items : List Item

def Item.function? : Item → Option Function
  | .function func => some func
  | _ => none

def Module.functions (m : Module) : List Function := m.items.filterMap Item.function?

mutual

/-- The names a pattern binds, from left to right. -/
def Pattern.boundNames : Pattern → List String
  | .ident name => [name]
  | .array elems => Pattern.boundNamesElems elems
  | .object props none => Pattern.boundNamesProps props
  | .object props (some others) => Pattern.boundNamesProps props ++ others.boundNames
  | .assign target _ => target.boundNames
  | .rest target => target.boundNames

def Pattern.boundNamesElems : List (Option Pattern) → List String
  | [] => []
  | none :: elems => Pattern.boundNamesElems elems
  | some p :: elems => p.boundNames ++ Pattern.boundNamesElems elems

def Pattern.boundNamesProps : List PatternProp → List String
  | [] => []
  | .mk _ value _ :: props => value.boundNames ++ Pattern.boundNamesProps props

end

end Memoizer
