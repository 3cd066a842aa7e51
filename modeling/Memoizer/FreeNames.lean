import Memoizer.Config.Basic
import Memoizer.Tree.Basic

namespace Memoizer

/-- Where a scan stands: the names bound by the functions around, innermost last, the names found
free, and whether it met verbatim text, which it cannot see into. -/
structure Scan where
  bound : List String := []
  found : List String := []
  unreadable : Bool := false
deriving DecidableEq

namespace Scan

def reference (c : Config) (name : String) (s : Scan) : Scan :=
  if s.bound.contains name || c.isIgnored name || s.found.contains name then s
  else { s with found := s.found ++ [name] }

def bind (names : List String) (s : Scan) : Scan := { s with bound := s.bound ++ names }

def markUnreadable (s : Scan) : Scan := { s with unreadable := true }

/-- Leaves a function: of the names bound inside it as many stay as were bound outside. -/
def restore (outer inner : Scan) : Scan := { inner with bound := inner.bound.take outer.bound.length }

end Scan

def bindName (name : Option String) (s : Scan) : Scan :=
  match name with
  | none => s
  | some name => s.bind [name]

mutual

def Expr.scan (c : Config) : Expr → Scan → Scan
  | .literal _, s => s
  | .verbatim _, s => s.markUnreadable
  | .ident name, s => s.reference c name
  | .member object (.name _), s => object.scan c s
  | .member object (.computed index), s => index.scan c (object.scan c s)
  | .optionalMember object (.name _), s => object.scan c s
  | .optionalMember object (.computed index), s => index.scan c (object.scan c s)
  | .call callee args, s => Expr.scanAll c args (callee.scan c s)
  | .optionalCall callee args, s => Expr.scanAll c args (callee.scan c s)
  | .new callee args, s => Expr.scanAll c args (callee.scan c s)
  | .template _ exprs, s => Expr.scanAll c exprs s
  | .object members, s => ObjectMember.scanAll c members s
  | .array elems, s => Expr.scanElems c elems s
  | .arrow params (.expr value) _, s => s.restore (value.scan c (Pattern.scanParams c params s))
  | .arrow params (.block stmts) _, s => s.restore (Stmt.scanAll c stmts (Pattern.scanParams c params s))
  | .function name params body _ _, s =>
    s.restore (Stmt.scanAll c body (Pattern.scanParams c params (bindName name s)))
  | .unary _ operand, s => operand.scan c s
  | .spread value, s => value.scan c s
  | .binary _ lhs rhs, s => rhs.scan c (lhs.scan c s)
  | .conditional test yes no, s => no.scan c (yes.scan c (test.scan c s))
  | .assign _ target value, s => value.scan c (target.scan c s)

def Expr.scanAll (c : Config) : List Expr → Scan → Scan
  | [], s => s
  | e :: exprs, s => Expr.scanAll c exprs (e.scan c s)

def Expr.scanElems (c : Config) : List (Option Expr) → Scan → Scan
  | [], s => s
  | none :: elems, s => Expr.scanElems c elems s
  | some e :: elems, s => Expr.scanElems c elems (e.scan c s)

def PropKey.scan (c : Config) : PropKey → Scan → Scan
  | .computed expr, s => expr.scan c s
  | .ident _, s => s
  | .string _, s => s
  | .number _, s => s

def ObjectMember.scanAll (c : Config) : List ObjectMember → Scan → Scan
  | [], s => s
  | .property key value _ :: members, s => ObjectMember.scanAll c members (value.scan c (key.scan c s))
  | .spread value :: members, s => ObjectMember.scanAll c members (value.scan c s)
  | .verbatim _ :: members, s => ObjectMember.scanAll c members s.markUnreadable

def Pattern.scanDefaults (c : Config) : Pattern → Scan → Scan
  | .ident _, s => s
  | .array elems, s => Pattern.scanElems c elems s
  | .object props none, s => PatternProp.scanAll c props s
  | .object props (some others), s => others.scanDefaults c (PatternProp.scanAll c props s)
  | .assign target value, s => target.scanDefaults c (value.scan c s)
  | .rest target, s => target.scanDefaults c s

def Pattern.scanElems (c : Config) : List (Option Pattern) → Scan → Scan
  | [], s => s
  | none :: elems, s => Pattern.scanElems c elems s
  | some p :: elems, s => Pattern.scanElems c elems (p.scanDefaults c s)

def PatternProp.scanAll (c : Config) : List PatternProp → Scan → Scan
  | [], s => s
  | .mk key value _ :: props, s => PatternProp.scanAll c props (value.scanDefaults c (key.scan c s))

/-- A parameter's names are bound behind its own defaults. -/
def Pattern.scanParams (c : Config) : List Pattern → Scan → Scan
  | [], s => s
  | p :: params, s => Pattern.scanParams c params ((p.scanDefaults c s).bind p.boundNames)

def Declarator.scanAll (c : Config) : List Declarator → Scan → Scan
  | [], s => s
  | .mk target none :: declarators, s => Declarator.scanAll c declarators (s.bind target.boundNames)
  | .mk target (some init) :: declarators, s =>
    Declarator.scanAll c declarators ((init.scan c s).bind target.boundNames)

def Stmt.scanAll (c : Config) : List Stmt → Scan → Scan
  | [], s => s
  -- Declared names are bound for the rest of the body.
  | .decl _ declarators _ :: stmts, s => Stmt.scanAll c stmts (Declarator.scanAll c declarators s)
  | .ret none _ :: stmts, s => Stmt.scanAll c stmts s
  | .ret (some value) _ :: stmts, s => Stmt.scanAll c stmts (value.scan c s)
  | .expr value _ :: stmts, s => Stmt.scanAll c stmts (value.scan c s)
  | .verbatim .. :: stmts, s => Stmt.scanAll c stmts s.markUnreadable

end

def Expr.freeNames (c : Config) (e : Expr) : List String := (e.scan c {}).found

end Memoizer
