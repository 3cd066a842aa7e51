import Memoizer.Body.Builder
import Memoizer.Error
import Memoizer.Log

namespace Memoizer

structure Lowering extends Builder where
  log : Log

abbrev Lower := EStateM Error Lowering

namespace Lower

def emit (op : Op) : Lower InstId := fun s =>
  match s.toBuilder.emit? op with
  | some (id, builder) => .ok id { s with toBuilder := builder }
  | none => .error .fault s

def note (level : Level) (message : String) : Lower Unit :=
  modify fun s => { s with log := s.log.push level message }

def stamp (place : Option Place) : Lower Unit :=
  modify fun s => { s with place }

def fail (cause : Cause) : Lower Unit := do
  let s ← get
  let error := Error.structural s.body.name cause
  note .fatal error.message
  throw error

def atText : Option Place → String
  | none => ""
  | some place => " at " ++ place.text

def unsupported (kind : String) (expr : Option Expr) (place : Option Place) : Lower InstId := do
  let s ← get
  note .warn ("unsupported " ++ kind ++ " in `" ++ s.body.name ++ "`" ++ atText place ++ "; kept opaque")
  emit (.constant (.unsupported kind expr))

def unsupportedExpr (kind : String) (expr : Expr) : Lower InstId := do
  let s ← get
  unsupported kind (some expr) s.place

end Lower

def MemberProp.resolve : MemberProp → Option Property
  | .name key => some (.named key)
  | .computed (.literal (.string value)) => some (.named value)
  | .computed (.literal (.number value)) => value.index?.map .index
  | _ => none

def ObjectMember.hasIdentKey : ObjectMember → Bool
  | .property (.ident _) _ _ => true
  | _ => false

open Lower

def lowerIdent (name : String) : Lower InstId := do
  let s ← get
  match s.body.resolve name with
  | some id => pure id
  | none => emit (.constant (.global name))

mutual

def Expr.lower : Expr → Lower InstId
  | .literal value => emit (.constant (.literal value))
  | .ident name => lowerIdent name
  | .member object property =>
    match property.resolve with
    | some p => do
      let id ← object.lower
      emit (.read id p)
    | none => unsupportedExpr "computed member access" (.member object property)
  | .call (.member object property) args =>
    match property.resolve with
    | some p => do
      let receiver ← object.lower
      let operands ← Expr.lowerOperands args
      emit (.call receiver (some p) operands)
    | none => do
      let receiver ← unsupportedExpr "computed member access" (.member object property)
      let operands ← Expr.lowerOperands args
      emit (.call receiver none operands)
  | .call callee args => do
    let receiver ← callee.lower
    let operands ← Expr.lowerOperands args
    emit (.call receiver none operands)
  | .object members =>
    if members.all ObjectMember.hasIdentKey then do
      let props ← ObjectMember.lowerProps members
      emit (.object props)
    else unsupportedExpr "object literal with non-identifier keys" (.object members)
  | .arrow params body async => emit (.constant (.function (.arrow params body async)))
  | .function name params body async generator =>
    emit (.constant (.function (.function name params body async generator)))
  | .optionalMember object property => unsupportedExpr "optional chain" (.optionalMember object property)
  | .optionalCall callee args => unsupportedExpr "optional chain" (.optionalCall callee args)
  | .new callee args => unsupportedExpr "`new` expression" (.new callee args)
  | .template quasis exprs => unsupportedExpr "template literal" (.template quasis exprs)
  | .array elems => unsupportedExpr "array literal" (.array elems)
  | .unary op operand => unsupportedExpr "unary expression" (.unary op operand)
  | .binary op lhs rhs => unsupportedExpr "binary expression" (.binary op lhs rhs)
  | .conditional test yes no => unsupportedExpr "conditional expression" (.conditional test yes no)
  | .assign op target value => unsupportedExpr "assignment" (.assign op target value)
  | .spread value => unsupportedExpr "spread" (.spread value)
  | .verbatim text => unsupportedExpr "expression" (.verbatim text)

def Expr.lowerOperands : List Expr → Lower (List Operand)
  | [] => pure []
  -- A literal needs no instruction.
  | .literal value :: exprs => do
    let operands ← Expr.lowerOperands exprs
    pure (.literal value :: operands)
  | e :: exprs => do
    let id ← e.lower
    let operands ← Expr.lowerOperands exprs
    pure (.value id :: operands)

def ObjectMember.lowerProps : List ObjectMember → Lower (List (String × Operand))
  | [] => pure []
  | .property (.ident key) (.literal value) _ :: members => do
    let props ← ObjectMember.lowerProps members
    pure ((key, .literal value) :: props)
  | .property (.ident key) value _ :: members => do
    let id ← value.lower
    let props ← ObjectMember.lowerProps members
    pure ((key, .value id) :: props)
  | _ :: members => ObjectMember.lowerProps members

end

/-- The local name of a destructured property: the name it is bound to, with or without a default,
or else its key. -/
def PatternProp.localName (key : String) : Pattern → String
  | .ident name => name
  | .assign (.ident name) _ => name
  | _ => key

def PatternProp.lowerParams : List PatternProp → Lower Unit
  | [] => pure ()
  | .mk (.ident key) value _ :: props => do
    let _ ← emit (.param (PatternProp.localName key value))
    PatternProp.lowerParams props
  | _ :: _ => fail .parameterKey

def lowerNames : List String → Lower Unit
  | [] => pure ()
  | name :: names => do
    let _ ← emit (.param name)
    lowerNames names

def Pattern.lowerParam : Pattern → Lower Unit
  | .ident name => do
    let _ ← emit (.param name)
  | .assign target _ => target.lowerParam
  | .rest target => target.lowerParam
  | .object props none => PatternProp.lowerParams props
  | .object props (some others) => do
    PatternProp.lowerParams props
    others.lowerParam
  | .array elems => lowerNames (Pattern.boundNamesElems elems)

def Declarator.lower (kind : DeclKind) (place : Option Place) : Declarator → Lower Unit
  | .mk target none => fail (.noInitializer target.boundNames)
  | .mk target (some init) => do
    let value ← init.lower
    match target with
    | .ident _ | .array _ => do
      let _ ← emit (.ofDeclaration kind target value)
    | _ => do
      let _ ← unsupported "destructuring declaration" none place

def Declarator.lowerAll (kind : DeclKind) (place : Option Place) : List Declarator → Lower Unit
  | [] => pure ()
  | d :: declarators => do
    d.lower kind place
    Declarator.lowerAll kind place declarators

def Stmt.lower (s : Stmt) : Lower Unit := do
  stamp s.place
  match s with
  | .decl kind declarators place => Declarator.lowerAll kind place declarators
  | .ret none _ => do
    let _ ← emit (.ret none)
  | .ret (some value) _ => do
    let id ← value.lower
    let _ ← emit (.ret (some id))
  | .expr value _ => do
    let _ ← value.lower
  | .verbatim kind _ place => do
    let _ ← unsupported kind none place

def Pattern.lowerParams : List Pattern → Lower Unit
  | [] => pure ()
  | p :: params => do
    p.lowerParam
    Pattern.lowerParams params

def Stmt.lowerAll : List Stmt → Lower Unit
  | [] => pure ()
  | s :: stmts => do
    s.lower
    Stmt.lowerAll stmts

abbrev Logged := EStateM Error Log

/-- Parameters first, stamped with the function's place, then the statements, each with its own. -/
def Function.lowerInto (f : Function) : Lower Unit := do
  Pattern.lowerParams f.params
  Stmt.lowerAll f.body
  let s ← get
  note .info ("lowered `" ++ s.body.name ++ "`: " ++ toString s.body.size ++ " instructions")

def Function.lower (f : Function) : Logged Body := fun log =>
  match f.lowerInto { body := ⟨f.name, []⟩, place := f.place, log } with
  | .ok _ s => .ok s.body s.log
  | .error e s => .error e s.log

end Memoizer
