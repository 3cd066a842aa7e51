import Memoizer.Number.Format
import Memoizer.Text.Basic
import Memoizer.Text.Blank
import Memoizer.Text.Name
import Memoizer.Text.Quoted
import Memoizer.Tree.Basic

namespace Memoizer

open Text

def Literal.print : Literal → String
  | .null => "null"
  | .bool true => "true"
  | .bool false => "false"
  | .number n => n.format
  | .string s => Quoted.quote s

def indentStep : String := "  "

def Expr.isCompound : Expr → Bool
  | .binary .. => true
  | .conditional .. => true
  | .assign .. => true
  | .unary .. => true
  | .arrow .. => true
  | .function .. => true
  | .verbatim _ => true
  | _ => false

def Expr.isLooseCallee : Expr → Bool
  | .literal (.number _) => true
  | .object _ => true
  | .new .. => true
  | e => e.isCompound

/-- Whether the expression is parenthesised behind `new`, where the first argument list after the
callee belongs to `new`. -/
def Expr.isLooseConstructor : Expr → Bool
  | .call .. => true
  | e => e.isLooseCallee

theorem Expr.isCompound_eq_false {e : Expr} (h : e.isLooseCallee = false) : e.isCompound = false := by
  cases e with
  | object | new => cases h
  | literal => rfl
  | _ => exact h

def memberText (object name : String) : String :=
  if isName name then object ++ "." ++ name else object ++ brackets (Quoted.quote name)

def optionalMemberText (object name : String) : String :=
  if isName name then object ++ "?." ++ name else object ++ "?." ++ brackets (Quoted.quote name)

def interpolation (s : String) : String := "$\x7b" ++ s ++ "\x7d"

/-- The quasis with an interpolated text behind each, as long as there are any; texts left over when
the quasis end are dropped. -/
def weave : List String → List String → String
  | [], _ => ""
  | q :: quasis, [] => q ++ weave quasis []
  | q :: quasis, s :: texts => q ++ interpolation s ++ weave quasis texts

def asyncText (async : Bool) : String := if async then "async " else ""

def starText (generator : Bool) : String := if generator then "*" else ""

def nameText : Option String → String
  | none => ""
  | some name => " " ++ name

def unaryText (op operand : String) : String :=
  if op.toList.all Char.isAlpha then op ++ " " ++ operand else op ++ operand

def arrowBodyText (s : String) : String :=
  parensIf (startsWith "\x7b" s) s

/-- A statement that would start like a block or a function declaration is parenthesised. -/
def exprStmtText (s : String) : String :=
  parensIf (startsWith "\x7b" s || startsWith "function" s) s

def blockText (indent lines : String) : String :=
  "\x7b\n" ++ lines ++ indent ++ "\x7d"

mutual

def Expr.printIn (indent : String) : Expr → String
  | .literal value => value.print
  | .ident name => name
  | .member object (.name name) => memberText (parensIf object.isLooseCallee (object.printIn indent)) name
  | .member object (.computed index) =>
    parensIf object.isLooseCallee (object.printIn indent) ++ brackets (index.printIn indent)
  | .call callee args =>
    parensIf callee.isLooseCallee (callee.printIn indent) ++ parens (join ", " (Expr.printList indent args))
  | .optionalMember object (.name name) =>
    optionalMemberText (parensIf object.isLooseCallee (object.printIn indent)) name
  | .optionalMember object (.computed index) =>
    parensIf object.isLooseCallee (object.printIn indent) ++ "?." ++ brackets (index.printIn indent)
  | .optionalCall callee args =>
    parensIf callee.isLooseCallee (callee.printIn indent) ++ "?." ++
      parens (join ", " (Expr.printList indent args))
  | .new callee args =>
    "new " ++ parensIf callee.isLooseConstructor (callee.printIn indent) ++
      parens (join ", " (Expr.printList indent args))
  | .template quasis exprs => "`" ++ weave quasis (Expr.printList indent exprs) ++ "`"
  | .object members => braces (ObjectMember.printList indent members)
  | .array elems => brackets (join ", " (Expr.printElems indent elems))
  | .arrow params (.expr value) async =>
    asyncText async ++ Pattern.printParams params ++ " => " ++ arrowBodyText (value.printIn indent)
  | .arrow params (.block stmts) async =>
    asyncText async ++ Pattern.printParams params ++ " => " ++ Stmt.printBlock indent stmts
  | .function name params body async generator =>
    asyncText async ++ "function" ++ starText generator ++ nameText name ++
      parens (join ", " (Pattern.printList params)) ++ " " ++ Stmt.printBlock indent body
  | .unary op operand => unaryText op (parensIf operand.isCompound (operand.printIn indent))
  | .binary op lhs rhs =>
    parensIf lhs.isCompound (lhs.printIn indent) ++ " " ++ op ++ " " ++
      parensIf rhs.isCompound (rhs.printIn indent)
  | .conditional test yes no =>
    parensIf test.isCompound (test.printIn indent) ++ " ? " ++ parensIf yes.isCompound (yes.printIn indent) ++
      " : " ++ parensIf no.isCompound (no.printIn indent)
  | .assign op target value => target.printIn indent ++ " " ++ op ++ " " ++ value.printIn indent
  | .spread value => "..." ++ parensIf value.isCompound (value.printIn indent)
  | .verbatim text => text

def Expr.printList (indent : String) : List Expr → List String
  | [] => []
  | e :: exprs => e.printIn indent :: Expr.printList indent exprs

def Expr.printElems (indent : String) : List (Option Expr) → List String
  | [] => []
  | none :: elems => "" :: Expr.printElems indent elems
  | some e :: elems => e.printIn indent :: Expr.printElems indent elems

def ObjectMember.printList (indent : String) : List ObjectMember → List String
  | [] => []
  | .property key value shorthand :: members =>
    (if shorthand then value.printIn indent else key.print ++ ": " ++ value.printIn indent) ::
      ObjectMember.printList indent members
  | .spread value :: members =>
    ("..." ++ parensIf value.isCompound (value.printIn indent)) :: ObjectMember.printList indent members
  | .verbatim text :: members => text :: ObjectMember.printList indent members

def PropKey.print : PropKey → String
  | .ident name => name
  | .string value => Quoted.quote value
  | .number value => value.format
  | .computed expr => brackets (expr.printIn "")

def Pattern.print : Pattern → String
  | .ident name => name
  | .array elems => brackets (join ", " (Pattern.printElems elems))
  | .object props none => braces (PatternProp.printList props)
  | .object props (some others) => braces (PatternProp.printList props ++ ["..." ++ others.print])
  | .assign target value => target.print ++ " = " ++ value.printIn ""
  | .rest target => "..." ++ target.print

def Pattern.printList : List Pattern → List String
  | [] => []
  | p :: patterns => p.print :: Pattern.printList patterns

def Pattern.printElems : List (Option Pattern) → List String
  | [] => []
  | none :: elems => "" :: Pattern.printElems elems
  | some p :: elems => p.print :: Pattern.printElems elems

def Pattern.printParams : List Pattern → String
  | [] => parens ""
  | [.ident name] => name
  | p :: patterns => parens (join ", " (p.print :: Pattern.printList patterns))

def PatternProp.printList : List PatternProp → List String
  | [] => []
  | .mk key value shorthand :: props =>
    (if shorthand then value.print else key.print ++ ": " ++ value.print) :: PatternProp.printList props

def Declarator.printList (indent : String) : List Declarator → List String
  | [] => []
  | .mk target none :: declarators => target.print :: Declarator.printList indent declarators
  | .mk target (some init) :: declarators =>
    (target.print ++ " = " ++ init.printIn indent) :: Declarator.printList indent declarators

def Stmt.print (indent : String) : Stmt → String
  | .decl kind declarators _ =>
    indent ++ kind.keyword ++ " " ++ join ", " (Declarator.printList indent declarators) ++ ";\n"
  | .ret none _ => indent ++ "return;\n"
  | .ret (some value) _ => indent ++ "return " ++ value.printIn indent ++ ";\n"
  | .expr value _ => indent ++ exprStmtText (value.printIn indent) ++ ";\n"
  | .verbatim _ text _ => indent ++ trim text ++ "\n"

def Stmt.printAll (indent : String) : List Stmt → String
  | [] => ""
  | s :: stmts => s.print indent ++ Stmt.printAll indent stmts

def Stmt.printBlock (indent : String) : List Stmt → String
  | [] => "\x7b\x7d"
  | s :: stmts =>
    blockText indent (s.print (indent ++ indentStep) ++ Stmt.printAll (indent ++ indentStep) stmts)

end

def Expr.print (e : Expr) : String := e.printIn ""

def Export.text : Export → String
  | .none => ""
  | .named => "export "
  | .default => "export default "

def Function.print (f : Function) : String :=
  f.exported.text ++ asyncText f.async ++ "function" ++ starText f.generator ++ " " ++ f.name ++
    parens (join ", " (Pattern.printList f.params)) ++ " \x7b\n" ++ Stmt.printAll indentStep f.body ++ "\x7d\n"

def ImportSpec.namedText? : ImportSpec → Option String
  | .named imported localName =>
    some (if imported == localName then imported else imported ++ " as " ++ localName)
  | _ => none

def ImportSpec.plainText? : ImportSpec → Option String
  | .default localName => some localName
  | .namespace localName => some ("* as " ++ localName)
  | .named .. => none

/-- The default and namespace specifiers in order, then all named ones in one group. -/
def Import.parts (i : Import) : List String :=
  let named := i.specs.filterMap ImportSpec.namedText?
  i.specs.filterMap ImportSpec.plainText? ++ (if named.isEmpty then [] else [braces named])

def Import.print (i : Import) : String :=
  if i.specs.isEmpty then "import " ++ Quoted.quote i.source ++ ";\n"
  else "import " ++ join ", " i.parts ++ " from " ++ Quoted.quote i.source ++ ";\n"

def Item.isImport : Item → Bool
  | .importDecl _ => true
  | _ => false

def Item.print : Item → String
  | .importDecl decl => decl.print
  | .function func => func.print
  | .raw text => trimEnd text ++ "\n"

/-- A blank line stands between two items unless both are imports. -/
def Item.printAll : List Item → String
  | [] => ""
  | [item] => item.print
  | item :: next :: items =>
    item.print ++ (if item.isImport && next.isImport then "" else "\n") ++ Item.printAll (next :: items)

def Module.print (m : Module) : String := Item.printAll m.items

end Memoizer
