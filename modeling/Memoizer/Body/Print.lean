import Memoizer.Body.Basic
import Memoizer.Tree.Print

namespace Memoizer

open Text

def InstId.text (id : InstId) : String := "v" ++ toString id

def idSetText (ids : List InstId) : String :=
  "\x7b" ++ join ", " (ids.map InstId.text) ++ "\x7d"

def Operand.print : Operand → String
  | .literal lit => lit.print
  | .value id => InstId.text id

def Property.print : Property → String
  | .named name => "." ++ name
  | .index position => brackets (toString position)

def Constant.print : Constant → String
  | .literal value => value.print
  | .global name => "global " ++ name
  | .function expr => "fn `" ++ expr.print ++ "`"
  | .unsupported kind _ => "unsupported <" ++ kind ++ ">"

def Op.print : Op → String
  | .param name => "param " ++ name
  | .constant value => "const " ++ value.print
  | .declare kind pattern _ value => kind.keyword ++ " " ++ pattern.print ++ " = " ++ InstId.text value
  | .read base property => "read " ++ InstId.text base ++ property.print
  | .object props => "object " ++ braces (props.map fun p => p.1 ++ ": " ++ p.2.print)
  | .call receiver property args =>
    "call " ++ InstId.text receiver ++ (property.map Property.print).getD "" ++ parens (join ", " (args.map Operand.print))
  | .ret none => "return"
  | .ret (some value) => "return " ++ InstId.text value

def Op.isReturn : Op → Bool
  | .ret _ => true
  | _ => false

/-- A return defines no value. -/
def Op.printLine (id : InstId) (op : Op) : String :=
  "  " ++ (if op.isReturn then "" else InstId.text id ++ " = ") ++ op.print ++ "\n"

def Body.print (b : Body) : String :=
  "fn " ++ b.name ++ " \x7b\n" ++ join "" (b.insts.entries.map fun p => p.2.op.printLine p.1) ++ "\x7d"

end Memoizer
