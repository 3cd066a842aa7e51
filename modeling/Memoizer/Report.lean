import Memoizer.Body.Print
import Memoizer.Compile

namespace Memoizer

open Text

def Facts.flags (f : Facts) : List String :=
  (if f.mayChange then ["may-change"] else []) ++ (if f.writable then ["writable"] else []) ++
    (if f.memo then ["memo"] else [])

def Facts.printLine (id : InstId) (f : Facts) : String :=
  "  " ++ InstId.text id ++ ": deps " ++ idSetText f.dependencies ++ " mutators " ++ idSetText f.mutators ++
    join "" (f.flags.map (" " ++ ·)) ++ "\n"

def PartItem.printLine : PartItem → String
  | .pass id => "pass " ++ InstId.text id ++ "\n"
  | .block b =>
    "block " ++ brackets (InstId.text b.span.start ++ ".." ++ InstId.text b.span.stop) ++ " deps " ++
      idSetText b.deps ++ "\n"

def FunctionAnalysis.print (a : FunctionAnalysis) : String :=
  a.body.print ++ "\n" ++
    join "" (a.body.insts.keys.map fun id => (factsAt a.facts id).printLine id) ++
    join "" (a.items.map PartItem.printLine)

def FunctionAnalysis.report (a : FunctionAnalysis) : String :=
  a.print ++ "statements:\n" ++ Stmt.printAll indentStep a.body.reconstruct

end Memoizer
