import Memoizer.Text.Basic

namespace Memoizer

structure Passes where
  irBlocks : Bool := true
  wrapping : Bool := true
  imports : Bool := true
deriving DecidableEq

def Passes.skip (p : Passes) (name : String) : Passes :=
  match name with
  | "ir-blocks" => { p with irBlocks := false }
  | "direct-rewrite" => { p with wrapping := false }
  | "imports" => { p with imports := false }
  | _ => p

def Passes.ofSkipList (names : List String) : Passes :=
  names.foldl Passes.skip {}

structure Config where
  runtimeModule : String := "react"
  memoPrimitive : String := "useMemo"
  statePrimitive : String := "useState"
  hookPrefix : String := "use"
  expensiveMethods : List String := ["map", "filter", "reduce", "sort", "find", "findIndex"]
  expensiveCallees : List String := ["Math.sqrt", "Math.pow", "Math.sin", "Math.cos"]
  ignoredNames : List String :=
    ["Math", "console", "JSON", "Object", "Array", "String", "Number", "Boolean", "Date", "Promise",
      "undefined", "NaN", "Infinity", "window", "document", "globalThis"]
  passes : Passes := {}
deriving DecidableEq

namespace Config

def isExpensiveMethod (c : Config) (name : String) : Bool := c.expensiveMethods.contains name

def headOf (name : String) : List Char := name.toList.takeWhile (· != '.')

/-- The head of one of the expensive callees occurs somewhere in the callee's name. -/
def isExpensiveCallee (c : Config) (callee : String) : Bool :=
  c.expensiveCallees.any fun e => !(headOf e).isEmpty && Text.occursIn (headOf e) callee.toList

def isHook (c : Config) (callee : String) : Bool := Text.startsWith c.hookPrefix callee

def isIgnored (c : Config) (name : String) : Bool := c.ignoredNames.contains name

end Config

end Memoizer
