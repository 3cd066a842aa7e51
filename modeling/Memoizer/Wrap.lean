import Memoizer.FreeNames
import Memoizer.Log
import Memoizer.MemoDecl
import Memoizer.Tree.Print

namespace Memoizer

def Expr.isExpensiveCall (c : Config) : Expr → Bool
  | .call (.member _ (.name method)) _ => c.isExpensiveMethod method
  | _ => false

inductive Wrapping
  | keep
  | unreadable
  | wrap (deps : List String)

def Expr.wrapping (c : Config) (init : Expr) : Wrapping :=
  if init.isExpensiveCall c then
    let scan := init.scan c {}
    if scan.unreadable then .unreadable
    else if scan.found.isEmpty then .keep
    else .wrap scan.found
  else .keep

/-- The outcome: the new form, how many initializers were wrapped, the lines written. -/
structure Wrapped (α : Type) where
  value : α
  count : Nat := 0
  lines : List Line := []

def Declarator.wrap (c : Config) : Declarator → Wrapped Declarator
  | .mk target none => { value := .mk target none }
  | .mk target (some init) =>
    match init.wrapping c with
    | .keep => { value := .mk target (some init) }
    | .unreadable =>
      { value := .mk target (some init)
        lines := [⟨.warn, "skipped `" ++ target.print ++ "`: initializer has source the dependency scan cannot read"⟩] }
    | .wrap deps =>
      { value := .mk target (some (memoCall c init deps))
        count := 1
        lines := [⟨.info, "wrapped `" ++ target.print ++ "` in " ++ c.memoPrimitive ++ " " ++
          Text.brackets (Text.join ", " deps)⟩] }

def Wrapped.cons {α : Type} (head : Wrapped α) (tail : Wrapped (List α)) : Wrapped (List α) :=
  ⟨head.value :: tail.value, head.count + tail.count, head.lines ++ tail.lines⟩

def Wrapped.map {α β : Type} (f : α → β) (r : Wrapped α) : Wrapped β := ⟨f r.value, r.count, r.lines⟩

def wrapEach {α : Type} (f : α → Wrapped α) : List α → Wrapped (List α)
  | [] => { value := [] }
  | a :: as => (f a).cons (wrapEach f as)

def Stmt.wrap (c : Config) : Stmt → Wrapped Stmt
  | .decl kind declarators place =>
    (wrapEach (Declarator.wrap c) declarators).map fun ds => .decl kind ds place
  | s => { value := s }

def wrapInitializers (c : Config) (stmts : List Stmt) : Wrapped (List Stmt) :=
  wrapEach (Stmt.wrap c) stmts

end Memoizer
