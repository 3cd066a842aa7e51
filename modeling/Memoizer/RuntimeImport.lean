import Memoizer.Config.Basic
import Memoizer.Log
import Memoizer.Tree.Basic

namespace Memoizer

def ImportSpec.isNamespace : ImportSpec → Bool
  | .namespace _ => true
  | _ => false

/-- Generated code calls a primitive by its own name, so an alias does not count. -/
def Import.binds (i : Import) (name : String) : Bool := i.specs.contains (.named name name)

def Import.takesNamed (i : Import) : Bool := !i.specs.any ImportSpec.isNamespace

def Import.isRuntime (c : Config) (i : Import) : Bool := i.source == c.runtimeModule && i.takesNamed

def Import.require (state : Import × List String) (name : String) : Import × List String :=
  if state.1.binds name then state
  else ({ state.1 with specs := state.1.specs ++ [.named name name] }, state.2 ++ [name])

def Import.complete (c : Config) (i : Import) : Import × List String :=
  [c.memoPrimitive, c.statePrimitive].foldl Import.require (i, [])

/-- Completes the first import that can take the primitives, and tells the names added to it. -/
def completeFirst (c : Config) : List Item → Option (List Item × List String)
  | [] => none
  | .importDecl i :: items =>
    if i.isRuntime c then
      let (i, added) := i.complete c
      some (.importDecl i :: items, added)
    else (completeFirst c items).map fun r => (.importDecl i :: r.1, r.2)
  | item :: items => (completeFirst c items).map fun r => (item :: r.1, r.2)

structure ImportResult where
  result : Module
  changed : Bool
  lines : List Line

def quotedModule (c : Config) : String := "\"" ++ c.runtimeModule ++ "\""

def Module.ensureRuntimeImport (m : Module) (c : Config) : ImportResult :=
  match completeFirst c m.items with
  | some (_, []) => ⟨m, false, []⟩
  | some (items, added) =>
    ⟨⟨items⟩, true, [⟨.info, "added " ++ Text.join ", " added ++ " to import from " ++ quotedModule c⟩]⟩
  | none =>
    let decl : Import := ⟨c.runtimeModule, [.named c.memoPrimitive c.memoPrimitive]⟩
    ⟨⟨.importDecl decl :: m.items⟩, true,
      [⟨.info, "inserted import of " ++ c.memoPrimitive ++ " from " ++ quotedModule c⟩]⟩

end Memoizer
