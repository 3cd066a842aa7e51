import Memoizer.Body.Print
import Memoizer.Log
import Memoizer.Partition.Basic
import Memoizer.Rebuild

namespace Memoizer

/-- `useMemo(() => value, [deps])`, with the primitive of the configuration. -/
def memoCall (c : Config) (value : Expr) (deps : List String) : Expr :=
  .call (.ident c.memoPrimitive) [.arrow [] (.expr value) false, .array (deps.map fun d => some (.ident d))]

def memoName (n : Nat) : String := "memoized" ++ toString n

def firstOccurrences (names : List String) : List String :=
  names.foldl (fun seen name => if seen.contains name then seen else seen ++ [name]) []

def Body.blockDependencies (b : Body) (block : Block) : List String :=
  firstOccurrences (block.deps.flatMap b.dependencyNames)

def Body.blockText (b : Body) (block : Block) : String :=
  "`" ++ b.name ++ "`: block " ++ InstId.text block.span.start ++ ".." ++ InstId.text block.span.stop

/-- What one block yields: a declaration, or only a line that says why there is none. -/
structure BlockResult where
  decl : Option Stmt
  line : Line

def Body.withoutInputs (b : Body) (block : Block) : BlockResult :=
  ⟨none, .info, b.blockText block ++ " has no changing inputs"⟩

def Body.withoutMember (b : Body) (block : Block) : BlockResult :=
  ⟨none, .warn, b.blockText block ++ " has no memoizable member; skipped"⟩

def Body.memoized (b : Body) (c : Config) (n : Nat) (target : InstId) (value : Expr) (deps : List String)
    (place : Option Place) : BlockResult :=
  ⟨some (.decl .const [.mk (.ident (memoName n)) (some (memoCall c value deps))] place), .info,
    "`" ++ b.name ++ "`: " ++ memoName n ++ " wraps " ++ InstId.text target ++ " " ++
      Text.brackets (Text.join ", " deps)⟩

def Body.memoDecl (b : Body) (c : Config) (facts : SideTable Facts) (n : Nat) (block : Block) : BlockResult :=
  if block.deps.isEmpty then b.withoutInputs block
  else match block.keys.find? fun id => (factsAt facts id).memo with
    | none => b.withoutMember block
    | some target => b.memoized c n target (b.rebuildExpr target) (b.blockDependencies block) (b.placeAt target)

def Body.memoDecls (b : Body) (c : Config) (facts : SideTable Facts) (n : Nat) : List PartItem → List Stmt × List Line
  | [] => ([], [])
  | .pass _ :: items => b.memoDecls c facts n items
  | .block block :: items =>
    let result := b.memoDecl c facts n block
    let rest := b.memoDecls c facts (n + result.decl.toList.length) items
    (result.decl.toList ++ rest.1, result.line :: rest.2)

end Memoizer
