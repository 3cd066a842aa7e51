import Memoizer.Lowering
import Memoizer.MemoDecl
import Memoizer.RuntimeImport
import Memoizer.Wrap

namespace Memoizer

def Logged.write (lines : List Line) : Logged Unit := modify (·.append lines)

structure FunctionAnalysis where
  body : Body
  facts : SideTable Facts
  items : List PartItem

def liftExcept {α : Type} : Except Error α → Logged α
  | .ok a => pure a
  | .error e => throw e

def Function.analyze (f : Function) (c : Config) : Logged FunctionAnalysis := do
  let body ← f.lower
  let facts := body.analyze c
  let items ← liftExcept (body.partition facts)
  pure ⟨body, facts, items⟩

structure Compiled where
  stmts : List Stmt
  memoBlocks : Nat
  wrapped : Nat

def Compiled.changed (r : Compiled) : Bool := 0 < r.memoBlocks || 0 < r.wrapped

def FunctionAnalysis.memoDecls (a : FunctionAnalysis) (c : Config) : List Stmt × List Line :=
  if c.passes.irBlocks then a.body.memoDecls c a.facts 0 a.items else ([], [])

def Function.wrapStmts (f : Function) (c : Config) : Wrapped (List Stmt) :=
  if c.passes.wrapping then wrapInitializers c f.body else { value := f.body }

def Function.summary (f : Function) (r : Compiled) : Line :=
  if r.changed then
    ⟨.success, "`" ++ f.name ++ "`: " ++ toString r.memoBlocks ++ " memo block(s), " ++
      toString r.wrapped ++ " direct rewrite(s)"⟩
  else ⟨.info, "`" ++ f.name ++ "`: nothing to memoize"⟩

def Function.compile (f : Function) (c : Config) : Logged Compiled := do
  let analysis ← f.analyze c
  let (decls, lines) := analysis.memoDecls c
  Logged.write lines
  let outcome := f.wrapStmts c
  Logged.write outcome.lines
  let compiled : Compiled := ⟨decls ++ outcome.value, decls.length, outcome.count⟩
  Logged.write [f.summary compiled]
  pure compiled

structure Stats where
  functions : Nat := 0
  memoBlocks : Nat := 0
  wrapped : Nat := 0
  importChanged : Bool := false
deriving DecidableEq

def Stats.add (s : Stats) (r : Compiled) : Stats :=
  { s with
    functions := s.functions + 1
    memoBlocks := s.memoBlocks + r.memoBlocks
    wrapped := s.wrapped + r.wrapped }

/-- What a run over a module leaves: the items, compiled up to the first function that fails, the
totals, and that failure if there is one. -/
structure ItemsResult where
  items : List Item
  stats : Stats
  failure : Option Error
  log : Log

def compileItems (c : Config) (stats : Stats) (log : Log) : List Item → ItemsResult
  | [] => ⟨[], stats, none, log⟩
  | .function f :: items =>
    match f.compile c log with
    | .ok r log =>
      let rest := compileItems c (stats.add r) log items
      { rest with items := .function { f with body := r.stmts } :: rest.items }
    | .error e log => ⟨.function f :: items, stats, some e, log⟩
  | item :: items =>
    let rest := compileItems c stats log items
    { rest with items := item :: rest.items }

/-- What compiling a module leaves. On a failure the functions in front of it stay compiled. -/
structure ModuleResult where
  result : Module
  outcome : Except Error Stats
  log : Log

def Stats.changedBodies (s : Stats) : Bool := 0 < s.memoBlocks + s.wrapped

def Module.compile (m : Module) (c : Config) (log : Log) : ModuleResult :=
  let run := compileItems c {} log m.items
  match run.failure with
  | some e => ⟨⟨run.items⟩, .error e, run.log⟩
  | none =>
    if run.stats.changedBodies && c.passes.imports then
      let r := Module.ensureRuntimeImport ⟨run.items⟩ c
      ⟨r.result, .ok { run.stats with importChanged := r.changed }, run.log.append r.lines⟩
    else ⟨⟨run.items⟩, .ok run.stats, run.log⟩

end Memoizer
