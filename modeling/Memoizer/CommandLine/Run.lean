import Memoizer.CommandLine.Arguments
import Memoizer.Config.Decode
import Memoizer.Folder
import Memoizer.Report
import Memoizer.Source.Module

namespace Memoizer.CommandLine

structure Failure where
  message : String
  cause : Option String := none
deriving DecidableEq

structure Output where
  stdout : String := ""
  stderr : String := ""
  failure : Option Failure := none
deriving DecidableEq

def Output.exitCode (o : Output) : Nat := if o.failure.isSome then 1 else 0

def Output.failed (failure : Failure) : Output := { failure := some failure }

def quoted (name : String) : String := "`" ++ name ++ "`"

/-- The configuration, from its text where a file is named; passes to skip replace those set there. -/
def configure (path : Option String) (text : Option String) (skipped : List String) : Except Failure Config := do
  let base ← match path with
    | none => .ok {}
    | some path =>
      match text.map Config.ofJson with
      | some (.ok c) => .ok c
      | _ => .error { message := "failed to load config " ++ path }
  return if skipped.isEmpty then base else { base with passes := Passes.ofSkipList skipped }

def loadModule (input : String) (text : Option String) : Except Failure Module :=
  match text with
  | none => .error { message := "failed to read " ++ input }
  | some text =>
    match Source.readModule input text with
    | none => .error { message := Source.failureMessage input }
    | some m => .ok m

def summaryLine (s : Stats) : String :=
  "[compile] " ++ toString s.functions ++ " function(s), " ++ toString s.memoBlocks ++ " memo block(s), " ++
    toString s.wrapped ++ " direct rewrite(s)\n"

def compileText (c : Config) (input : String) (m : Module) : Except Failure (String × String) :=
  let run := m.compile c {}
  match run.outcome with
  | .ok stats => .ok (run.result.print, summaryLine stats)
  | .error e => .error ⟨"failed to compile " ++ input, some e.message⟩

def writtenOutput (path summary : String) (isWritten : Bool) : Output :=
  if isWritten then { stderr := summary ++ "[compile] wrote " ++ path ++ "\n" }
  else { stderr := summary, failure := some { message := "failed to write " ++ path } }

/-- The reports of functions, with an empty line between them, up to the first that fails. -/
def reports (c : Config) : Log → Bool → List Function → Output
  | _, _, [] => {}
  | log, isFirst, f :: fs =>
    match f.analyze c log with
    | .error e _ => .failed ⟨"failed to analyze " ++ quoted f.name, some e.message⟩
    | .ok a log =>
      let rest := reports c log false fs
      { rest with stdout := (if isFirst then "" else "\n") ++ a.report ++ rest.stdout }

def isWanted (wanted : Option String) (f : Function) : Bool := wanted.all (· == f.name)

def printIr (c : Config) (input : String) (wanted : Option String) (m : Module) : Output :=
  match m.functions.filter (isWanted wanted), wanted with
  | [], some name => .failed { message := "no function named " ++ quoted name ++ " in " ++ input }
  | [], none => { stderr := "[print-ir] no function declarations in " ++ input ++ "\n" }
  | fs, _ => reports c {} true fs

section

variable {m : Type → Type} [Monad m]

def runCompile (files : Files m) (c : Config) (input : String) (output : Option String) : m Output := do
  match loadModule input (← files.read input) >>= compileText c input with
  | .error failure => return .failed failure
  | .ok (code, summary) =>
    match output with
    | none => return { stdout := code, stderr := summary }
    | some path => return writtenOutput path summary (← files.write path code)

def runPrintIr (files : Files m) (c : Config) (input : String) (wanted : Option String) : m Output := do
  match loadModule input (← files.read input) with
  | .error failure => return .failed failure
  | .ok parsed => return printIr c input wanted parsed

/-- Runs a command. Listening is left to the caller, for whom there is nothing to write then. -/
def Command.run (files : Files m) (c : Config) : Command → m Output
  | .compile input output => runCompile files c input output
  | .printIr input function => runPrintIr files c input function
  | .serve _ => return {}

def Invocation.run (files : Files m) (inv : Invocation) : m Output := do
  let text ← match inv.config with
    | none => pure none
    | some path => files.read path
  match configure inv.config text inv.skipped with
  | .error failure => return .failed failure
  | .ok c => inv.command.run files c

end

end Memoizer.CommandLine
