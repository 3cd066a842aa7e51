import Memoizer.CommandLine.Run

open Memoizer Memoizer.CommandLine

def diskFiles : Files IO where
  read path := try return some (← IO.FS.readFile path) catch _ => return none
  write path text := try IO.FS.writeFile path text; return true catch _ => return false

def usage : String :=
  "Usage: memoizer [--config <path>] [--skip-pass <pass>]... <command>\n" ++
    "  compile <input> [-o <path>]\n" ++
    "  print-ir <input> [--function <name>]\n" ++
    "  serve [--bind <address>]\n"

def failureText (failure : Failure) : String :=
  "Error: " ++ failure.message ++
    match failure.cause with
    | none => "\n"
    | some cause => "\n\nCaused by:\n    " ++ cause ++ "\n"

def listening : Command → Option String
  | .serve address => some address
  | _ => none

def main (args : List String) : IO UInt32 := do
  match Invocation.parse? args with
  | none =>
    (← IO.getStderr).putStr usage
    return 2
  | some inv =>
    let output ← inv.run diskFiles
    let output := match output.failure, listening inv.command with
      | none, some address => { output with failure := some { message := "cannot listen on " ++ address } }
      | _, _ => output
    (← IO.getStdout).putStr output.stdout
    (← IO.getStderr).putStr output.stderr
    if let some failure := output.failure then (← IO.getStderr).putStr (failureText failure)
    return UInt32.ofNat output.exitCode
