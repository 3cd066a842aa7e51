import Memoizer.CommandLine.Address
import Memoizer.Text.Basic

namespace Memoizer.CommandLine

structure OptionSpec where
  long : String
  short : Option Char := none
  repeats : Bool := false
  isPath : Bool := false
deriving DecidableEq

/-- The options and the other arguments given to a command, in order. -/
structure Given where
  options : List (OptionSpec × String) := []
  others : List String := []

def Given.withOption (given : Given) (spec : OptionSpec) (value : String) : Given :=
  { given with options := (spec, value) :: given.options }

def Given.withOther (given : Given) (arg : String) : Given := { given with others := arg :: given.others }

def Given.values (given : Given) (spec : OptionSpec) : List String :=
  (given.options.filter (·.1 == spec)).map (·.2)

def Given.value? (given : Given) (spec : OptionSpec) : Option String := (given.values spec).head?

def Given.fits (given : Given) : Bool :=
  given.options.all fun (spec, value) =>
    (spec.repeats || (given.values spec).length ≤ 1) && !(spec.isPath && value.isEmpty)

inductive ArgumentKind
  | escape
  | complete (spec : OptionSpec) (value : String)
  | opened (spec : OptionSpec)
  | other
  | unknown

def isFlag (arg : String) : Bool := Text.startsWith "-" arg && arg != "-"

def longKind (specs : List OptionSpec) (cs : List Char) : ArgumentKind :=
  let name := cs.takeWhile (· != '=')
  match specs.find? (·.long == String.ofList name), cs.drop name.length with
  | none, _ => .unknown
  | some spec, [] => .opened spec
  | some spec, _ :: value => .complete spec (String.ofList value)

def shortKind (specs : List OptionSpec) : List Char → ArgumentKind
  | [] => .unknown
  | c :: cs =>
    match specs.find? (·.short == some c), cs with
    | none, _ => .unknown
    | some spec, [] => .opened spec
    | some spec, '=' :: value => .complete spec (String.ofList value)
    | some spec, value => .complete spec (String.ofList value)

def argumentKind (specs : List OptionSpec) (arg : String) : ArgumentKind :=
  match arg.toList with
  | ['-', '-'] => .escape
  | ['-'] => .other
  | '-' :: '-' :: cs => longKind specs cs
  | '-' :: cs => shortKind specs cs
  | _ => .other

inductive ArgumentMode
  | free
  | wants (spec : OptionSpec)
  | escaped

/-- All arguments of a command. Behind a double dash there are no options. -/
def readArguments (specs : List OptionSpec) : ArgumentMode → List String → Option Given
  | .wants _, [] => none
  | _, [] => some {}
  | .escaped, arg :: args => (readArguments specs .escaped args).map (·.withOther arg)
  | .wants spec, arg :: args =>
    if isFlag arg then none else (readArguments specs .free args).map (·.withOption spec arg)
  | .free, arg :: args =>
    match argumentKind specs arg with
    | .escape => readArguments specs .escaped args
    | .complete spec value => (readArguments specs .free args).map (·.withOption spec value)
    | .opened spec => readArguments specs (.wants spec) args
    | .other => (readArguments specs .free args).map (·.withOther arg)
    | .unknown => none

/-- The options in front of the name of a command, that name, and the arguments behind it. -/
def splitCommand (specs : List OptionSpec) : Option OptionSpec → List String → Option (Given × String × List String)
  | _, [] => none
  | some spec, arg :: args =>
    if isFlag arg then none
    else (splitCommand specs none args).map fun r => (r.1.withOption spec arg, r.2)
  | none, arg :: args =>
    match argumentKind specs arg with
    | .complete spec value => (splitCommand specs none args).map fun r => (r.1.withOption spec value, r.2)
    | .opened spec => splitCommand specs (some spec) args
    | .other => some ({}, arg, args)
    | _ => none

inductive Command
  | compile (input : String) (output : Option String)
  | printIr (input : String) (function : Option String)
  | serve (address : String)
deriving DecidableEq

structure Invocation where
  config : Option String
  skipped : List String
  command : Command
deriving DecidableEq

def configOption : OptionSpec := { long := "config", isPath := true }

def skipOption : OptionSpec := { long := "skip-pass", repeats := true }

def outputOption : OptionSpec := { long := "output", short := some 'o', isPath := true }

def functionOption : OptionSpec := { long := "function" }

def bindOption : OptionSpec := { long := "bind" }

def sharedOptions : List OptionSpec := [configOption, skipOption]

def ownOptions (name : String) : List OptionSpec :=
  match name with
  | "compile" => [outputOption]
  | "print-ir" => [functionOption]
  | "serve" => [bindOption]
  | _ => []

def Given.input? (given : Given) : Option String :=
  match given.others with
  | [input] => if input.isEmpty then none else some input
  | _ => none

def Given.command? (given : Given) (name : String) : Option Command :=
  match name with
  | "compile" => given.input?.map (.compile · (given.value? outputOption))
  | "print-ir" => given.input?.map (.printIr · (given.value? functionOption))
  | "serve" =>
    let address := (given.value? bindOption).getD "127.0.0.1:3000"
    if given.others.isEmpty && isAddress address then some (.serve address) else none
  | _ => none

def innerOrOuter (outer inner : List String) : List String := if inner.isEmpty then outer else inner

/-- What the arguments ask for; nothing if they are not used as they should be. -/
def Invocation.parse? (args : List String) : Option Invocation := do
  let (outer, name, args) ← splitCommand sharedOptions none args
  let inner ← readArguments (sharedOptions ++ ownOptions name) .free args
  if !(outer.fits && inner.fits) then none
  let command ← inner.command? name
  let values (spec : OptionSpec) := innerOrOuter (outer.values spec) (inner.values spec)
  return ⟨(values configOption).head?, values skipOption, command⟩

end Memoizer.CommandLine
