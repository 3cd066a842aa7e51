import Memoizer.Compile
import Memoizer.Config.Decode
import Memoizer.Http.MediaType
import Memoizer.Source.Module
import Memoizer.Tree.Print

namespace Memoizer.Http

open Json

structure Job where
  code : String := ""
  file : String := "input.js"
deriving DecidableEq

def Job.fields : List (RecordField Job) :=
  [{ setting "code" string (fun j v => { j with code := v }) with required := true },
    setting "filename" string fun j v => { j with file := v }]

def Job.ofJson (text : String) : Except Fault Job := decode (record Job.fields {}) text

/-- What a job comes to: the compiled text or why there is none, and the log. -/
structure Result where
  outcome : Except String String
  log : Log

def Job.run (job : Job) (c : Config) : Result :=
  match Source.readModule job.file job.code with
  | none => ⟨.error (Source.failureMessage job.file), {}⟩
  | some m =>
    let run := m.compile c {}
    match run.outcome with
    | .ok _ => ⟨.ok run.result.print, run.log⟩
    | .error e => ⟨.error e.message, run.log⟩

structure Request where
  method : String
  path : String
  contentType : Option String
  body : String
deriving DecidableEq

inductive Response
  | text (body : String)
  | compiled (result : Result)
  | refused (status : Nat)

def Response.status : Response → Nat
  | .refused status => status
  | _ => 200

def Request.route (r : Request) : String :=
  String.ofList (r.path.toList.takeWhile fun c => c != '?' && c != '#')

def Request.isJson (r : Request) : Bool :=
  (r.contentType.bind MediaType.parse?).any MediaType.isJson

/-- Malformed JSON is a bad request; JSON of the wrong shape cannot be processed. -/
def faultStatus : Fault → Nat
  | .malformed => 400
  | .mismatch => 422

def Request.compile (r : Request) (c : Config) : Response :=
  if r.method != "POST" then .refused 405
  else if !r.isJson then .refused 415
  else match Job.ofJson r.body with
    | .ok job => .compiled (job.run c)
    | .error fault => .refused (faultStatus fault)

def Request.health (r : Request) : Response :=
  if r.method == "GET" then .text "ok"
  else if r.method == "HEAD" then .text ""
  else .refused 405

def Request.answer (r : Request) (c : Config) : Response :=
  match r.route with
  | "/compile" => r.compile c
  | "/health" => r.health
  | _ => .refused 404

end Memoizer.Http
