import Scriptlet.Report.Json
import Scriptlet.Sample
import Scriptlet.Service.Body

/-!
# The service

Answers to requests over HTTP. Each path has one method that it answers (`HEAD` goes with `GET`), any
origin may ask, and all answers with a body are JSON. The service keeps nothing from one request to the
next.
-/

namespace Scriptlet

structure Service where
  options : CompileOptions
  samples : List Sample

namespace Service

structure Request where
  method : String
  target : String
  body : List UInt8

structure Response where
  status : Nat
  headers : List (String × String)
  body : Option Json

inductive Route where
  | index
  | health
  | examples
  | compile
  | analyzeTokens
  | analyzeTree
deriving DecidableEq, Repr

namespace Route

def path : Route → String
  | index => "/"
  | health => "/health"
  | examples => "/examples"
  | compile => "/compile"
  | analyzeTokens => "/analyze/lexical"
  | analyzeTree => "/analyze/syntax"

def all : List Route := [index, health, examples, compile, analyzeTokens, analyzeTree]

def ofPath? (path : String) : Option Route :=
  all.find? (·.path = path)

/-- Whether the route answers questions about a program that comes with the request. -/
def takesCode : Route → Bool
  | index | health | examples => false
  | compile | analyzeTokens | analyzeTree => true

def methods (r : Route) : List String :=
  if r.takesCode then ["POST"] else ["GET", "HEAD"]

end Route

/-- The path that a request asks for: what follows the host, if one is named, up to a query or fragment. -/
def pathOf (target : String) : String :=
  let cs := target.toList
  let fromPath :=
    match cs.takeWhile (· ≠ '/'), cs.dropWhile (· ≠ '/') with
    | scheme, '/' :: '/' :: rest =>
      if scheme.getLast? = some ':' then
        match rest.dropWhile (fun c => c ≠ '/' ∧ c ≠ '?' ∧ c ≠ '#') with
        | '/' :: rest => '/' :: rest
        | rest => '/' :: rest
      else cs
    | _, _ => cs
  String.ofList (fromPath.takeWhile fun c => c ≠ '?' ∧ c ≠ '#')

def anyOrigin : String × String := ("access-control-allow-origin", "*")

def jsonContent : String × String := ("content-type", "application/json")

def bare (status : Nat) (headers : List (String × String)) : Response :=
  ⟨status, headers ++ [anyOrigin], none⟩

def answer (status : Nat) (body : Json) : Response :=
  ⟨status, [jsonContent, anyOrigin], some body⟩

def indexBody : Json :=
  .obj [("message", .str "minic compiler API is running"), ("status", .str "ok"),
    ("endpoints", .list (fun r => .str (Route.path r))
      [.compile, .analyzeTokens, .analyzeTree, .examples, .health])]

def healthBody : Json :=
  .obj [("status", .str "ok"), ("message", .str "minic compiler API is up")]

def examplesBody (s : Service) : Json :=
  .obj [("examples", .list Sample.json s.samples)]

def analysis (s : Service) (clock : Clock) (route : Route) (code : String) : Json :=
  match route with
  | .index => indexBody
  | .health => healthBody
  | .examples => s.examplesBody
  | .compile => (Scriptlet.compile s.options clock code).json .zero
  | .analyzeTokens => (Scriptlet.analyzeTokens code).jsonWithCount
  | .analyzeTree => (Scriptlet.analyzeTree code).json

/-- What is answered at a route that exists, to a method that it takes. -/
def serve (s : Service) (clock : Clock) (route : Route) (r : Request) : Response :=
  if route.takesCode then
    match codeOf r.body with
    | .ok code => answer 200 (s.analysis clock route code)
    | .error fault =>
      answer 400 (.obj [("error", .str ("invalid request body: " ++ fault.message))])
  else
    let full := answer 200 (s.analysis clock route "")
    if r.method = "HEAD" then { full with body := none } else full

/-- The answer to a request. Asking for the options is always allowed. -/
def handle (s : Service) (clock : Clock) (r : Request) : Response :=
  match Route.ofPath? (pathOf r.target) with
  | none => bare (if r.method = "OPTIONS" then 200 else 404) []
  | some route =>
    if r.method ∈ route.methods then s.serve clock route r
    else
      bare (if r.method = "OPTIONS" then 200 else 405) [("allow", ",".intercalate route.methods)]

end Service

end Scriptlet
