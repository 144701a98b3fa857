import Scriptlet.CommandLine
import Scriptlet.FileTree
import Scriptlet.Report.Json
import Scriptlet.Text.Quoted

/-!
# The console command

Runs one program and reports on it. The command acts through a `World`, which holds what it can do
outside: in memory, for trying it out, or for real.
-/

namespace Scriptlet.Console

open CommandLine

inductive Format where
  | json
  | text
deriving DecidableEq, Repr

def Format.ofName? (name : String) : Option Format :=
  if name = "json" then some .json else if name = "text" then some .text else none

structure Options where
  /-- the file that holds the program; without one it is read from the standard input -/
  input : Option String := none
  /-- the file that the report is written to as well -/
  output : Option String := none
  format : Format := .json
  limits : Limits := {}
  noMetrics : Bool := false
  verbose : Bool := false
deriving DecidableEq, Repr

namespace Options

def all : List (Opt Options) :=
  [⟨"input", some 'i', .value fun text o => some { o with input := some text }⟩,
   ⟨"output", some 'o', .value fun text o => some { o with output := some text }⟩,
   ⟨"format", none, .value fun text o => (Format.ofName? text).map ({ o with format := · })⟩,
   ⟨"no-metrics", none, .flag fun o => { o with noMetrics := true }⟩,
   ⟨"verbose", some 'v', .flag fun o => { o with verbose := true }⟩] ++
  limitOptions fun f o => { o with limits := f o.limits }

def ofArgs (args : List String) : Except Stop Options :=
  settings all {} args

def compileOptions (o : Options) : CompileOptions :=
  { limits := o.limits, includeMetrics := !o.noMetrics }

end Options

inductive Document where
  | bytes (b : ByteArray)
  | report (r : Report) (t : Timing)

namespace Document

def ofText (s : String) : Document := bytes s.toUTF8

def toBytes : Document → ByteArray
  | bytes b => b
  | report r t => (r.text t).toUTF8

end Document

/-- The outside, as far as the command deals with it. -/
structure World (m : Type → Type) where
  readFile : String → m (Except IoFault ByteArray)
  readInput : m (Except IoFault ByteArray)
  makeDirs : String → m (Except IoFault Unit)
  writeFile : String → Document → m (Except IoFault Unit)
  print : Document → m Unit
  complain : String → m Unit
  compile : CompileOptions → String → m (Report × Timing)

structure Failure where
  context : String
  cause : IoFault
deriving DecidableEq, Repr

def Failure.message (f : Failure) : String :=
  s!"Error: {f.context}\n\nCaused by:\n    " ++ f.cause.message ++ "\n"

variable {m : Type → Type} [Monad m]

def within {α : Type} (context : String) (act : m (Except IoFault α)) : ExceptT Failure m α :=
  ExceptT.mk do
    return (← act).mapError (⟨context, ·⟩)

def source (w : World m) (o : Options) : ExceptT Failure m String :=
  let (context, act) := match o.input with
    | some path => (s!"failed to read input file {path}", w.readFile path)
    | none => ("failed to read program from stdin", w.readInput)
  within context do return (← act) >>= decodeText

/-- Writes a document to a file. The directory that holds it is created if need be. -/
def save (w : World m) (path : String) (d : Document) : ExceptT Failure m Unit := do
  match Path.parentText? path with
  | none | some "" => pure ()
  | some parent => within ("failed to create directory " ++ Text.quoted parent) (w.makeDirs parent)
  within s!"failed to write report file {path}" (w.writeFile path d)

def present (w : World m) (format : Format) (r : Report) (t : Timing) : m Unit :=
  match format with
  | .json => do
    w.print (.report r t)
    w.print (.ofText "\n")
  | .text => do
    w.print (.ofText (r.output.getD ""))
    for d in r.phases.diagnostics do
      w.complain (d.line ++ "\n")

/-- Runs the program that the options name. Tells whether all went well with it. -/
def perform (w : World m) (o : Options) : ExceptT Failure m Bool := do
  let (report, timing) ← w.compile o.compileOptions (← source w o)
  if let some path := o.output then save w path (.report report timing)
  ExceptT.lift (present w o.format report timing)
  return report.success

def versionText : String := "minic 0.1.0\n"

def helpText : String :=
  "Compile and run a minic program, then report every phase\n\nUsage: minic [OPTIONS]\n\nOptions:\n" ++
  "  -i, --input <INPUT>             Source file to run (reads stdin when omitted)\n" ++
  "  -o, --output <PATH>             Also write the JSON report to this file\n" ++
  "      --format <FORMAT>           json or text\n" ++
  "      --step-budget <N>\n      --timeout-ms <MS>\n      --max-call-depth <N>\n" ++
  "      --max-output-bytes <BYTES>\n" ++
  "      --max-value-bytes <BYTES>   Largest string a program may build\n" ++
  "      --no-metrics                Leave the metrics object out of the report\n" ++
  "  -v, --verbose                   Verbose output\n" ++
  "  -h, --help                      Print help\n  -V, --version                   Print version\n"

/-- The whole command. The result is its exit code. -/
def run (w : World m) (args : List String) : m Nat := do
  match Options.ofArgs args with
  | .error .version => w.print (.ofText versionText); return 0
  | .error .help => w.print (.ofText helpText); return 0
  | .error .usage => w.complain "Usage: minic [OPTIONS]\n"; return 2
  | .ok o =>
    match ← (perform w o).run with
    | .ok true => return 0
    | .ok false => return 1
    | .error failure => w.complain failure.message; return 1

structure Desk where
  files : FileTree Document := {}
  input : ByteArray := .empty
  /-- what has been printed, last piece first -/
  printed : List Document := []
  complaints : String := ""

/-- The outside in memory, where nothing takes any time. -/
def deskWorld : World (StateM Desk) where
  readFile path := return ((← get).files.read path).map Document.toBytes
  readInput := return .ok (← get).input
  makeDirs path := do
    match (← get).files.makeDirs path with
    | .ok files => modify ({ · with files }); return .ok ()
    | .error fault => return .error fault
  writeFile path d := do
    match (← get).files.write path d with
    | .ok files => modify ({ · with files }); return .ok ()
    | .error fault => return .error fault
  print d := modify fun s => { s with printed := d :: s.printed }
  complain text := modify fun s => { s with complaints := s.complaints ++ text }
  compile options code :=
    return (Scriptlet.compile options (.instant options.limits.timeoutMs) code, .zero)

end Scriptlet.Console
