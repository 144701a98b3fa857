import Scriptlet.Check
import Scriptlet.Piece
import Scriptlet.Run.Exec
import Scriptlet.Tree.Nodes
import Scriptlet.Tree.OfTokens
import Scriptlet.Tree.Outline

/-!
# Reports

A program goes through four phases, in order. The first phase with an error is the last one that runs,
and those after it are reported as skipped; warnings stop nothing. `compile` runs the phases and says
what came of each; `analyzeTokens` and `analyzeTree` run the first one or two alone.
-/

namespace Scriptlet

structure CompileOptions where
  limits : Limits := {}
  includeMetrics : Bool := true
deriving DecidableEq, Repr

inductive PhaseStatus where
  | ok
  | error
  | timeout
  | skipped
deriving DecidableEq, Repr

namespace PhaseStatus

def name : PhaseStatus → String
  | ok => "ok"
  | error => "error"
  | timeout => "timeout"
  | skipped => "skipped"

def ofDiagnostics (ds : List Diagnostic) : PhaseStatus :=
  if Diagnostic.anyError ds then error else ok

def ofRun : Run.Status → PhaseStatus
  | .ok => ok
  | .timeout => timeout
  | .error => error

end PhaseStatus

structure LexicalReport where
  status : PhaseStatus
  tokens : List Token
  diagnostics : List Diagnostic

def LexicalReport.of (t : Tokens) : LexicalReport :=
  ⟨.ofDiagnostics t.diagnostics, t.tokens, t.diagnostics⟩

structure TreeReport where
  status : PhaseStatus
  outline : Option Json
  diagnostics : List Diagnostic

namespace TreeReport

def of (p : Program) (ds : List Diagnostic) : TreeReport :=
  ⟨.ofDiagnostics ds, some p.outline, ds⟩

def skipped : TreeReport := ⟨.skipped, none, []⟩

end TreeReport

structure CheckReport where
  status : PhaseStatus
  symbols : Option (List Symbol)
  diagnostics : List Diagnostic

namespace CheckReport

def of (r : CheckResult) : CheckReport :=
  ⟨.ofDiagnostics r.diagnostics, some r.symbols, r.diagnostics⟩

def skipped : CheckReport := ⟨.skipped, none, []⟩

end CheckReport

structure RunReport where
  status : PhaseStatus
  /-- what was printed, if the program ran -/
  output : Option String
  diagnostics : List Diagnostic

namespace RunReport

def of (o : Run.Outcome) : RunReport :=
  ⟨.ofRun o.status, some o.output, o.diagnostics⟩

def skipped : RunReport := ⟨.skipped, none, []⟩

end RunReport

structure Phases where
  lexical : LexicalReport
  tree : TreeReport := .skipped
  check : CheckReport := .skipped
  run : RunReport := .skipped

namespace Phases

def allOk (p : Phases) : Bool :=
  [p.lexical.status, p.tree.status, p.check.status, p.run.status].all (· = .ok)

def diagnostics (p : Phases) : List Diagnostic :=
  p.lexical.diagnostics ++ p.tree.diagnostics ++ p.check.diagnostics ++ p.run.diagnostics

end Phases

structure Metrics where
  /-- the phases that ran, whose times can be told -/
  timed : List Phase
  tokenCount : Nat
  nodeCount : Option Nat := none
  stepCount : Option Nat := none
  linesOfCode : Nat
deriving DecidableEq, Repr

structure Report where
  success : Bool
  phases : Phases
  metrics : Option Metrics

namespace Report

/-- The report on phases that have been run or skipped. -/
def of (options : CompileOptions) (phases : Phases) (metrics : Metrics) : Report :=
  ⟨phases.allOk, phases, if options.includeMetrics then some metrics else none⟩

def output (r : Report) : Option String :=
  r.phases.run.output

end Report

/-- The number of lines of a text. The last one need not be closed. -/
def linesOfCode (source : String) : Nat :=
  source.toList.count '\n' + 1

/-- Runs the phases over a program text. -/
def compile (options : CompileOptions) (clock : Clock) (source : String) : Report :=
  let lexed := Tokens.ofText source
  let phases : Phases := { lexical := .of lexed }
  let metrics : Metrics :=
    { timed := [.lexical], tokenCount := lexed.tokens.length, linesOfCode := linesOfCode source }
  if Diagnostic.anyError lexed.diagnostics then .of options phases metrics
  else
    let read := Program.ofTokens lexed.tokens
    let phases := { phases with tree := .of read.program read.diagnostics }
    let metrics := { metrics with
      timed := [.lexical, .syntactic], nodeCount := some read.program.count }
    if Diagnostic.anyError read.diagnostics then .of options phases metrics
    else
      let checked := read.program.check
      let phases := { phases with check := .of checked }
      let metrics := { metrics with timed := [.lexical, .syntactic, .semantic] }
      if Diagnostic.anyError checked.diagnostics then .of options phases metrics
      else
        let outcome := read.program.execute ⟨options.limits, clock⟩
        let phases := { phases with run := .of outcome }
        let metrics := { metrics with
          timed := [.lexical, .syntactic, .semantic, .execution], stepCount := some outcome.steps }
        .of options phases metrics

def analyzeTokens (source : String) : LexicalReport :=
  .of (Tokens.ofText source)

/-- The tree of a text. It is read even if there is something wrong with the tokens; the diagnostics
are those of both phases. -/
def analyzeTree (source : String) : TreeReport :=
  let lexed := Tokens.ofText source
  let read := Program.ofTokens lexed.tokens
  .of read.program (lexed.diagnostics ++ read.diagnostics)

end Scriptlet
