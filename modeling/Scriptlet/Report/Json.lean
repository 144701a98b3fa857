import Scriptlet.Report

/-!
# Reports as JSON

How reports are written. The order of the fields is fixed, and a field without value is left out. Of a
span only its start is given. How long the phases took is not part of a report, so `Timing` comes from
outside.
-/

namespace Scriptlet

def Token.json (t : Token) : Json :=
  .obj [("kind", .str t.kind.name), ("lexeme", .str t.lexeme), ("line", .nat t.span.start.line.toNat),
    ("column", .nat t.span.start.column.toNat), ("offset", .nat t.span.start.offset)]

def Diagnostic.json (d : Diagnostic) : Json :=
  .obj [("phase", .str d.phase.name), ("severity", .str d.severity.name),
    ("code", .str d.code.text), ("message", .str d.message), ("line", .nat d.span.start.line.toNat),
    ("column", .nat d.span.start.column.toNat), ("offset", .nat d.span.start.offset)]

def SymbolKind.json : SymbolKind → Json
  | var => .obj [("kind", .str "variable")]
  | param => .obj [("kind", .str "parameter")]
  | function params =>
    .obj [("kind", .str "function"), ("params", Json.list (fun t => .str t.reportName) params)]

def Symbol.json (s : Symbol) : Json :=
  .obj [("name", .str s.name), ("symbol", s.kind.json), ("type", .str s.type.reportName),
    ("depth", .nat s.depth), ("line", .nat s.declaredAt.start.line.toNat),
    ("column", .nat s.declaredAt.start.column.toNat)]

structure Timing where
  phase : Phase → Float
  total : Float

def Timing.zero : Timing := ⟨fun _ => 0.0, 0.0⟩

def LexicalReport.fields (r : LexicalReport) : List (String × Json) :=
  [("status", .str r.status.name), ("tokens", Json.list Token.json r.tokens),
    ("diagnostics", Json.list Diagnostic.json r.diagnostics)]

/-- A report on the tokens alone, which also gives their number. -/
def LexicalReport.jsonWithCount (r : LexicalReport) : Json :=
  .obj (r.fields ++ [("count", .nat r.tokens.length)])

def TreeReport.json (r : TreeReport) : Json :=
  .obj ([("status", .str r.status.name)] ++ Json.field? "ast_summary" id r.outline ++
    [("diagnostics", Json.list Diagnostic.json r.diagnostics)])

def CheckReport.json (r : CheckReport) : Json :=
  .obj ([("status", .str r.status.name)] ++ Json.field? "symbols" (Json.list Symbol.json) r.symbols ++
    [("diagnostics", Json.list Diagnostic.json r.diagnostics)])

def RunReport.json (r : RunReport) : Json :=
  .obj ([("status", .str r.status.name)] ++ Json.field? "output" .str r.output ++
    [("diagnostics", Json.list Diagnostic.json r.diagnostics)])

def Phases.json (p : Phases) : Json :=
  .obj [("lexical", .obj p.lexical.fields), ("syntax", p.tree.json), ("semantic", p.check.json),
    ("execution", p.run.json)]

def Metrics.json (t : Timing) (m : Metrics) : Json :=
  .obj ([("elapsed_ms",
      .obj (m.timed.map (fun p => (p.name, .float (t.phase p))) ++ [("total", .float t.total)])),
    ("token_count", .nat m.tokenCount)] ++
    Json.field? "node_count" .nat m.nodeCount ++ Json.field? "step_count" .nat m.stepCount ++
    [("lines_of_code", .nat m.linesOfCode)])

def Report.json (t : Timing) (r : Report) : Json :=
  .obj ([("success", .bool r.success), ("phases", r.phases.json)] ++
    Json.field? "metrics" (Metrics.json t) r.metrics)

def Report.text (t : Timing) (r : Report) : String :=
  (r.json t).pretty

end Scriptlet
