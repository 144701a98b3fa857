import Scriptlet.Console

/-!
# The command for real

Files, streams and clock for the console command, and its entry.
-/

namespace Scriptlet.Console

def faultOf : IO.Error → IoFault
  | .noFileOrDirectory .. => .notFound
  | .alreadyExists .. => .alreadyExists
  | .inappropriateType _ code _ => if code = 21 then .isADirectory else .notADirectory
  | .invalidArgument _ 36 _ => .nameTooLong
  | .permissionDenied .. => .other "Permission denied (os error 13)"
  | e => .other (toString e)

def attempt {α : Type} (act : IO α) : IO (Except IoFault α) := do
  try return .ok (← act)
  catch e => return .error (faultOf e)

def timed {α : Type} (value : Unit → α) : IO (α × Float) := do
  let start ← IO.monoNanosNow
  let a ← IO.lazyPure value
  return (a, ((← IO.monoNanosNow) - start).toFloat / 1000000.0)

/-- Compiles with a clock that runs out after `steps` steps, and again with twice as many while the
steps run out before the time does. -/
def compileUntil (options : CompileOptions) (source : String) (deadline : Nat) :
    Nat → Nat → IO Report
  | 0, steps => IO.lazyPure fun _ => compile options (.after steps) source
  | rounds + 1, steps => do
    let report ← IO.lazyPure fun _ => compile options (.after steps) source
    if report.phases.run.status = .timeout ∧ steps ≤ options.limits.stepBudget ∧
        (← IO.monoMsNow) < deadline then
      compileUntil options source deadline rounds (2 * steps)
    else return report

/-- Compiles against the real clock. The phases before the run are timed on their own. -/
def compileTimed (options : CompileOptions) (source : String) : IO (Report × Timing) := do
  let (lexed, lexical) ← timed fun _ => Tokens.ofText source
  let (read, syntactic) ← timed fun _ => Program.ofTokens lexed.tokens
  let (_, semantic) ← timed fun _ => read.program.check
  let start ← IO.monoNanosNow
  let deadline := (← IO.monoMsNow) + options.limits.timeoutMs
  let firstTry := if options.limits.timeoutMs = 0 then 0 else 4096
  let report ← compileUntil options source deadline 64 firstTry
  let total := ((← IO.monoNanosNow) - start).toFloat / 1000000.0
  let before := lexical + syntactic + semantic
  let execution := if total < before then 0.0 else total - before
  let phase : Phase → Float
    | .lexical => lexical
    | .syntactic => syntactic
    | .semantic => semantic
    | .execution => execution
  return (report, ⟨phase, total⟩)

def realWorld : World IO where
  readFile path := attempt (IO.FS.readBinFile path)
  readInput := do attempt (← IO.getStdin).readBinToEnd
  makeDirs path := attempt (IO.FS.createDirAll path)
  writeFile path d := attempt (IO.FS.writeBinFile path d.toBytes)
  print d := do (← IO.getStdout).write d.toBytes
  complain text := do (← IO.getStderr).putStr text
  compile := compileTimed

end Scriptlet.Console

def main (args : List String) : IO UInt32 :=
  return (← Scriptlet.Console.run Scriptlet.Console.realWorld args).toUInt32
