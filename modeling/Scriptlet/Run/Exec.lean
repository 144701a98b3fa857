import Scriptlet.Run.State

/-!
# Running programs

Expressions and statements are run by recursion on the tree. Calls do not recurse: what a call does is
a parameter, and `invoke` ties the knot by recursion on the number of calls that may still nest. A loop
goes round at most once for each step that is left.
-/

namespace Scriptlet.Run

inductive Signal where
  | normal
  | returned (value : Value)
  | broke
  | continued

/-- What a call does: a function, its arguments with their spans, and the span of the call. -/
abbrev Caller := Func → List (Value × Span) → Span → Run Value

def truth (span : Span) : Value → Run Bool
  | .bool b => return b
  | other => fail (.conditionNotBool other.type) span

mutual

def eval (b : Bounds) (call : Caller) : Expr → Run Value
  | .literal value _ => return .ofLiteral value
  | .ident name => load name
  | .assign target value _ => do
    store target (← eval b call value)
  | .binary op lhs rhs span =>
    match OpForm.of op with
    | .logical decisive => do
      let left ← truth lhs.span (← eval b call lhs)
      if left = decisive then return .bool left
      else return .bool (← truth rhs.span (← eval b call rhs))
    | .strict strict => do
      let left ← eval b call lhs
      let right ← eval b call rhs
      lift span (applyStrict b.limits.maxValueBytes op strict left right)
  | .unary op operand span => do
    lift span (applyUnary op (← eval b call operand))
  | .call callee args span => do
    tick b span
    match ← eval b call callee with
    | .function f =>
      let values ← evalArgs b call args
      if values.length = f.params.length then call f values span
      else fail (.arity f.name.name f.params.length values.length) span
    | other => fail (.notCallable other.type) callee.span

/-- The values of arguments, from left to right, with their spans. -/
def evalArgs (b : Bounds) (call : Caller) : List Expr → Run (List (Value × Span))
  | [] => return []
  | arg :: args => do
    let value ← eval b call arg
    return (value, arg.span) :: (← evalArgs b call args)

end

def evalOption (b : Bounds) (call : Caller) : Option Expr → Run Value
  | none => return .nil
  | some e => eval b call e

def evalCondition (b : Bounds) (call : Caller) (cond : Expr) : Run Bool := do
  truth cond.span (← eval b call cond)

/-- Goes round a loop. The last argument is at least the number of steps left, and going round takes
one, so when it is 0 the step is refused. -/
def iterate (b : Bounds) (span : Span) (cond : Run Bool) (body : Run Signal) : Nat → Run Signal
  | 0 => do
    tick b span
    return .normal
  | rounds + 1 => do
    tick b span
    if ← cond then
      match ← body with
      | .broke => return .normal
      | .returned value => return .returned value
      | .normal | .continued => iterate b span cond body rounds
    else
      return .normal

/-- Runs the branch `stmt`, whose effect is `body`. A block is its own scope; any other statement gets
one, and counts as a step. -/
def asBranch (b : Bounds) (stmt : Stmt) (body : Run Signal) : Run Signal :=
  match stmt with
  | .block .. => body
  | _ => inBlock do
    tick b stmt.span
    body

mutual

def exec (b : Bounds) (call : Caller) : TreePath → Stmt → Run Signal
  | _, .varDecl name type init _ => do
    let value ← evalOption b call init
    if (← get).atTopLevel then
      let _ ← store name value
    else
      declare name (type.map Ty.ofTypeName) value
    return .normal
  | _, .expr e _ => do
    let _ ← eval b call e
    return .normal
  | _, .print e span => do
    printLine (← eval b call e).text span
    return .normal
  | path, .block body _ => inBlock (execAll b call path.inside body)
  | path, .branch cond thenStmt elseStmt _ => do
    if ← evalCondition b call cond then
      asBranch b thenStmt (exec b call path.inside thenStmt)
    else
      match elseStmt with
      | none => return .normal
      | some elseStmt => asBranch b elseStmt (exec b call path.inside.next elseStmt)
  | path, .loop cond body span => do
    let left := b.limits.stepBudget - (← get).steps
    iterate b span (evalCondition b call cond) (asBranch b body (exec b call path.inside body)) left
  | path, .function name params body _ _ => do
    -- at the top level it has been bound before the run
    if !(← get).atTopLevel then
      declare name none (.function ⟨⟨name, params, body⟩, path⟩)
    return .normal
  | _, .returnWith value _ => return .returned (← evalOption b call value)
  | _, .breakLoop _ => return .broke
  | _, .continueLoop _ => return .continued

/-- Runs statements in order, the first at a path, each of which counts as a step, until one does not end
normally. -/
def execAll (b : Bounds) (call : Caller) : TreePath → List Stmt → Run Signal
  | _, [] => return .normal
  | path, stmt :: stmts => do
    tick b stmt.span
    match ← exec b call path stmt with
    | .normal => execAll b call path.next stmts
    | signal => return signal

end

def bindParams : List Param → List (Value × Span) → Vars → Except Failure Vars
  | param :: params, (value, span) :: args, vars =>
    let declared := param.type.map Ty.ofTypeName
    match coerce declared param.name.name value with
    | .ok value =>
      bindParams params args (vars.insert param.name.name ⟨value, declared, param.name.span⟩)
    | .error fault => .error ⟨fault, span⟩
  | _, _, vars => .ok vars

def Signal.result : Signal → Value
  | returned value => value
  | _ => .nil

def invoke (b : Bounds) : Nat → Caller
  | 0, _, _, span => fail (.stackOverflow b.limits.maxCallDepth) span
  | depth + 1, f, args, _ => do
    match bindParams f.params args .empty with
    | .error failure => throw failure
    | .ok params => return (← inCall params (execAll b (invoke b depth) f.path.inside f.body)).result

/-- The variables of the top level before the run: the functions, and the variables with nil. -/
def hoist : TreePath → List Stmt → Vars → Vars
  | _, [], vars => vars
  | path, item :: items, vars =>
    let vars := match item with
      | .function name params body _ _ =>
        vars.insert name.name ⟨.function ⟨⟨name, params, body⟩, path⟩, none, name.span⟩
      | .varDecl name type _ _ => vars.insert name.name ⟨.nil, type.map Ty.ofTypeName, name.span⟩
      | _ => vars
    hoist path.next items vars

def initial (b : Bounds) (items : List Stmt) : State :=
  { sink := ⟨b.limits.maxOutputBytes, ""⟩, globals := { base := hoist .first items .empty } }

inductive Status where
  | ok
  | timeout
  | error
deriving DecidableEq, Repr

def Status.name : Status → String
  | ok => "ok"
  | timeout => "timeout"
  | error => "error"

/-- What came of a run. The output is what was printed before it ended, however it ended. -/
structure Outcome where
  status : Status
  output : String
  diagnostics : List Diagnostic
  steps : Nat
deriving DecidableEq, Repr

def Failure.status (f : Failure) : Status :=
  if f.fault.isTimeout then .timeout else .error

end Run

open Run

def Program.execute (b : Bounds) (p : Program) : Outcome :=
  match execAll b (invoke b b.limits.maxCallDepth) .first p.items (initial b p.items) with
  | .ok _ s => ⟨.ok, s.sink.text, [], s.steps⟩
  | .error failure s => ⟨failure.status, s.sink.text, [failure.diagnostic], s.steps⟩

end Scriptlet
