import Scriptlet.Run.Exec

/-!
# What holds of every run

A property of computations that is closed under the steps of which runs are made (`RunClosed`) holds of
expressions (`eval_closed`), of statements (`exec_closed`) and of calls (`invoke_closed`), whatever the program
is and however the run ends.
-/

namespace Scriptlet.Run

/-- A property of computations that is closed under the steps of which runs under the bounds `b` are made. What is
declared is not declared at the top level, and the parameters of a call come from its arguments. -/
structure RunClosed (b : Bounds) (P : ∀ α : Type, Run α → Prop) : Prop where
  pure {α : Type} (a : α) : P α (pure a)
  bind {α β : Type} {p : Run α} {f : α → Run β} (hp : P α p) (hf : ∀ a, P β (f a)) : P β (p >>= f)
  throw {α : Type} (failure : Failure) : P α (throw failure)
  tick (span : Span) : P Unit (tick b span)
  load (name : Ident) : P Value (load name)
  store (name : Ident) (value : Value) : P Value (store name value)
  declare {α : Type} {p q : Run α} (name : Ident) (declared : Option Ty) (value : Value) (hp : P α p)
    (hq : P α q) : P α (do if (← get).atTopLevel then p else declare name declared value; q)
  printLine (line : String) (span : Span) : P Unit (printLine line span)
  steps {α : Type} {f : Nat → Run α} (hf : ∀ n, P α (f n)) : P α (do f (← get).steps)
  inBlock {α : Type} {p : Run α} (hp : P α p) : P α (inBlock p)
  inCall {α : Type} {p : Run α} {params : List Param} {values : List (Value × Span)} {vars : Vars}
    (hparams : bindParams params values .empty = .ok vars) (hp : P α p) : P α (inCall vars p)

namespace RunClosed

variable {b : Bounds} {P : ∀ α : Type, Run α → Prop} (hP : RunClosed b P) {α : Type}

include hP

theorem fail (fault : Fault) (span : Span) : P α (fail fault span) := hP.throw _

theorem lift (span : Span) (x : Except Fault α) : P α (lift span x) := by
  cases x with
  | ok a => exact hP.pure a
  | error fault => exact hP.throw _

theorem truth (span : Span) (value : Value) : P Bool (truth span value) := by
  cases value with
  | bool holds => exact hP.pure holds
  | _ => exact hP.fail _ span

theorem iterate {span : Span} {cond : Run Bool} {body : Run Signal} (hcond : P Bool cond)
    (hbody : P Signal body) (rounds : Nat) : P Signal (iterate b span cond body rounds) := by
  induction rounds with
  | zero => exact hP.bind (hP.tick span) fun _ => hP.pure _
  | succ rounds ih =>
    refine hP.bind (hP.tick span) fun _ => hP.bind hcond fun again => ?_
    cases again with
    | false => exact hP.pure _
    | true =>
      refine hP.bind hbody fun signal => ?_
      cases signal with
      | normal | continued => exact ih
      | broke | returned => exact hP.pure _

theorem asBranch (stmt : Stmt) {body : Run Signal} (hbody : P Signal body) :
    P Signal (asBranch b stmt body) := by
  unfold Run.asBranch
  split
  · exact hbody
  · exact hP.inBlock (hP.bind (hP.tick _) fun _ => hbody)

end RunClosed

/-! ### Runs -/

variable {b : Bounds} {P : ∀ α : Type, Run α → Prop} {call : Caller}

mutual

theorem eval_closed (hP : RunClosed b P) (hcall : ∀ f args span, P Value (call f args span)) :
    ∀ e : Expr, P Value (eval b call e)
  | .literal _ _ => hP.pure _
  | .ident name => hP.load name
  | .assign target value _ => hP.bind (eval_closed hP hcall value) fun _ => hP.store target _
  | .binary op lhs rhs span => by
    have hlhs := eval_closed hP hcall lhs
    have hrhs := eval_closed hP hcall rhs
    unfold eval
    split
    · refine hP.bind hlhs fun _ => hP.bind (hP.truth _ _) fun left => ?_
      split
      · exact hP.pure _
      · exact hP.bind hrhs fun _ => hP.bind (hP.truth _ _) fun _ => hP.pure _
    · exact hP.bind hlhs fun _ => hP.bind hrhs fun _ => hP.lift _ _
  | .unary op operand span => hP.bind (eval_closed hP hcall operand) fun _ => hP.lift _ _
  | .call callee args span => by
    unfold eval
    refine hP.bind (hP.tick span) fun _ => hP.bind (eval_closed hP hcall callee) fun value => ?_
    split
    · refine hP.bind (evalArgs_closed hP hcall args) fun values => ?_
      split
      · exact hcall _ _ _
      · exact hP.fail _ _
    · exact hP.fail _ _

theorem evalArgs_closed (hP : RunClosed b P) (hcall : ∀ f args span, P Value (call f args span)) :
    ∀ es : List Expr, P (List (Value × Span)) (evalArgs b call es)
  | [] => hP.pure _
  | e :: es =>
    hP.bind (eval_closed hP hcall e) fun _ => hP.bind (evalArgs_closed hP hcall es) fun _ => hP.pure _

end

theorem evalOption_closed (hP : RunClosed b P) (hcall : ∀ f args span, P Value (call f args span)) :
    ∀ e : Option Expr, P Value (evalOption b call e)
  | none => hP.pure _
  | some e => eval_closed hP hcall e

theorem evalCondition_closed (hP : RunClosed b P) (hcall : ∀ f args span, P Value (call f args span))
    (cond : Expr) : P Bool (evalCondition b call cond) :=
  hP.bind (eval_closed hP hcall cond) fun _ => hP.truth _ _

/-- A function is declared where it stands, but for those of the top level. -/
theorem exec_function (path : TreePath) (name : Ident) (params : List Param) (body : List Stmt)
    (braces span : Span) :
    exec b call path (.function name params body braces span) = do
      if (← get).atTopLevel then return .normal
      else
        declare name none (.function ⟨⟨name, params, body⟩, path⟩)
        return .normal := by
  funext s
  unfold exec
  show (if (!s.atTopLevel) = true then _ else _ : Run Signal) s = (if s.atTopLevel = true then _ else _ : Run Signal) s
  cases s.atTopLevel <;> rfl

mutual

theorem exec_closed (hP : RunClosed b P) (hcall : ∀ f args span, P Value (call f args span)) :
    ∀ (path : TreePath) (stmt : Stmt), P Signal (exec b call path stmt)
  | _, .varDecl name type init _ => by
    unfold exec
    refine hP.bind (evalOption_closed hP hcall init) fun value => hP.declare name _ value ?_ (hP.pure _)
    exact hP.bind (hP.store name value) fun _ => hP.pure _
  | _, .expr e _ => hP.bind (eval_closed hP hcall e) fun _ => hP.pure _
  | _, .print e _ => hP.bind (eval_closed hP hcall e) fun _ => hP.bind (hP.printLine _ _) fun _ => hP.pure _
  | _, .block body _ => hP.inBlock (execAll_closed hP hcall _ body)
  | _, .branch cond thenStmt elseStmt _ => by
    unfold exec
    refine hP.bind (evalCondition_closed hP hcall cond) fun holds => ?_
    split
    · exact hP.asBranch _ (exec_closed hP hcall _ thenStmt)
    · cases elseStmt with
      | none => exact hP.pure _
      | some elseStmt => exact hP.asBranch _ (exec_closed hP hcall _ elseStmt)
  | _, .loop cond body span => by
    unfold exec
    exact hP.steps fun _ => hP.iterate (evalCondition_closed hP hcall cond)
      (hP.asBranch _ (exec_closed hP hcall _ body)) _
  | _, .function name params body _ _ => by
    rw [exec_function]
    exact hP.declare name none _ (hP.pure _) (hP.pure _)
  | _, .returnWith value _ => hP.bind (evalOption_closed hP hcall value) fun _ => hP.pure _
  | _, .breakLoop _ | _, .continueLoop _ => hP.pure _

theorem execAll_closed (hP : RunClosed b P) (hcall : ∀ f args span, P Value (call f args span)) :
    ∀ (path : TreePath) (stmts : List Stmt), P Signal (execAll b call path stmts)
  | _, [] => hP.pure _
  | path, stmt :: stmts => by
    unfold execAll
    refine hP.bind (hP.tick stmt.span) fun _ => hP.bind (exec_closed hP hcall path stmt) fun signal => ?_
    cases signal with
    | normal => exact execAll_closed hP hcall path.next stmts
    | broke | continued | returned => exact hP.pure _

end

/-- Calls have the property, since the bodies of functions do. -/
theorem invoke_closed (hP : RunClosed b P) (depth : Nat) : ∀ f args span, P Value (invoke b depth f args span) := by
  induction depth with
  | zero => exact fun _ _ _ => hP.fail _ _
  | succ depth ih =>
    intro f args span
    unfold invoke
    split
    · exact hP.throw _
    · next vars hparams => exact hP.bind (hP.inCall hparams (execAll_closed hP ih _ f.body)) fun _ => hP.pure _

end Scriptlet.Run
