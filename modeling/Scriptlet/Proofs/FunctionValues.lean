import Scriptlet.Proofs.Bindings
import Scriptlet.Proofs.OperatorTypes
import Scriptlet.Proofs.RunSteps

/-!
# The functions that a run meets

A program computes with the functions that it declares and makes no others: if all functions that a
statement can declare are among `Q`, and the values of all variables are, then they still are when it
has been run (`exec_among`), calls included (`invoke_among`).
-/

namespace Scriptlet

mutual

/-- The functions that a statement declares, in itself or in its parts. -/
def Stmt.functions : Stmt → List FuncDecl
  | .block body _ => Stmt.functionsAll body
  | .branch _ thenStmt none _ => thenStmt.functions
  | .branch _ thenStmt (some elseStmt) _ => thenStmt.functions ++ elseStmt.functions
  | .loop _ body _ => body.functions
  | .function name params body _ _ => [⟨name, params, body⟩]
  | _ => []

def Stmt.functionsAll : List Stmt → List FuncDecl
  | [] => []
  | stmt :: stmts => stmt.functions ++ Stmt.functionsAll stmts

end

/-- If the value is a function, it is one of `Q`. -/
def Value.Among (Q : FuncDecl → Prop) (v : Value) : Prop :=
  ∀ f, v = .function f → Q f.toFuncDecl

namespace Run

variable {Q : FuncDecl → Prop}

/-! ### Operators -/

theorem among_of_type {v : Value} (h : v.type ≠ .function) : v.Among Q := by
  rintro f rfl
  exact absurd rfl h

theorem ofLiteral_among (value : Literal) : (Value.ofLiteral value).Among Q :=
  among_of_type (by cases value <;> nofun)

theorem applyStrict_among {maxBytes : Nat} {op : BinaryOp} {strict : StrictOp} {lhs rhs v : Value}
    (h : applyStrict maxBytes op strict lhs rhs = .ok v) : v.Among Q := by
  have htype := (applyStrict_yields maxBytes op strict lhs rhs).eq_some h
  exact among_of_type fun hf => strict.type?_ne_function _ _ (hf ▸ htype)

theorem applyUnary_among {op : UnaryOp} {value v : Value} (h : applyUnary op value = .ok v) :
    v.Among Q := by
  have htype := (applyUnary_yields op value).eq_some h
  exact among_of_type fun hf => unaryType?_ne_function op _ (hf ▸ htype)

theorem coerce_among {declared : Option Ty} {name : String} {value v : Value} (hv : value.Among Q)
    (h : coerce declared name value = .ok v) : v.Among Q := by
  unfold coerce at h
  split at h
  · cases h; exact hv
  · cases h; nofun
  · cases h; nofun
  · split at h <;> cases h
    exact hv

theorem bindParams_among {params : List Param} {args : List (Value × Span)} {vars vars' : Vars}
    (hargs : ∀ arg ∈ args, arg.1.Among Q) (hvars : VarsAll (·.value.Among Q) vars)
    (h : bindParams params args vars = .ok vars') : VarsAll (·.value.Among Q) vars' := by
  induction params, args, vars using bindParams.induct with
  | case1 param params value span args vars declared fitted hcoerce ih =>
    rw [bindParams] at h
    simp only [declared] at hcoerce
    rw [hcoerce] at h
    obtain ⟨hvalue, hargs⟩ := List.forall_mem_cons.1 hargs
    exact ih hargs (hvars.insert (coerce_among hvalue hcoerce)) h
  | case2 param params value span args vars declared fault hcoerce =>
    rw [bindParams] at h
    simp only [declared] at hcoerce
    rw [hcoerce] at h
    cases h
  | case3 params args vars hnot =>
    rw [bindParams] at h
    · cases h; exact hvars
    · exact hnot

theorem hoist_among {path : TreePath} {items : List Stmt} {vars : Vars}
    (h : ∀ f ∈ Stmt.functionsAll items, Q f) (hvars : VarsAll (·.value.Among Q) vars) :
    VarsAll (·.value.Among Q) (hoist path items vars) := by
  induction items generalizing path vars with
  | nil => exact hvars
  | cons item items ih =>
    obtain ⟨hitem, hitems⟩ := List.forall_mem_append.1 h
    refine ih hitems ?_
    cases item with
    | function name params body braces span =>
      refine hvars.insert ?_
      rintro f ⟨⟩
      exact hitem _ List.mem_cons_self
    | varDecl => exact hvars.insert nofun
    | _ => exact hvars

/-! ### Runs -/

/-- A computation that keeps the values of all variables among `Q`, and whose result satisfies `P`. -/
def KeepsAmong {α : Type} (Q : FuncDecl → Prop) (P : α → Prop) (p : Run α) : Prop :=
  Preserves (State.All (·.value.Among Q)) (fun _ => True) P p

namespace KeepsAmong

variable {α β : Type} {p : Run α} {f : α → Run β} {P : α → Prop} {P' : β → Prop}

theorem pure {a : α} (h : P a) : KeepsAmong Q P (pure a : Run α) := Preserves.pure h

theorem get : KeepsAmong Q (fun _ => True) (get : Run State) := Preserves.get

theorem bind (hp : KeepsAmong Q P p) (hf : ∀ a, P a → KeepsAmong Q P' (f a)) :
    KeepsAmong Q P' (p >>= f) := Preserves.bind hp hf

theorem fail (fault : Fault) (span : Span) : KeepsAmong Q P (fail fault span : Run α) :=
  fun _ _ => trivial

theorem lift (span : Span) {x : Except Fault α} (h : ∀ a, x = .ok a → P a) :
    KeepsAmong Q P (lift span x) := by
  intro s hs
  rw [ends_lift]
  cases x with
  | error fault => trivial
  | ok a => exact ⟨h a rfl, hs⟩

theorem tick (b : Bounds) (span : Span) : KeepsAmong Q (fun _ => True) (tick b span) := fun s hs =>
  (tick_ends b span s).mono (fun _ _ h => ⟨trivial, h ▸ ⟨hs.globals, hs.calls⟩⟩) fun _ _ _ => trivial

theorem load (name : Ident) : KeepsAmong Q (Value.Among Q) (load name) := by
  intro s hs
  rw [ends_load]
  cases h : s.binding? name.name with
  | none => trivial
  | some b => exact ⟨hs.binding h, hs⟩

theorem store (name : Ident) {value : Value} (hvalue : value.Among Q) :
    KeepsAmong Q (Value.Among Q) (store name value) := by
  intro s hs
  rw [ends_store]
  cases s.binding? name.name with
  | none => trivial
  | some b =>
    dsimp only
    cases h : coerce b.declared name.name value with
    | error fault => trivial
    | ok fitted => exact ⟨coerce_among hvalue h, hs.replace (coerce_among hvalue h)⟩

theorem declare (name : Ident) (declared : Option Ty) {value : Value} (hvalue : value.Among Q) :
    KeepsAmong Q (fun _ => True) (declare name declared value) := by
  intro s hs
  rw [ends_declare]
  cases h : coerce declared name.name value with
  | error fault => trivial
  | ok fitted => exact ⟨trivial, hs.mapFrame fun _ hf => hf.declare (coerce_among hvalue h)⟩

theorem printLine (line : String) (span : Span) :
    KeepsAmong Q (fun _ => True) (printLine line span) := by
  intro s hs
  rw [ends_printLine]
  cases s.sink.writeLine line with
  | error fault => trivial
  | ok sink => exact ⟨trivial, hs.globals, hs.calls⟩

theorem inBlock (h : KeepsAmong Q P p) : KeepsAmong Q P (inBlock p) := by
  intro s hs
  rw [Run.inBlock, ends_between]
  exact (h _ (hs.mapFrame fun _ => .pushBlock)).mono_ok
    fun _ _ h => ⟨h.1, h.2.mapFrame fun _ => .popBlock⟩

theorem inCall {params : Vars} (hparams : VarsAll (·.value.Among Q) params) (h : KeepsAmong Q P p) :
    KeepsAmong Q P (inCall params p) := by
  intro s hs
  rw [Run.inCall, ends_between]
  exact (h _ (hs.enter hparams)).mono_ok fun _ _ h => ⟨h.1, h.2.leave⟩

end KeepsAmong

/-- The value that a statement returns is among `Q`. -/
def Signal.Among (Q : FuncDecl → Prop) (signal : Signal) : Prop :=
  ∀ v, signal = .returned v → v.Among Q

/-- A call of a function among `Q` with arguments among `Q` stays among `Q`. -/
def Caller.Among (Q : FuncDecl → Prop) (call : Caller) : Prop :=
  ∀ f args span, Q f.toFuncDecl → (∀ arg ∈ args, arg.1.Among Q) →
    KeepsAmong Q (Value.Among Q) (call f args span)

section

variable {b : Bounds} {call : Caller}

theorem truth_among (span : Span) (value : Value) :
    KeepsAmong Q (fun _ => True) (truth span value) := by
  cases value with
  | bool holds => exact .pure trivial
  | _ => exact .fail _ _

mutual

theorem eval_among (hcall : call.Among Q) : ∀ e : Expr,
    KeepsAmong Q (Value.Among Q) (eval b call e)
  | .literal value _ => .pure (ofLiteral_among value)
  | .ident name => .load name
  | .assign target value _ => .bind (eval_among hcall value) fun _ => .store target
  | .binary op lhs rhs span => by
    unfold eval
    split
    · refine .bind (eval_among hcall lhs) fun left _ => .bind (truth_among _ _) fun left _ => ?_
      split
      · exact .pure nofun
      · exact .bind (eval_among hcall rhs) fun _ _ => .bind (truth_among _ _) fun _ _ => .pure nofun
    · exact .bind (eval_among hcall lhs) fun _ _ => .bind (eval_among hcall rhs) fun _ _ =>
        .lift span fun _ => applyStrict_among
  | .unary _ operand span =>
    .bind (eval_among hcall operand) fun _ _ => .lift span fun _ => applyUnary_among
  | .call callee args span => by
    unfold eval
    refine .bind (.tick b span) fun _ _ => .bind (eval_among hcall callee) fun value hvalue => ?_
    split
    · next f =>
      refine .bind (evalArgs_among hcall args) fun values hvalues => ?_
      split
      · exact hcall f values span (hvalue f rfl) hvalues
      · exact .fail _ _
    · exact .fail _ _

theorem evalArgs_among (hcall : call.Among Q) : ∀ es : List Expr,
    KeepsAmong Q (fun args => ∀ arg ∈ args, arg.1.Among Q) (evalArgs b call es)
  | [] => .pure nofun
  | e :: es => .bind (eval_among hcall e) fun _ hvalue => .bind (evalArgs_among hcall es)
      fun _ hvalues => .pure (List.forall_mem_cons.2 ⟨hvalue, hvalues⟩)

end

theorem evalOption_among (hcall : call.Among Q) : ∀ e : Option Expr,
    KeepsAmong Q (Value.Among Q) (evalOption b call e)
  | none => .pure nofun
  | some e => eval_among hcall e

theorem evalCondition_among (hcall : call.Among Q) (cond : Expr) :
    KeepsAmong Q (fun _ => True) (evalCondition b call cond) :=
  .bind (eval_among hcall cond) fun _ _ => truth_among _ _

theorem asBranch_among {stmt : Stmt} {body : Run Signal} (h : KeepsAmong Q (Signal.Among Q) body) :
    KeepsAmong Q (Signal.Among Q) (asBranch b stmt body) := by
  unfold asBranch
  split
  · exact h
  · exact .inBlock (.bind (.tick b _) fun _ _ => h)

mutual

theorem exec_among (hcall : call.Among Q) : ∀ (path : TreePath) (stmt : Stmt), (∀ f ∈ stmt.functions, Q f) →
    KeepsAmong Q (Signal.Among Q) (exec b call path stmt)
  | _, .varDecl name type init _, _ => by
    unfold exec
    refine .bind (evalOption_among hcall init) fun value hvalue => .bind .get fun s _ => ?_
    split
    · exact .bind (.store name hvalue) fun _ _ => .pure nofun
    · exact .bind (.declare name _ hvalue) fun _ _ => .pure nofun
  | _, .expr e _, _ => .bind (eval_among hcall e) fun _ _ => .pure nofun
  | _, .print e _, _ =>
    .bind (eval_among hcall e) fun _ _ => .bind (.printLine _ _) fun _ _ => .pure nofun
  | _, .block body _, h => .inBlock (execAll_among hcall _ body h)
  | _, .branch cond thenStmt none _, h => by
    unfold exec
    refine .bind (evalCondition_among hcall cond) fun holds _ => ?_
    split
    · exact asBranch_among (exec_among hcall _ thenStmt h)
    · exact .pure nofun
  | _, .branch cond thenStmt (some elseStmt) _, h => by
    obtain ⟨hthen, helse⟩ := List.forall_mem_append.1 h
    unfold exec
    refine .bind (evalCondition_among hcall cond) fun holds _ => ?_
    split
    · exact asBranch_among (exec_among hcall _ thenStmt hthen)
    · exact asBranch_among (exec_among hcall _ elseStmt helse)
  | _, .loop cond body span, h => fun s =>
    Preserves.iterate (KeepsAmong.tick b span) (evalCondition_among hcall cond)
      (asBranch_among (exec_among hcall _ body h)) nofun _ s
  | path, .function name params body _ _, h => by
    unfold exec
    refine .bind .get fun s _ => ?_
    have hvalue : (Value.function ⟨⟨name, params, body⟩, path⟩).Among Q := by
      rintro f ⟨⟩
      exact h _ List.mem_cons_self
    split
    · exact .bind (.declare name none hvalue) fun _ _ => .pure nofun
    · exact .pure nofun
  | _, .returnWith value _, _ =>
    .bind (evalOption_among hcall value) fun v hv => .pure fun _ h => by cases h; exact hv
  | _, .breakLoop _, _ | _, .continueLoop _, _ => .pure nofun

theorem execAll_among (hcall : call.Among Q) : ∀ (path : TreePath) (stmts : List Stmt),
    (∀ f ∈ Stmt.functionsAll stmts, Q f) → KeepsAmong Q (Signal.Among Q) (execAll b call path stmts)
  | _, [], _ => .pure nofun
  | path, stmt :: stmts, h => by
    obtain ⟨hstmt, hstmts⟩ := List.forall_mem_append.1 h
    unfold execAll
    refine .bind (.tick b stmt.span) fun _ _ => .bind (exec_among hcall path stmt hstmt) ?_
    intro signal hsignal
    split
    · exact execAll_among hcall path.next stmts hstmts
    · exact .pure hsignal

end

end

theorem Signal.Among.result {signal : Signal} (h : signal.Among Q) : signal.result.Among Q := by
  cases signal with
  | returned v => exact h v rfl
  | _ => nofun

/-- Calls stay among `Q`, if the functions among `Q` declare no others. -/
theorem invoke_among (hQ : ∀ f, Q f → ∀ g ∈ Stmt.functionsAll f.body, Q g) (b : Bounds) (depth : Nat) :
    (invoke b depth).Among Q := by
  induction depth with
  | zero => exact fun _ _ _ _ _ => .fail _ _
  | succ depth ih =>
    intro f args span hf hargs
    unfold invoke
    split
    · exact fun _ _ => trivial
    · next params hparams =>
      exact .bind (.inCall (bindParams_among hargs .empty hparams) (execAll_among ih _ f.body (hQ _ hf)))
        fun _ hsignal => .pure hsignal.result

end Run

end Scriptlet
