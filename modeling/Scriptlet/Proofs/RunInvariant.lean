import Scriptlet.Proofs.Bindings
import Scriptlet.Proofs.OperatorTypes
import Scriptlet.Proofs.RunSteps

/-!
# What every run keeps

Two kinds of facts hold all through a run because each of its steps keeps them. A `ValueLaw` is about
values: if it holds of what a program brings in (`Stmt.constants`), it holds of all values that the run
computes and of all variables. A `GaugeLaw` is about the number of steps, the output and the number of
calls, and relates what they are before to what they are afterwards, also if the run fails. That a step
keeps a law is in the law; `execAll_follows` and `invoke_follows` say it of whole runs.
-/

namespace Scriptlet

/-! ### The values that a program brings in -/

mutual

/-- The literals of an expression. -/
def Expr.constants : Expr → List Value
  | .literal value _ => [.ofLiteral value]
  | .ident _ => []
  | .assign _ value _ => value.constants
  | .binary _ lhs rhs _ => lhs.constants ++ rhs.constants
  | .unary _ operand _ => operand.constants
  | .call callee args _ => callee.constants ++ Expr.constantsAll args

def Expr.constantsAll : List Expr → List Value
  | [] => []
  | e :: es => e.constants ++ Expr.constantsAll es

end

def Expr.constantsOption : Option Expr → List Value
  | none => []
  | some e => e.constants

mutual

/-- The literals of the statement at a path and the functions that it declares. The body of a function brings in
its own when it is called. -/
def Stmt.constants : TreePath → Stmt → List Value
  | _, .varDecl _ _ init _ => Expr.constantsOption init
  | _, .expr e _ => e.constants
  | _, .print e _ => e.constants
  | path, .block body _ => Stmt.constantsAll path.inside body
  | path, .branch cond thenStmt none _ => cond.constants ++ Stmt.constants path.inside thenStmt
  | path, .branch cond thenStmt (some elseStmt) _ =>
    cond.constants ++ (Stmt.constants path.inside thenStmt ++ Stmt.constants path.inside.next elseStmt)
  | path, .loop cond body _ => cond.constants ++ Stmt.constants path.inside body
  | path, .function name params body _ _ => [.function ⟨⟨name, params, body⟩, path⟩]
  | _, .returnWith value _ => Expr.constantsOption value
  | _, .breakLoop _ | _, .continueLoop _ => []

def Stmt.constantsAll : TreePath → List Stmt → List Value
  | _, [] => []
  | path, stmt :: stmts => Stmt.constants path stmt ++ Stmt.constantsAll path.next stmts

end

namespace Run

/-! ### Laws -/

/-- What a run is measured by. -/
structure Gauge where
  steps : Nat
  sink : Sink
  /-- the number of active calls -/
  frames : Nat

def State.gauge (s : State) : Gauge := ⟨s.steps, s.sink, s.calls.length⟩

@[simp] theorem State.gauge_mapFrame (s : State) (f : Frame → Frame) : (s.mapFrame f).gauge = s.gauge := by
  unfold mapFrame
  split <;> simp [gauge, *]

@[simp] theorem State.gauge_replace (s : State) (name : String) (b : Binding) :
    (s.replace name b).gauge = s.gauge := by
  unfold replace
  split
  · rfl
  · split <;> simp [gauge, *]

/-- A property of values that holds of all results, if it holds of what a program brings in. -/
structure ValueLaw (b : Bounds) where
  Holds : Value → Prop
  nil : Holds .nil
  bool (holds : Bool) : Holds (.bool holds)
  float (x : Float) : Holds (.float x)
  strict {op : BinaryOp} {strict : StrictOp} {lhs rhs v : Value}
    (h : applyStrict b.limits.maxValueBytes op strict lhs rhs = .ok v) : Holds v
  unary {op : UnaryOp} {operand v : Value} (h : applyUnary op operand = .ok v) : Holds v
  body {f : Func} (hf : Holds (.function f)) : ∀ v ∈ Stmt.constantsAll f.path.inside f.body, Holds v

/-- What a run makes of the gauge: `Moves g g'` if it goes from `g` to `g'`, and `Fails g e g'` if it
starts with `g` and fails with `e` at `g'`. -/
structure GaugeLaw (b : Bounds) where
  Moves : Gauge → Gauge → Prop
  Fails : Gauge → Failure → Gauge → Prop
  refl (g : Gauge) : Moves g g
  trans {g₁ g₂ g₃ : Gauge} (h : Moves g₁ g₂) (h' : Moves g₂ g₃) : Moves g₁ g₃
  failAfter {g₁ g₂ g₃ : Gauge} {e : Failure} (h : Moves g₁ g₂) (h' : Fails g₂ e g₃) : Fails g₁ e g₃
  fault {g : Gauge} {e : Failure} (h : e.fault.code ≠ .timeout) : Fails g e g
  step {g : Gauge} (hsteps : g.steps < b.limits.stepBudget)
    (hclock : ¬ ((g.steps + 1) % clockInterval = 0 ∧ b.clock.expired (g.steps + 1) = true)) :
    Moves g { g with steps := g.steps + 1 }
  spent {g : Gauge} {span : Span} (hsteps : b.limits.stepBudget ≤ g.steps) :
    Fails g ⟨.stepBudget b.limits.stepBudget, span⟩ g
  late {g : Gauge} {span : Span} (hsteps : g.steps < b.limits.stepBudget)
    (hclock : (g.steps + 1) % clockInterval = 0 ∧ b.clock.expired (g.steps + 1) = true) :
    Fails g ⟨.deadline b.limits.timeoutMs, span⟩ { g with steps := g.steps + 1 }
  print {g : Gauge} {line : String} {sink : Sink} (h : g.sink.writeLine line = .ok sink) :
    Moves g { g with sink }
  call {g g' : Gauge} (h : Moves { g with frames := g.frames + 1 } g') :
    Moves g { g' with frames := g'.frames - 1 }
  callFail {g g' : Gauge} {e : Failure} (h : Fails { g with frames := g.frames + 1 } e g') :
    Fails g e { g' with frames := g'.frames - 1 }

/-- Of the values of all variables, `P` holds. -/
abbrev State.Held (P : Value → Prop) (s : State) : Prop := s.All (P ·.value)

/-- If the statement returns a value, `P` holds of it. -/
def Signal.Held (P : Value → Prop) (signal : Signal) : Prop :=
  ∀ v, signal = .returned v → P v

variable {α β : Type} {b : Bounds} {V : ValueLaw b} {G : GaugeLaw b}

/-- A computation that follows both laws, and whose result satisfies `P`. -/
def Follows (V : ValueLaw b) (G : GaugeLaw b) (P : α → Prop) (p : Run α) : Prop :=
  ∀ s : State, s.Held V.Holds → Ends p s (fun a s' => P a ∧ s'.Held V.Holds ∧ G.Moves s.gauge s'.gauge)
    (fun e s' => s'.Held V.Holds ∧ G.Fails s.gauge e s'.gauge)

namespace ValueLaw

theorem coerce (V : ValueLaw b) {declared : Option Ty} {name : String} {value v : Value}
    (hv : V.Holds value) (h : coerce declared name value = .ok v) : V.Holds v := by
  rcases coerce_cases declared name value with hc | ⟨x, hc⟩ | ⟨type, hc⟩ <;> rw [hc] at h <;> cases h
  · exact hv
  · exact V.float x

theorem bindParams (V : ValueLaw b) {params : List Param} {args : List (Value × Span)} {vars vars' : Vars}
    (hargs : ∀ arg ∈ args, V.Holds arg.1) (hvars : VarsAll (V.Holds ·.value) vars)
    (h : bindParams params args vars = .ok vars') : VarsAll (V.Holds ·.value) vars' := by
  induction params generalizing args vars with
  | nil =>
    cases h
    exact hvars
  | cons param params ih =>
    rcases args with _ | ⟨⟨value, span⟩, args⟩
    · cases h
      exact hvars
    · obtain ⟨hvalue, hargs⟩ := List.forall_mem_cons.1 hargs
      rw [Run.bindParams] at h
      split at h
      · next hcoerce => exact ih hargs (hvars.insert (V.coerce hvalue hcoerce)) h
      · cases h

/-- The variables of the top level before the run. -/
theorem hoist (V : ValueLaw b) {path : TreePath} {items : List Stmt} {vars : Vars}
    (h : ∀ v ∈ Stmt.constantsAll path items, V.Holds v)
    (hvars : VarsAll (V.Holds ·.value) vars) : VarsAll (V.Holds ·.value) (hoist path items vars) := by
  induction items generalizing path vars with
  | nil => exact hvars
  | cons item items ih =>
    obtain ⟨hitem, hitems⟩ := List.forall_mem_append.1 h
    refine ih hitems ?_
    cases item with
    | function name params body braces span => exact hvars.insert (hitem _ List.mem_cons_self)
    | varDecl => exact hvars.insert V.nil
    | _ => exact hvars

end ValueLaw

/-! ### Steps -/

namespace Follows

variable {p : Run α} {f : α → Run β} {P : α → Prop} {Q : β → Prop}

theorem of_ok (h : Follows V G P p) {s s' : State} {a : α} (hs : s.Held V.Holds) (hp : p s = .ok a s') :
    P a ∧ s'.Held V.Holds ∧ G.Moves s.gauge s'.gauge :=
  (ends_of_ok hp).1 (h s hs)

theorem of_error (h : Follows V G P p) {s s' : State} {e : Failure} (hs : s.Held V.Holds)
    (hp : p s = .error e s') : s'.Held V.Holds ∧ G.Fails s.gauge e s'.gauge :=
  (ends_of_error hp).1 (h s hs)

theorem pure {a : α} (h : P a) : Follows V G P (pure a : Run α) := fun _ hs => ⟨h, hs, G.refl _⟩

theorem bind (hp : Follows V G P p) (hf : ∀ a, P a → Follows V G Q (f a)) : Follows V G Q (p >>= f) := by
  intro s hs
  rw [ends_bind]
  refine (hp s hs).mono_ok ?_
  rintro a s₁ ⟨ha, hs₁, hmoves⟩
  refine (hf a ha s₁ hs₁).mono ?_ ?_
  · rintro b s₂ ⟨hb, hs₂, hmoves'⟩
    exact ⟨hb, hs₂, G.trans hmoves hmoves'⟩
  · rintro e s₂ ⟨hs₂, hfails⟩
    exact ⟨hs₂, G.failAfter hmoves hfails⟩

theorem get_bind {f : State → Run β} (h : ∀ s, Follows V G Q (f s)) : Follows V G Q (get >>= f) :=
  fun s hs => h s s hs

theorem fail {fault : Fault} {span : Span} (h : fault.code ≠ .timeout) :
    Follows V G P (fail fault span : Run α) :=
  fun _ hs => ⟨hs, G.fault h⟩

theorem tick (span : Span) : Follows V G (fun _ => True) (tick b span) := by
  intro s hs
  have hheld (n : Nat) : State.Held V.Holds { s with steps := n } := ⟨hs.globals, hs.calls⟩
  simp only [Run.tick, ends_bind, ends_get, ends_ite, ends_set, ends_pure, ends_fail]
  split
  · exact ⟨hs, G.spent ‹_›⟩
  · next hsteps =>
    rw [Nat.not_le] at hsteps
    split
    · exact ⟨hheld _, G.late hsteps ‹_›⟩
    · exact ⟨trivial, hheld _, G.step hsteps ‹_›⟩

theorem printLine (line : String) (span : Span) : Follows V G (fun _ => True) (printLine line span) := by
  intro s hs
  rw [ends_printLine]
  cases hwrite : s.sink.writeLine line with
  | ok sink => exact ⟨trivial, ⟨hs.globals, hs.calls⟩, G.print hwrite⟩
  | error fault =>
    refine ⟨hs, G.fault ?_⟩
    unfold Sink.writeLine at hwrite
    split at hwrite <;> cases hwrite
    nofun

theorem truth (span : Span) (value : Value) : Follows V G (fun _ => True) (truth span value) := by
  cases value with
  | bool holds => exact pure trivial
  | _ => exact fail nofun

theorem load (name : Ident) : Follows V G V.Holds (load name) := by
  intro s hs
  rw [ends_load]
  cases h : s.binding? name.name with
  | none => exact ⟨hs, G.fault nofun⟩
  | some b => exact ⟨hs.binding h, hs, G.refl _⟩

theorem coerce_code {declared : Option Ty} {name : String} {value : Value} {fault : Fault}
    (h : coerce declared name value = .error fault) : fault.code ≠ .timeout := by
  rcases coerce_cases declared name value with hc | ⟨x, hc⟩ | ⟨type, hc⟩ <;> rw [hc] at h <;> cases h
  nofun

theorem store (name : Ident) {value : Value} (hvalue : V.Holds value) :
    Follows V G V.Holds (store name value) := by
  intro s hs
  rw [ends_store]
  cases s.binding? name.name with
  | none => exact ⟨hs, G.fault nofun⟩
  | some b =>
    dsimp only
    cases h : coerce b.declared name.name value with
    | error fault => exact ⟨hs, G.fault (coerce_code h)⟩
    | ok fitted =>
      have hfitted := V.coerce hvalue h
      refine ⟨hfitted, hs.replace hfitted, ?_⟩
      rw [State.gauge_replace]
      exact G.refl _

theorem declare (name : Ident) (declared : Option Ty) {value : Value} (hvalue : V.Holds value) :
    Follows V G (fun _ => True) (declare name declared value) := by
  intro s hs
  rw [ends_declare]
  cases h : coerce declared name.name value with
  | error fault => exact ⟨hs, G.fault (coerce_code h)⟩
  | ok fitted =>
    refine ⟨trivial, hs.mapFrame fun _ hf => hf.declare (V.coerce hvalue h), ?_⟩
    rw [State.gauge_mapFrame]
    exact G.refl _

theorem strict (span : Span) (op : BinaryOp) (strict : StrictOp) (lhs rhs : Value) :
    Follows V G V.Holds (lift span (applyStrict b.limits.maxValueBytes op strict lhs rhs)) := by
  intro s hs
  rw [ends_lift]
  cases h : applyStrict b.limits.maxValueBytes op strict lhs rhs with
  | ok v => exact ⟨V.strict h, hs, G.refl _⟩
  | error fault =>
    refine ⟨hs, G.fault ?_⟩
    rcases applyStrict_cases op strict lhs rhs with ⟨x, y, hc⟩ | ⟨result, hplain, hc⟩ <;> rw [hc] at h
    · unfold concat at h
      split at h <;> cases h
      nofun
    · subst h
      rcases hplain with hcode | hcode | hcode <;> rw [hcode] <;> nofun

theorem unary (span : Span) (op : UnaryOp) (operand : Value) :
    Follows V G V.Holds (lift span (applyUnary op operand)) := by
  intro s hs
  have hplain := applyUnary_plain op operand
  rw [ends_lift]
  cases h : applyUnary op operand with
  | ok v => exact ⟨V.unary h, hs, G.refl _⟩
  | error fault =>
    rw [h] at hplain
    refine ⟨hs, G.fault ?_⟩
    rcases hplain with hcode | hcode | hcode <;> rw [hcode] <;> nofun

theorem inBlock (h : Follows V G P p) : Follows V G P (inBlock p) := by
  intro s hs
  rw [Run.inBlock, ends_between]
  have hp := h _ (hs.mapFrame fun _ => .pushBlock)
  rw [State.gauge_mapFrame] at hp
  refine hp.mono ?_ ?_
  · rintro a s' ⟨ha, hs', hmoves⟩
    exact ⟨ha, hs'.mapFrame fun _ => .popBlock, by rwa [State.gauge_mapFrame]⟩
  · rintro e s' ⟨hs', hfails⟩
    exact ⟨hs'.mapFrame fun _ => .popBlock, by rwa [State.gauge_mapFrame]⟩

theorem inCall {params : Vars} (hparams : VarsAll (V.Holds ·.value) params) (h : Follows V G P p) :
    Follows V G P (inCall params p) := by
  intro s hs
  rw [Run.inCall, ends_between]
  have hleave (s' : State) : State.gauge { s' with calls := s'.calls.tail } =
      { s'.gauge with frames := s'.gauge.frames - 1 } := by
    simp [State.gauge]
  refine (h _ (hs.enter hparams)).mono ?_ ?_
  · rintro a s' ⟨ha, hs', hmoves⟩
    exact ⟨ha, hs'.leave, hleave s' ▸ G.call hmoves⟩
  · rintro e s' ⟨hs', hfails⟩
    exact ⟨hs'.leave, hleave s' ▸ G.callFail hfails⟩

theorem iterate {span : Span} {cond : Run Bool} {body : Run Signal} {P : Signal → Prop}
    (hcond : Follows V G (fun _ => True) cond) (hbody : Follows V G P body) (hnormal : P .normal)
    (rounds : Nat) : Follows V G P (iterate b span cond body rounds) := by
  induction rounds with
  | zero => exact .bind (.tick span) fun _ _ => .pure hnormal
  | succ rounds ih =>
    refine .bind (.tick span) fun _ _ => .bind hcond fun again _ => ?_
    cases again with
    | false => exact .pure hnormal
    | true =>
      refine .bind hbody fun signal hsignal => ?_
      cases signal with
      | normal | continued => exact ih
      | broke => exact .pure hnormal
      | returned value => exact .pure hsignal

end Follows

/-! ### Runs -/

/-- Calls follow both laws. -/
def Caller.Follows (V : ValueLaw b) (G : GaugeLaw b) (call : Caller) : Prop :=
  ∀ f args span, V.Holds (.function f) → (∀ arg ∈ args, V.Holds arg.1) →
    Run.Follows V G V.Holds (call f args span)

section

variable {call : Caller}

mutual

theorem eval_follows (hcall : call.Follows V G) : ∀ e : Expr, (∀ v ∈ e.constants, V.Holds v) →
    Follows V G V.Holds (eval b call e)
  | .literal value _, h => .pure (h _ List.mem_cons_self)
  | .ident name, _ => .load name
  | .assign target value _, h => .bind (eval_follows hcall value h) fun _ hv => .store target hv
  | .binary op lhs rhs span, h => by
    obtain ⟨hlhs, hrhs⟩ := List.forall_mem_append.1 h
    unfold eval
    split
    · refine .bind (eval_follows hcall lhs hlhs) fun left _ => .bind (.truth _ _) fun left _ => ?_
      split
      · exact .pure (V.bool _)
      · exact .bind (eval_follows hcall rhs hrhs) fun _ _ => .bind (.truth _ _) fun _ _ => .pure (V.bool _)
    · exact .bind (eval_follows hcall lhs hlhs) fun _ _ => .bind (eval_follows hcall rhs hrhs) fun _ _ =>
        .strict _ _ _ _ _
  | .unary op operand span, h => .bind (eval_follows hcall operand h) fun _ _ => .unary _ _ _
  | .call callee args span, h => by
    obtain ⟨hcallee, hargs⟩ := List.forall_mem_append.1 h
    unfold eval
    refine .bind (.tick span) fun _ _ => .bind (eval_follows hcall callee hcallee) fun value hvalue => ?_
    split
    · next f =>
      refine .bind (evalArgs_follows hcall args hargs) fun values hvalues => ?_
      split
      · exact hcall f values span hvalue hvalues
      · exact .fail nofun
    · exact .fail nofun

theorem evalArgs_follows (hcall : call.Follows V G) : ∀ es : List Expr,
    (∀ v ∈ Expr.constantsAll es, V.Holds v) →
    Follows V G (fun args => ∀ arg ∈ args, V.Holds arg.1) (evalArgs b call es)
  | [], _ => .pure nofun
  | e :: es, h => by
    obtain ⟨he, hes⟩ := List.forall_mem_append.1 h
    exact .bind (eval_follows hcall e he) fun _ hvalue =>
      .bind (evalArgs_follows hcall es hes) fun _ hvalues => .pure (List.forall_mem_cons.2 ⟨hvalue, hvalues⟩)

end

theorem evalOption_follows (hcall : call.Follows V G) : ∀ e : Option Expr,
    (∀ v ∈ Expr.constantsOption e, V.Holds v) →
    Follows V G V.Holds (evalOption b call e)
  | none, _ => .pure V.nil
  | some e, h => eval_follows hcall e h

theorem evalCondition_follows (hcall : call.Follows V G) {cond : Expr} (h : ∀ v ∈ cond.constants, V.Holds v) :
    Follows V G (fun _ => True) (evalCondition b call cond) :=
  .bind (eval_follows hcall cond h) fun _ _ => .truth _ _

theorem asBranch_follows {stmt : Stmt} {body : Run Signal} (h : Follows V G (Signal.Held V.Holds) body) :
    Follows V G (Signal.Held V.Holds) (asBranch b stmt body) := by
  unfold asBranch
  split
  · exact h
  · exact .inBlock (.bind (.tick _) fun _ _ => h)

mutual

theorem exec_follows (hcall : call.Follows V G) : ∀ (path : TreePath) (stmt : Stmt),
    (∀ v ∈ Stmt.constants path stmt, V.Holds v) → Follows V G (Signal.Held V.Holds) (exec b call path stmt)
  | _, .varDecl name type init _, h => by
    unfold exec
    refine .bind (evalOption_follows hcall init h) fun value hvalue => .get_bind fun s => ?_
    split
    · exact .bind (.store name hvalue) fun _ _ => .pure nofun
    · exact .bind (.declare name _ hvalue) fun _ _ => .pure nofun
  | _, .expr e _, h => .bind (eval_follows hcall e h) fun _ _ => .pure nofun
  | _, .print e _, h => .bind (eval_follows hcall e h) fun _ _ => .bind (.printLine _ _) fun _ _ => .pure nofun
  | _, .block body _, h => .inBlock (execAll_follows hcall _ body h)
  | _, .branch cond thenStmt none _, h => by
    obtain ⟨hcond, hthen⟩ := List.forall_mem_append.1 h
    unfold exec
    refine .bind (evalCondition_follows hcall hcond) fun holds _ => ?_
    split
    · exact asBranch_follows (exec_follows hcall _ thenStmt hthen)
    · exact .pure nofun
  | _, .branch cond thenStmt (some elseStmt) _, h => by
    obtain ⟨hcond, hbranches⟩ := List.forall_mem_append.1 h
    obtain ⟨hthen, helse⟩ := List.forall_mem_append.1 hbranches
    unfold exec
    refine .bind (evalCondition_follows hcall hcond) fun holds _ => ?_
    split
    · exact asBranch_follows (exec_follows hcall _ thenStmt hthen)
    · exact asBranch_follows (exec_follows hcall _ elseStmt helse)
  | _, .loop cond body span, h => by
    obtain ⟨hcond, hbody⟩ := List.forall_mem_append.1 h
    unfold exec
    exact .get_bind fun s =>
      .iterate (evalCondition_follows hcall hcond) (asBranch_follows (exec_follows hcall _ body hbody)) nofun _
  | _, .function name params body _ _, h => by
    unfold exec
    refine .get_bind fun s => ?_
    split
    · exact .bind (.declare name none (h _ List.mem_cons_self)) fun _ _ => .pure nofun
    · exact .pure nofun
  | _, .returnWith value _, h =>
    .bind (evalOption_follows hcall value h) fun v hv => .pure fun _ h => by cases h; exact hv
  | _, .breakLoop _, _ | _, .continueLoop _, _ => .pure nofun

theorem execAll_follows (hcall : call.Follows V G) : ∀ (path : TreePath) (stmts : List Stmt),
    (∀ v ∈ Stmt.constantsAll path stmts, V.Holds v) →
    Follows V G (Signal.Held V.Holds) (execAll b call path stmts)
  | _, [], _ => .pure nofun
  | path, stmt :: stmts, h => by
    obtain ⟨hstmt, hstmts⟩ := List.forall_mem_append.1 h
    unfold execAll
    refine .bind (.tick stmt.span) fun _ _ => .bind (exec_follows hcall path stmt hstmt) fun signal hsignal => ?_
    split
    · exact execAll_follows hcall path.next stmts hstmts
    · exact .pure hsignal

end

end

theorem Signal.Held.result {signal : Signal} (h : signal.Held V.Holds) : V.Holds signal.result := by
  cases signal with
  | returned v => exact h v rfl
  | _ => exact V.nil

theorem bindParams_code {params : List Param} {args : List (Value × Span)} {vars : Vars} {failure : Failure}
    (h : bindParams params args vars = .error failure) : failure.fault.code ≠ .timeout := by
  induction params generalizing args vars with
  | nil => cases h
  | cons param params ih =>
    rcases args with _ | ⟨⟨value, span⟩, args⟩
    · cases h
    · rw [bindParams] at h
      split at h
      · exact ih h
      · next hcoerce =>
        cases h
        exact Follows.coerce_code hcoerce

/-- Calls follow the laws, since the bodies of functions do. -/
theorem invoke_follows (V : ValueLaw b) (G : GaugeLaw b) (depth : Nat) : (invoke b depth).Follows V G := by
  induction depth with
  | zero => exact fun _ _ _ _ _ => .fail nofun
  | succ depth ih =>
    intro f args span hf hargs
    unfold invoke
    split
    · next hparams => exact fun s hs => ⟨hs, G.fault (bindParams_code hparams)⟩
    · next params hparams =>
      exact .bind (.inCall (V.bindParams hargs .empty hparams) (execAll_follows ih _ f.body (V.body hf)))
        fun _ hsignal => .pure hsignal.result

end Run

end Scriptlet
