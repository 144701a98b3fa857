import Mathlib.Logic.Relation
import Scriptlet.Proofs.OperatorTypes
import Scriptlet.Proofs.RunSteps

/-!
# The points of a run

Running a part of a program is running parts of it, one after the other, in states that the parts before
have left behind. `Step b p q`: running `p` comes to run its part `q` (for a call, the body of the
function called). `Reaches b p q`: running `p` comes, at some time, to run `q`. Among the points that are
reached are all those where a variable is read or given a value. So what is known at all points says which
faults a run can end in, and what becomes of the variables of the top level (`PointLaw`): a run all of whose
points have the variable that they need does not miss one (`safety`).
-/

namespace Scriptlet

namespace Run

/-- A part of a program that is run. -/
inductive Task where
  | expr (e : Expr)
  | args (es : List Expr)
  /-- A variable is read. -/
  | load (name : Ident)
  /-- A variable is assigned. -/
  | store (name : Ident)
  /-- A variable of the top level gets its initial value. -/
  | initial (name : Ident)
  | stmt (path : TreePath) (stmt : Stmt)
  /-- Statements one after the other, the first at the path. -/
  | stmts (path : TreePath) (stmts : List Stmt)
  /-- The branch of a conditional, or the body of a loop. -/
  | branch (path : TreePath) (stmt : Stmt)
  /-- A loop, whose body is at the path, that goes round at most `rounds` times. -/
  | rounds (path : TreePath) (cond : Expr) (body : Stmt) (span : Span) (rounds : Nat)

/-- A part of a program that is run from a state, when `depth` more calls may nest. -/
structure Point where
  depth : Nat
  task : Task
  state : State

/-- The state in which the body of a function is run. -/
def State.enter (s : State) (params : Vars) : State :=
  { s with calls := { base := params } :: s.calls }

/-- Whether a logical operator leaves its right side to be looked at; any other always does. -/
def opens (op : BinaryOp) (left : Value) : Prop :=
  ∀ decisive, OpForm.of op = .logical decisive → left = .bool (!decisive)

inductive Step (b : Bounds) : Point → Point → Prop
  | ident {d : Nat} {s : State} {name : Ident} : Step b ⟨d, .expr (.ident name), s⟩ ⟨d, .load name, s⟩
  | assignValue {d : Nat} {s : State} {target : Ident} {value : Expr} {span : Span} :
      Step b ⟨d, .expr (.assign target value span), s⟩ ⟨d, .expr value, s⟩
  | assignStore {d : Nat} {s s' : State} {target : Ident} {value : Expr} {span : Span} {v : Value}
      (hvalue : eval b (invoke b d) value s = .ok v s') :
      Step b ⟨d, .expr (.assign target value span), s⟩ ⟨d, .store target, s'⟩
  | left {d : Nat} {s : State} {op : BinaryOp} {lhs rhs : Expr} {span : Span} :
      Step b ⟨d, .expr (.binary op lhs rhs span), s⟩ ⟨d, .expr lhs, s⟩
  | right {d : Nat} {s s' : State} {op : BinaryOp} {lhs rhs : Expr} {span : Span} {v : Value}
      (hleft : eval b (invoke b d) lhs s = .ok v s') (hopens : opens op v) :
      Step b ⟨d, .expr (.binary op lhs rhs span), s⟩ ⟨d, .expr rhs, s'⟩
  | operand {d : Nat} {s : State} {op : UnaryOp} {operand : Expr} {span : Span} :
      Step b ⟨d, .expr (.unary op operand span), s⟩ ⟨d, .expr operand, s⟩
  | callee {d : Nat} {s s' : State} {callee : Expr} {args : List Expr} {span : Span}
      (htick : tick b span s = .ok () s') :
      Step b ⟨d, .expr (.call callee args span), s⟩ ⟨d, .expr callee, s'⟩
  | callArgs {d : Nat} {s s₁ s₂ : State} {callee : Expr} {args : List Expr} {span : Span} {f : Func}
      (htick : tick b span s = .ok () s₁)
      (hcallee : eval b (invoke b d) callee s₁ = .ok (.function f) s₂) :
      Step b ⟨d, .expr (.call callee args span), s⟩ ⟨d, .args args, s₂⟩
  | callBody {d : Nat} {s s₁ s₂ s₃ : State} {callee : Expr} {args : List Expr} {span : Span}
      {f : Func} {values : List (Value × Span)} {params : Vars}
      (htick : tick b span s = .ok () s₁)
      (hcallee : eval b (invoke b (d + 1)) callee s₁ = .ok (.function f) s₂)
      (hargs : evalArgs b (invoke b (d + 1)) args s₂ = .ok values s₃)
      (harity : values.length = f.params.length)
      (hparams : bindParams f.params values .empty = .ok params) :
      Step b ⟨d + 1, .expr (.call callee args span), s⟩ ⟨d, .stmts f.path.inside f.body, s₃.enter params⟩
  | arg {d : Nat} {s : State} {e : Expr} {es : List Expr} : Step b ⟨d, .args (e :: es), s⟩ ⟨d, .expr e, s⟩
  | moreArgs {d : Nat} {s s' : State} {e : Expr} {es : List Expr} {v : Value}
      (hfirst : eval b (invoke b d) e s = .ok v s') : Step b ⟨d, .args (e :: es), s⟩ ⟨d, .args es, s'⟩
  | init {d : Nat} {path : TreePath} {s : State} {name : Ident} {type : Option TypeName} {e : Expr} {span : Span} :
      Step b ⟨d, .stmt path (.varDecl name type (some e) span), s⟩ ⟨d, .expr e, s⟩
  | initial {d : Nat} {path : TreePath} {s s' : State} {name : Ident} {type : Option TypeName} {init : Option Expr}
      {span : Span} {v : Value} (hinit : evalOption b (invoke b d) init s = .ok v s')
      (htop : s'.atTopLevel = true) :
      Step b ⟨d, .stmt path (.varDecl name type init span), s⟩ ⟨d, .initial name, s'⟩
  | exprStmt {d : Nat} {path : TreePath} {s : State} {e : Expr} {span : Span} :
      Step b ⟨d, .stmt path (.expr e span), s⟩ ⟨d, .expr e, s⟩
  | print {d : Nat} {path : TreePath} {s : State} {e : Expr} {span : Span} :
      Step b ⟨d, .stmt path (.print e span), s⟩ ⟨d, .expr e, s⟩
  | returned {d : Nat} {path : TreePath} {s : State} {e : Expr} {span : Span} :
      Step b ⟨d, .stmt path (.returnWith (some e) span), s⟩ ⟨d, .expr e, s⟩
  | block {d : Nat} {path : TreePath} {s : State} {body : List Stmt} {span : Span} :
      Step b ⟨d, .stmt path (.block body span), s⟩ ⟨d, .stmts path.inside body, s.mapFrame Frame.pushBlock⟩
  | cond {d : Nat} {path : TreePath} {s : State} {cond : Expr} {thenStmt : Stmt} {elseStmt : Option Stmt}
      {span : Span} :
      Step b ⟨d, .stmt path (.branch cond thenStmt elseStmt span), s⟩ ⟨d, .expr cond, s⟩
  | thenBranch {d : Nat} {path : TreePath} {s s' : State} {cond : Expr} {thenStmt : Stmt} {elseStmt : Option Stmt}
      {span : Span} (hcond : evalCondition b (invoke b d) cond s = .ok true s') :
      Step b ⟨d, .stmt path (.branch cond thenStmt elseStmt span), s⟩ ⟨d, .branch path.inside thenStmt, s'⟩
  | elseBranch {d : Nat} {path : TreePath} {s s' : State} {cond : Expr} {thenStmt elseStmt : Stmt} {span : Span}
      (hcond : evalCondition b (invoke b d) cond s = .ok false s') :
      Step b ⟨d, .stmt path (.branch cond thenStmt (some elseStmt) span), s⟩
        ⟨d, .branch path.inside.next elseStmt, s'⟩
  | loop {d : Nat} {path : TreePath} {s : State} {cond : Expr} {body : Stmt} {span : Span} :
      Step b ⟨d, .stmt path (.loop cond body span), s⟩
        ⟨d, .rounds path.inside cond body span (b.limits.stepBudget - s.steps), s⟩
  | roundCond {d n : Nat} {path : TreePath} {s s' : State} {cond : Expr} {body : Stmt} {span : Span}
      (htick : tick b span s = .ok () s') :
      Step b ⟨d, .rounds path cond body span (n + 1), s⟩ ⟨d, .expr cond, s'⟩
  | roundBody {d n : Nat} {path : TreePath} {s s₁ s₂ : State} {cond : Expr} {body : Stmt} {span : Span}
      (htick : tick b span s = .ok () s₁) (hcond : evalCondition b (invoke b d) cond s₁ = .ok true s₂) :
      Step b ⟨d, .rounds path cond body span (n + 1), s⟩ ⟨d, .branch path body, s₂⟩
  | nextRound {d n : Nat} {path : TreePath} {s s₁ s₂ s₃ : State} {cond : Expr} {body : Stmt} {span : Span}
      {signal : Signal} (htick : tick b span s = .ok () s₁)
      (hcond : evalCondition b (invoke b d) cond s₁ = .ok true s₂)
      (hbody : asBranch b body (exec b (invoke b d) path body) s₂ = .ok signal s₃)
      (hsignal : signal = .normal ∨ signal = .continued) :
      Step b ⟨d, .rounds path cond body span (n + 1), s⟩ ⟨d, .rounds path cond body span n, s₃⟩
  | braced {d : Nat} {path : TreePath} {s : State} {body : List Stmt} {span : Span} :
      Step b ⟨d, .branch path (.block body span), s⟩ ⟨d, .stmt path (.block body span), s⟩
  | unbraced {d : Nat} {path : TreePath} {s s' : State} {stmt : Stmt} (hstmt : ∀ body span, stmt ≠ .block body span)
      (htick : tick b stmt.span (s.mapFrame Frame.pushBlock) = .ok () s') :
      Step b ⟨d, .branch path stmt, s⟩ ⟨d, .stmt path stmt, s'⟩
  | first {d : Nat} {path : TreePath} {s s' : State} {stmt : Stmt} {stmts : List Stmt}
      (htick : tick b stmt.span s = .ok () s') :
      Step b ⟨d, .stmts path (stmt :: stmts), s⟩ ⟨d, .stmt path stmt, s'⟩
  | rest {d : Nat} {path : TreePath} {s s₁ s₂ : State} {stmt : Stmt} {stmts : List Stmt}
      (htick : tick b stmt.span s = .ok () s₁)
      (hfirst : exec b (invoke b d) path stmt s₁ = .ok .normal s₂) :
      Step b ⟨d, .stmts path (stmt :: stmts), s⟩ ⟨d, .stmts path.next stmts, s₂⟩

/-- The call at the first point comes, in the state given, to the point where the function `f` is called
with the arguments `values`. -/
inductive Calls (b : Bounds) : Point → Func → List (Value × Span) → Span → State → Prop
  | intro {d : Nat} {s s₁ s₂ s₃ : State} {callee : Expr} {args : List Expr} {span : Span} {f : Func}
      {values : List (Value × Span)}
      (htick : tick b span s = .ok () s₁)
      (hcallee : eval b (invoke b d) callee s₁ = .ok (.function f) s₂)
      (hargs : evalArgs b (invoke b d) args s₂ = .ok values s₃)
      (harity : values.length = f.params.length) :
      Calls b ⟨d, .expr (.call callee args span), s⟩ f values span s₃

/-- What the call comes to is what the function called comes to. -/
theorem Calls.eval_eq {b : Bounds} {d : Nat} {e : Expr} {s s' : State} {f : Func}
    {values : List (Value × Span)} {span : Span} (h : Calls b ⟨d, .expr e, s⟩ f values span s') :
    eval b (invoke b d) e s = invoke b d f values span s' := by
  cases h with
  | intro htick hcallee hargs harity =>
    unfold eval
    refine (bind_of_ok htick).trans ((bind_of_ok hcallee).trans ((bind_of_ok hargs).trans ?_))
    rw [if_pos harity]

/-- Running `p` comes to run `q`. -/
def Reaches (b : Bounds) : Point → Point → Prop := Relation.ReflTransGen (Step b)

theorem Reaches.invariant {b : Bounds} {I : Point → Prop} (hstep : ∀ p q, Step b p q → I p → I q)
    {p q : Point} (h : Reaches b p q) (hp : I p) : I q := by
  induction h with
  | refl => exact hp
  | tail _ hq ih => exact hstep _ _ hq ih

/-- The states that the parts of what is run at `p` leave behind, one after the other, when they succeed,
and those that blocks and calls make of these. -/
inductive After (b : Bounds) (p : Point) : State → Prop
  | start : After b p p.state
  | tick {s s' : State} {span : Span} (h : After b p s) (htick : tick b span s = .ok () s') : After b p s'
  | expr {d : Nat} {e : Expr} {s s' : State} {v : Value} (h : After b p s)
      (hstep : Step b p ⟨d, .expr e, s⟩) (hend : eval b (invoke b d) e s = .ok v s') : After b p s'
  | args {d : Nat} {es : List Expr} {s s' : State} {values : List (Value × Span)} (h : After b p s)
      (hstep : Step b p ⟨d, .args es, s⟩) (hend : evalArgs b (invoke b d) es s = .ok values s') :
      After b p s'
  | stmt {d : Nat} {path : TreePath} {stmt : Stmt} {s s' : State} {signal : Signal} (h : After b p s)
      (hstep : Step b p ⟨d, .stmt path stmt, s⟩) (hend : exec b (invoke b d) path stmt s = .ok signal s') :
      After b p s'
  | branch {d : Nat} {path : TreePath} {stmt : Stmt} {s s' : State} {signal : Signal} (h : After b p s)
      (hstep : Step b p ⟨d, .branch path stmt, s⟩)
      (hend : asBranch b stmt (exec b (invoke b d) path stmt) s = .ok signal s') : After b p s'
  | push {s : State} (h : After b p s) : After b p (s.mapFrame Frame.pushBlock)
  | enter {s : State} {params : List Param} {values : List (Value × Span)} {vars : Vars} (h : After b p s)
      (hparams : bindParams params values .empty = .ok vars) : After b p (s.enter vars)

theorem truth_ok {span : Span} {value : Value} {holds : Bool} {s s' : State}
    (h : truth span value s = .ok holds s') : value = .bool holds ∧ s' = s := by
  cases value <;> cases h
  exact ⟨rfl, rfl⟩

theorem After.cond {b : Bounds} {p : Point} {d : Nat} {cond : Expr} {s s' : State} {holds : Bool}
    (h : After b p s) (hstep : Step b p ⟨d, .expr cond, s⟩)
    (hend : evalCondition b (invoke b d) cond s = .ok holds s') : After b p s' := by
  obtain ⟨v, s₁, heval, htruth⟩ := of_bind_ok hend
  obtain ⟨-, rfl⟩ := truth_ok htruth
  exact h.expr hstep heval

/-- What comes next is run in a state that the parts before it have left behind. -/
theorem Step.after {b : Bounds} {p q : Point} (h : Step b p q) : After b p q.state := by
  cases h with
  | ident | assignValue | left | operand | arg | init | exprStmt | print | returned | cond | loop
  | braced => exact .start
  | assignStore hvalue => exact .expr .start .assignValue hvalue
  | right hleft => exact .expr .start .left hleft
  | callee htick | roundCond htick | first htick => exact .tick .start htick
  | callArgs htick hcallee => exact .expr (.tick .start htick) (.callee htick) hcallee
  | callBody htick hcallee hargs harity hparams =>
    exact .enter (.args (.expr (.tick .start htick) (.callee htick) hcallee) (.callArgs htick hcallee) hargs)
      hparams
  | moreArgs hfirst => exact .expr .start .arg hfirst
  | @initial _ _ _ _ _ _ init _ _ hinit =>
    cases init with
    | none =>
      cases hinit
      exact .start
    | some e => exact .expr .start .init hinit
  | block => exact .push .start
  | thenBranch hcond | elseBranch hcond => exact .cond .start .cond hcond
  | roundBody htick hcond => exact .cond (.tick .start htick) (.roundCond htick) hcond
  | nextRound htick hcond hbody =>
    exact .branch (.cond (.tick .start htick) (.roundCond htick) hcond) (.roundBody htick hcond) hbody
  | unbraced _ htick => exact .tick (.push .start) htick
  | rest htick hfirst => exact .stmt (.tick .start htick) (.first htick) hfirst

/-- The variable that is needed at a point. -/
def Task.needs : Task → Option Ident
  | load name | store name | initial name => some name
  | _ => none

theorem Task.of_needs {task : Task} {name : Ident} (h : task.needs = some name) :
    (task = .load name ∨ task = .store name) ∨ task = .initial name := by
  cases task <;> cases h
  · exact .inl (.inl rfl)
  · exact .inl (.inr rfl)
  · exact .inr rfl

/-! ### What holds at all points -/

/-- What is known at the points of a run, and what it means for the run: `Inv` holds of the variables of
the top level all through, and the run fails only as `Bad` allows. Only where a name is used does it matter
what is known: there may be no such variable, or it may be assigned. -/
structure PointLaw (b : Bounds) where
  Holds : Point → Prop
  Inv : Vars → Prop
  Bad : Fault → Prop
  step {p q : Point} (h : Step b p q) (hp : Holds p) : Holds q
  fault {fault : Fault} (h : ∀ name, fault ≠ .undefined name) : Bad fault
  missing {p : Point} {name : Ident} (hp : Holds p) (hneeds : p.task.needs = some name)
    (h : p.state.binding? name.name = none) : Bad (.undefined name.name)
  assigned {p : Point} {name : Ident} {binding : Binding} {value : Value} (hp : Holds p)
    (htask : p.task = .store name ∨ p.task = .initial name)
    (hbinding : p.state.binding? name.name = some binding) (h : Inv p.state.globals.base) :
    Inv (p.state.replace name.name { binding with value }).globals.base

namespace State

variable {s : State}

theorem base_push (s : State) : (s.mapFrame Frame.pushBlock).globals.base = s.globals.base := by
  obtain ⟨steps, sink, globals, _ | ⟨frame, rest⟩⟩ := s <;> rfl

theorem base_pop (s : State) : (s.mapFrame Frame.popBlock).globals.base = s.globals.base := by
  obtain ⟨steps, sink, globals, _ | ⟨frame, rest⟩⟩ := s <;> rfl

/-- Only what is declared at the top level itself is a variable of the top level. -/
theorem base_declare (h : s.atTopLevel = false) (name : String) (binding : Binding) :
    (s.mapFrame (·.declare name binding)).globals.base = s.globals.base := by
  obtain ⟨steps, sink, ⟨_ | ⟨block, blocks⟩, base⟩, _ | ⟨frame, rest⟩⟩ := s
  · cases h
  all_goals rfl

end State

namespace PointLaw

variable {α β : Type} {b : Bounds}

/-- The computation keeps `Inv`, and fails only as `Bad` allows. -/
def Runs (L : PointLaw b) (p : Run α) (s : State) : Prop :=
  L.Inv s.globals.base →
    Ends p s (fun _ s' => L.Inv s'.globals.base) fun e s' => L.Bad e.fault ∧ L.Inv s'.globals.base

namespace Runs

variable {L : PointLaw b} {p : Run α} {f : α → Run β} {s : State}

theorem pure (a : α) : L.Runs (pure a : Run α) s := id

theorem get {f : State → Run β} (h : L.Runs (f s) s) : L.Runs (get >>= f) s := h

theorem fail {fault : Fault} (span : Span) (h : ∀ name, fault ≠ .undefined name) :
    L.Runs (fail fault span : Run α) s := fun hs => ⟨L.fault h, hs⟩

theorem lift (span : Span) {x : Except Fault α}
    (h : ∀ fault, x = .error fault → ∀ name, fault ≠ .undefined name) : L.Runs (lift span x) s := by
  intro hs
  rw [ends_lift]
  cases x with
  | ok a => exact hs
  | error fault => exact ⟨L.fault (h fault rfl), hs⟩

theorem bind (hp : L.Runs p s) (hf : ∀ a s', p s = .ok a s' → L.Runs (f a) s') : L.Runs (p >>= f) s := by
  intro hs
  rw [ends_bind]
  cases h : p s with
  | ok a s' => exact (ends_of_ok h).2 (hf a s' h ((ends_of_ok h).1 (hp hs)))
  | error e s' => exact (ends_of_error h).2 ((ends_of_error h).1 (hp hs))

theorem tick (span : Span) : L.Runs (tick b span) s := by
  intro hs
  simp only [Run.tick, ends_bind, ends_get, ends_ite, ends_set, ends_pure, ends_fail]
  split
  · exact ⟨L.fault (by simp), hs⟩
  · split
    · exact ⟨L.fault (by simp), hs⟩
    · exact hs

theorem truth (span : Span) (value : Value) : L.Runs (truth span value) s := by
  cases value with
  | bool holds => exact pure holds
  | _ => exact fail span nofun

theorem load {d : Nat} {name : Ident} (h : L.Holds ⟨d, .load name, s⟩) : L.Runs (load name) s := by
  intro hs
  rw [ends_load]
  cases hbinding : s.binding? name.name with
  | none => exact ⟨L.missing h rfl hbinding, hs⟩
  | some binding => exact hs

theorem coerce_ne_undefined {declared : Option Ty} {name : String} {value : Value} {fault : Fault}
    (h : coerce declared name value = .error fault) (other : String) : fault ≠ .undefined other := by
  unfold coerce at h
  split at h
  · cases h
  · cases h
  · cases h
  · split at h <;> cases h
    nofun

theorem store {d : Nat} {task : Task} {name : Ident} (value : Value) (h : L.Holds ⟨d, task, s⟩)
    (htask : task = .store name ∨ task = .initial name) : L.Runs (store name value) s := by
  intro hs
  rw [ends_store]
  cases hbinding : s.binding? name.name with
  | none =>
    have hneeds : task.needs = some name := by
      obtain rfl | rfl := htask <;> rfl
    exact ⟨L.missing h hneeds hbinding, hs⟩
  | some binding =>
    dsimp only
    cases hcoerce : coerce binding.declared name.name value with
    | ok fitted => exact L.assigned h htask hbinding hs
    | error fault => exact ⟨L.fault (coerce_ne_undefined hcoerce), hs⟩

theorem declare (h : s.atTopLevel = false) (name : Ident) (declared : Option Ty) (value : Value) :
    L.Runs (declare name declared value) s := by
  intro hs
  rw [ends_declare]
  cases hcoerce : coerce declared name.name value with
  | ok fitted =>
    dsimp only
    rwa [State.base_declare h]
  | error fault => exact ⟨L.fault (coerce_ne_undefined hcoerce), hs⟩

theorem printLine (line : String) (span : Span) : L.Runs (printLine line span) s := by
  intro hs
  rw [ends_printLine]
  cases hwrite : s.sink.writeLine line with
  | ok sink => exact hs
  | error fault =>
    refine ⟨L.fault ?_, hs⟩
    unfold Sink.writeLine at hwrite
    split at hwrite <;> cases hwrite
    exact fun _ => nofun

theorem inBlock (h : L.Runs p (s.mapFrame Frame.pushBlock)) : L.Runs (inBlock p) s := by
  intro hs
  rw [Run.inBlock, ends_between]
  refine (h ((s.base_push).symm ▸ hs)).mono (fun _ s' hs' => ?_) fun _ s' hs' => ?_
  · rwa [State.base_pop]
  · rwa [State.base_pop]

theorem inCall {params : Vars} (h : L.Runs p (s.enter params)) : L.Runs (inCall params p) s :=
  fun hs => (ends_between _ _ p).2 (h hs)

end Runs

theorem bindParams_ne_undefined {params : List Param} {args : List (Value × Span)} {vars : Vars}
    {failure : Failure} (h : bindParams params args vars = .error failure) (name : String) :
    failure.fault ≠ .undefined name := by
  fun_induction bindParams params args vars with
  | case1 _ _ _ _ _ _ _ _ _ ih => exact ih h
  | case2 _ _ _ _ _ _ _ _ hcoerce =>
    cases h
    exact Runs.coerce_ne_undefined hcoerce name
  | case3 => cases h

/-- The bodies of functions that are called when `d` more calls may nest keep to the law. -/
def Bodies (L : PointLaw b) (d : Nat) : Prop :=
  ∀ d', d = d' + 1 → ∀ path stmts s, L.Holds ⟨d', .stmts path stmts, s⟩ →
    L.Runs (execAll b (invoke b d') path stmts) s

variable {L : PointLaw b} {d : Nat} {s : State}

theorem invoke_runs (hcalls : L.Bodies d) {f : Func} {values : List (Value × Span)} {span : Span}
    (hbody : ∀ d' params, d = d' + 1 → bindParams f.params values .empty = .ok params →
      L.Holds ⟨d', .stmts f.path.inside f.body, s.enter params⟩) :
    L.Runs (invoke b d f values span) s := by
  cases d with
  | zero => exact .fail span fun _ => nofun
  | succ d =>
    unfold invoke
    split
    · next hparams => exact fun hs => ⟨L.fault (bindParams_ne_undefined hparams), hs⟩
    · next params hparams =>
      have hrun := hcalls d rfl _ f.body _ (hbody d params rfl hparams)
      exact .bind (.inCall hrun) fun _ _ _ => .pure _

mutual

theorem eval_runs (hcalls : L.Bodies d) : ∀ (e : Expr) (s : State), L.Holds ⟨d, .expr e, s⟩ →
    L.Runs (eval b (invoke b d) e) s
  | .literal .., _, _ => .pure _
  | .ident _, _, h => .load (L.step .ident h)
  | .assign _ value _, s, h =>
    .bind (eval_runs hcalls value s (L.step .assignValue h)) fun v _ hvalue =>
      .store v (L.step (.assignStore hvalue) h) (.inl rfl)
  | .binary op lhs rhs span, s, h => by
    have hleft := eval_runs hcalls lhs s (L.step .left h)
    unfold eval
    split
    · next decisive hform =>
      refine .bind hleft fun left s₁ h₁ => .bind (.truth _ _) fun holds s₂ h₂ => ?_
      obtain ⟨rfl, rfl⟩ := truth_ok h₂
      split
      · exact .pure _
      · next hne =>
        have hopens : opens op (.bool holds) := by
          intro decisive' hform'
          rw [hform] at hform'
          cases hform'
          cases holds <;> cases decisive <;> simp_all
        exact .bind (eval_runs hcalls rhs s₂ (L.step (.right h₁ hopens) h)) fun _ _ _ =>
          .bind (.truth _ _) fun _ _ _ => .pure _
    · next strict hform =>
      refine .bind hleft fun left s₁ h₁ => ?_
      have hopens : opens op left := fun decisive hform' => by rw [hform] at hform'; cases hform'
      refine .bind (eval_runs hcalls rhs s₁ (L.step (.right h₁ hopens) h)) fun right s₂ _ => ?_
      exact .lift span fun _ => (applyStrict_yields _ op strict left right).ne_undefined
  | .unary op operand span, s, h =>
    .bind (eval_runs hcalls operand s (L.step .operand h)) fun v _ _ =>
      .lift span fun _ => (applyUnary_yields op v).ne_undefined
  | .call callee args span, s, h => by
    unfold eval
    refine .bind (.tick span) fun _ s₁ h₁ => ?_
    refine .bind (eval_runs hcalls callee s₁ (L.step (.callee h₁) h)) fun v s₂ h₂ => ?_
    split
    · next f =>
      refine .bind (evalArgs_runs hcalls args s₂ (L.step (.callArgs h₁ h₂) h)) fun values s₃ h₃ => ?_
      split
      · next harity =>
        refine invoke_runs hcalls ?_
        rintro d' params rfl hparams
        exact L.step (.callBody h₁ h₂ h₃ harity hparams) h
      · exact .fail span fun _ => nofun
    · exact .fail _ fun _ => nofun

theorem evalArgs_runs (hcalls : L.Bodies d) : ∀ (es : List Expr) (s : State),
    L.Holds ⟨d, .args es, s⟩ → L.Runs (evalArgs b (invoke b d) es) s
  | [], _, _ => .pure _
  | e :: es, s, h =>
    .bind (eval_runs hcalls e s (L.step .arg h)) fun _ s' hfirst =>
      .bind (evalArgs_runs hcalls es s' (L.step (.moreArgs hfirst) h)) fun _ _ _ => .pure _

end

theorem evalOption_runs (hcalls : L.Bodies d) (e : Option Expr)
    (h : ∀ e', e = some e' → L.Holds ⟨d, .expr e', s⟩) : L.Runs (evalOption b (invoke b d) e) s := by
  cases e with
  | none => exact .pure _
  | some e => exact eval_runs hcalls e s (h e rfl)

theorem evalCondition_runs (hcalls : L.Bodies d) {cond : Expr} (h : L.Holds ⟨d, .expr cond, s⟩) :
    L.Runs (evalCondition b (invoke b d) cond) s :=
  .bind (eval_runs hcalls cond s h) fun _ _ _ => .truth _ _

theorem asBranch_runs {path : TreePath} {stmt : Stmt}
    (hstmt : ∀ s, L.Holds ⟨d, .stmt path stmt, s⟩ → L.Runs (exec b (invoke b d) path stmt) s)
    (h : L.Holds ⟨d, .branch path stmt, s⟩) :
    L.Runs (asBranch b stmt (exec b (invoke b d) path stmt)) s := by
  unfold asBranch
  split
  · exact hstmt s (L.step .braced h)
  · next hopen =>
    exact .inBlock (.bind (.tick _) fun _ s' htick => hstmt s' (L.step (.unbraced hopen htick) h))

theorem iterate_runs (hcalls : L.Bodies d) {path : TreePath} {cond : Expr} {body : Stmt} {span : Span}
    (hbody : ∀ s, L.Holds ⟨d, .stmt path body, s⟩ → L.Runs (exec b (invoke b d) path body) s) (n : Nat)
    (h : L.Holds ⟨d, .rounds path cond body span n, s⟩) :
    L.Runs (iterate b span (evalCondition b (invoke b d) cond)
      (asBranch b body (exec b (invoke b d) path body)) n) s := by
  induction n generalizing s with
  | zero => exact .bind (.tick span) fun _ _ _ => .pure _
  | succ n ih =>
    unfold iterate
    refine .bind (.tick span) fun _ s₁ h₁ => ?_
    refine .bind (evalCondition_runs hcalls (L.step (.roundCond h₁) h)) fun again s₂ h₂ => ?_
    cases again with
    | false => exact .pure _
    | true =>
      refine .bind (asBranch_runs hbody (L.step (.roundBody h₁ h₂) h)) fun signal s₃ h₃ => ?_
      cases signal with
      | normal => exact ih (L.step (.nextRound h₁ h₂ h₃ (.inl rfl)) h)
      | continued => exact ih (L.step (.nextRound h₁ h₂ h₃ (.inr rfl)) h)
      | broke | returned => exact .pure _

mutual

theorem exec_runs (hcalls : L.Bodies d) : ∀ (path : TreePath) (stmt : Stmt) (s : State),
    L.Holds ⟨d, .stmt path stmt, s⟩ → L.Runs (exec b (invoke b d) path stmt) s
  | _, .varDecl name type init span, s, h => by
    have hinit := evalOption_runs hcalls init (s := s) fun e he => by subst he; exact L.step .init h
    unfold exec
    refine .bind hinit fun v s' hv => .get ?_
    split
    · next htop => exact .bind (.store v (L.step (.initial hv htop) h) (.inr rfl)) fun _ _ _ => .pure _
    · next htop =>
      exact .bind (.declare (Bool.eq_false_iff.2 htop) name _ v) fun _ _ _ => .pure _
  | _, .expr e _, s, h => .bind (eval_runs hcalls e s (L.step .exprStmt h)) fun _ _ _ => .pure _
  | _, .print e _, s, h =>
    .bind (eval_runs hcalls e s (L.step .print h)) fun _ _ _ => .bind (.printLine _ _) fun _ _ _ => .pure _
  | _, .block body _, s, h => .inBlock (execAll_runs hcalls _ body _ (L.step .block h))
  | _, .branch cond thenStmt none _, s, h => by
    unfold exec
    refine .bind (evalCondition_runs hcalls (L.step .cond h)) fun holds s' hholds => ?_
    cases holds with
    | true => exact asBranch_runs (exec_runs hcalls _ thenStmt) (L.step (.thenBranch hholds) h)
    | false => exact .pure _
  | _, .branch cond thenStmt (some elseStmt) _, s, h => by
    unfold exec
    refine .bind (evalCondition_runs hcalls (L.step .cond h)) fun holds s' hholds => ?_
    cases holds with
    | true => exact asBranch_runs (exec_runs hcalls _ thenStmt) (L.step (.thenBranch hholds) h)
    | false => exact asBranch_runs (exec_runs hcalls _ elseStmt) (L.step (.elseBranch hholds) h)
  | _, .loop cond body span, s, h => iterate_runs hcalls (exec_runs hcalls _ body) _ (L.step .loop h)
  | _, .function name params body _ _, s, _ => by
    unfold exec
    refine .get ?_
    split
    · next htop =>
      rw [Bool.not_eq_true'] at htop
      exact .bind (.declare htop name none _) fun _ _ _ => .pure _
    · exact .pure _
  | _, .returnWith value _, s, h =>
    .bind (evalOption_runs hcalls value fun e he => by subst he; exact L.step .returned h)
      fun _ _ _ => .pure _
  | _, .breakLoop _, _, _ | _, .continueLoop _, _, _ => .pure _

theorem execAll_runs (hcalls : L.Bodies d) : ∀ (path : TreePath) (stmts : List Stmt) (s : State),
    L.Holds ⟨d, .stmts path stmts, s⟩ → L.Runs (execAll b (invoke b d) path stmts) s
  | _, [], _, _ => .pure _
  | path, stmt :: stmts, s, h => by
    unfold execAll
    refine .bind (.tick stmt.span) fun _ s₁ h₁ => ?_
    refine .bind (exec_runs hcalls path stmt s₁ (L.step (.first h₁) h)) fun signal s₂ h₂ => ?_
    cases signal with
    | normal => exact execAll_runs hcalls path.next stmts s₂ (L.step (.rest h₁ h₂) h)
    | broke | continued | returned => exact .pure _

end

theorem bodies (L : PointLaw b) (d : Nat) : L.Bodies d := by
  -- The body of a function is no part of the call, so the calls that may still nest are counted.
  induction d with
  | zero => nofun
  | succ d ih =>
    rintro _ ⟨⟩ path stmts s h
    exact execAll_runs ih path stmts s h

end PointLaw

/-! ### Runs that miss no variable -/

/-- All points that are reached have the variable that they need. -/
def Safe (b : Bounds) (p : Point) : Prop :=
  ∀ q, Reaches b p q → ∀ name, q.task.needs = some name → (q.state.binding? name.name).isSome

/-- A run all of whose points have the variable that they need does not miss one. -/
def safety (b : Bounds) : PointLaw b where
  Holds := Safe b
  Inv _ := True
  Bad fault := ∀ name, fault ≠ .undefined name
  step hq h := fun _ hr => h _ (.head hq hr)
  fault h := h
  missing {p name} h hneeds hmissing := by
    have hsome := h p .refl name hneeds
    rw [hmissing] at hsome
    cases hsome
  assigned _ _ _ _ := trivial

/-! ### What is reported -/

theorem head_append {s t : String} {c : Char} (h : s.toList.head? = some c) :
    (s ++ t).toList.head? = some c := by
  rw [String.toList_append, List.head?_append, h, Option.some_or]

/-- The first letter of the message. -/
def Fault.letter : Fault → Char
  | divisionByZero => 'd'
  | moduloByZero | stackOverflow _ => 'm'
  | stepBudget _ | valueTooLarge _ => 's'
  | deadline _ => 'e'
  | undefined _ => 'u'
  | conditionNotBool _ | storeMismatch .. => 'c'
  | operands .. | operand .. | outputLimit _ => 'o'
  | notCallable _ => 'v'
  | integerOverflow _ => 'i'
  | arity .. => 'f'

theorem Fault.head_message (fault : Fault) : fault.message.toList.head? = some fault.letter := by
  cases fault with
  | divisionByZero | moduloByZero => rfl
  | conditionNotBool => exact head_append rfl
  | stackOverflow | stepBudget | deadline | undefined | notCallable | integerOverflow | outputLimit
  | valueTooLarge => exact head_append (head_append rfl)
  | operand => exact head_append (head_append (head_append rfl))
  | storeMismatch | operands | arity =>
    exact head_append (head_append (head_append (head_append (head_append rfl))))

theorem Fault.letter_eq {fault fault' : Fault} (h : fault.message = fault'.message) :
    fault.letter = fault'.letter := by
  have hhead := congrArg (fun message : String => message.toList.head?) h
  simp only [Fault.head_message] at hhead
  exact Option.some.inj hhead

/-- The message of an undefined variable begins as no other does. -/
theorem undefined_of_message {fault : Fault} {name : String}
    (h : fault.message = (Fault.undefined name).message) : ∃ other, fault = .undefined other := by
  have hletter := Fault.letter_eq h
  cases fault with
  | undefined other => exact ⟨other, rfl⟩
  | _ => cases hletter

end Run

open Run

namespace Program

/-- The point where the run of a program begins. -/
def start (b : Bounds) (p : Program) : Point :=
  ⟨b.limits.maxCallDepth, .stmts .first p.items, initial b p.items⟩

/-- A run all of whose points have the variable that they need does not end for want of one. -/
theorem not_undefined {b : Bounds} {p : Program} (h : Safe b (p.start b)) {failure : Failure} {s : State}
    (hend : execAll b (invoke b b.limits.maxCallDepth) .first p.items (initial b p.items) = .error failure s)
    (name : String) : failure.fault ≠ .undefined name := by
  have hrun := (safety b).execAll_runs ((safety b).bodies _) .first p.items (initial b p.items) h trivial
  exact ((ends_of_error hend).1 hrun).1 name

/-- Such a run reports no undefined variable. -/
theorem execute_defined {b : Bounds} {p : Program} (h : Safe b (p.start b)) :
    ∀ d ∈ (p.execute b).diagnostics, ∀ name, d.message ≠ (Fault.undefined name).message := by
  intro d hd name hmessage
  unfold execute at hd
  split at hd
  · cases hd
  · next failure s' herror =>
    obtain rfl := List.mem_singleton.1 hd
    obtain ⟨other, hother⟩ := undefined_of_message hmessage
    exact not_undefined h herror other hother

end Program

end Scriptlet
