import Scriptlet.Proofs.Progress

/-!
# Runs stay within their bounds

Every run ends, and in all states that occur in it the bounds are kept (`Within`): the steps, the calls
that are active, the output, which is always made up of whole lines, and the length of strings, where a
string literal of the program may be longer than the bound (`Program.execute_bounded`).
-/

namespace Scriptlet

/-! ### String literals -/

mutual

/-- The string literals of an expression. -/
def Expr.strings : Expr → List String
  | .literal (.str s) _ => [s]
  | .literal _ _ => []
  | .ident _ => []
  | .assign _ value _ => value.strings
  | .binary _ lhs rhs _ => lhs.strings ++ rhs.strings
  | .unary _ operand _ => operand.strings
  | .call callee args _ => callee.strings ++ Expr.stringsAll args

def Expr.stringsAll : List Expr → List String
  | [] => []
  | e :: es => e.strings ++ Expr.stringsAll es

end

def Expr.stringsOption : Option Expr → List String
  | none => []
  | some e => e.strings

mutual

/-- The string literals of a statement, those in the bodies of functions included. -/
def Stmt.strings : Stmt → List String
  | .varDecl _ _ init _ => Expr.stringsOption init
  | .expr e _ => e.strings
  | .print e _ => e.strings
  | .block body _ => Stmt.stringsAll body
  | .branch cond thenStmt none _ => cond.strings ++ thenStmt.strings
  | .branch cond thenStmt (some elseStmt) _ => cond.strings ++ (thenStmt.strings ++ elseStmt.strings)
  | .loop cond body _ => cond.strings ++ body.strings
  | .function _ _ body _ _ => Stmt.stringsAll body
  | .returnWith value _ => Expr.stringsOption value
  | .breakLoop _ | .continueLoop _ => []

def Stmt.stringsAll : List Stmt → List String
  | [] => []
  | stmt :: stmts => stmt.strings ++ Stmt.stringsAll stmts

end

/-- The length of the longest string literal of a program, in bytes. -/
def Program.longestString (p : Program) : Nat :=
  (Stmt.stringsAll p.items).foldr (fun s most => max s.utf8ByteSize most) 0

/-- No text of the list is longer than `most`. -/
abbrev Fit (most : Nat) (texts : List String) : Prop := ∀ s ∈ texts, s.utf8ByteSize ≤ most

theorem Program.fit_longestString (p : Program) {most : Nat} (h : p.longestString ≤ most) :
    Fit most (Stmt.stringsAll p.items) := by
  unfold longestString at h
  generalize Stmt.stringsAll p.items = texts at h
  induction texts with
  | nil => nofun
  | cons s texts ih =>
    rw [List.foldr_cons, Nat.max_le] at h
    exact List.forall_mem_cons.2 ⟨h.1, ih h.2⟩

/-- The value is no longer than `most`, and no string literal of a function is. -/
def Value.Fits (most : Nat) : Value → Prop
  | str s => s.utf8ByteSize ≤ most
  | function f => Fit most (Stmt.stringsAll f.body)
  | _ => True

variable {most : Nat}

theorem Value.Fits.str {v : Value} (h : v.Fits most) : ∀ text, v = .str text → text.utf8ByteSize ≤ most := by
  rintro text rfl
  exact h

mutual

theorem Expr.constants_fit : ∀ e : Expr, Fit most e.strings → ∀ v ∈ e.constants, v.Fits most
  | .literal value _, h => by
    intro v hv
    obtain rfl := List.mem_singleton.1 hv
    cases value with
    | str s => exact h s List.mem_cons_self
    | _ => trivial
  | .ident _, _ => nofun
  | .assign _ value _, h => Expr.constants_fit value h
  | .binary _ lhs rhs _, h => by
    obtain ⟨hlhs, hrhs⟩ := List.forall_mem_append.1 h
    exact List.forall_mem_append.2 ⟨Expr.constants_fit lhs hlhs, Expr.constants_fit rhs hrhs⟩
  | .unary _ operand _, h => Expr.constants_fit operand h
  | .call callee args _, h => by
    obtain ⟨hcallee, hargs⟩ := List.forall_mem_append.1 h
    exact List.forall_mem_append.2 ⟨Expr.constants_fit callee hcallee, Expr.constantsAll_fit args hargs⟩

theorem Expr.constantsAll_fit : ∀ es : List Expr, Fit most (Expr.stringsAll es) →
    ∀ v ∈ Expr.constantsAll es, v.Fits most
  | [], _ => nofun
  | e :: es, h => by
    obtain ⟨he, hes⟩ := List.forall_mem_append.1 h
    exact List.forall_mem_append.2 ⟨Expr.constants_fit e he, Expr.constantsAll_fit es hes⟩

end

theorem Expr.constantsOption_fit (e : Option Expr) (h : Fit most (Expr.stringsOption e)) :
    ∀ v ∈ Expr.constantsOption e, v.Fits most := by
  cases e with
  | none => nofun
  | some e => exact e.constants_fit h

mutual

theorem Stmt.constants_fit : ∀ (path : TreePath) (stmt : Stmt), Fit most stmt.strings →
    ∀ v ∈ Stmt.constants path stmt, v.Fits most
  | _, .varDecl _ _ init _, h => Expr.constantsOption_fit init h
  | _, .expr e _, h => e.constants_fit h
  | _, .print e _, h => e.constants_fit h
  | _, .block body _, h => Stmt.constantsAll_fit _ body h
  | _, .branch cond thenStmt none _, h => by
    obtain ⟨hcond, hthen⟩ := List.forall_mem_append.1 h
    exact List.forall_mem_append.2 ⟨cond.constants_fit hcond, Stmt.constants_fit _ thenStmt hthen⟩
  | _, .branch cond thenStmt (some elseStmt) _, h => by
    obtain ⟨hcond, hbranches⟩ := List.forall_mem_append.1 h
    obtain ⟨hthen, helse⟩ := List.forall_mem_append.1 hbranches
    exact List.forall_mem_append.2 ⟨cond.constants_fit hcond, List.forall_mem_append.2
      ⟨Stmt.constants_fit _ thenStmt hthen, Stmt.constants_fit _ elseStmt helse⟩⟩
  | _, .loop cond body _, h => by
    obtain ⟨hcond, hbody⟩ := List.forall_mem_append.1 h
    exact List.forall_mem_append.2 ⟨cond.constants_fit hcond, Stmt.constants_fit _ body hbody⟩
  | _, .function _ _ body _ _, h => by
    intro v hv
    obtain rfl := List.mem_singleton.1 hv
    exact h
  | _, .returnWith value _, h => Expr.constantsOption_fit value h
  | _, .breakLoop _, _ | _, .continueLoop _, _ => nofun

theorem Stmt.constantsAll_fit : ∀ (path : TreePath) (stmts : List Stmt), Fit most (Stmt.stringsAll stmts) →
    ∀ v ∈ Stmt.constantsAll path stmts, v.Fits most
  | _, [], _ => nofun
  | _, stmt :: stmts, h => by
    obtain ⟨hstmt, hstmts⟩ := List.forall_mem_append.1 h
    exact List.forall_mem_append.2 ⟨Stmt.constants_fit _ stmt hstmt, Stmt.constantsAll_fit _ stmts hstmts⟩

end

namespace Run

variable {b : Bounds}

theorem Plain.fits {v : Value} (h : Plain (.ok v)) : v.Fits most := by
  cases v with
  | str s => simp [Plain, Value.type] at h
  | function f => simp [Plain, Value.type] at h
  | _ => trivial

/-- A string that is computed is within the bound on strings. -/
def fitting (b : Bounds) (most : Nat) (hmost : b.limits.maxValueBytes ≤ most) : ValueLaw b where
  Holds := Value.Fits most
  nil := trivial
  bool _ := trivial
  float _ := trivial
  strict {op strict lhs rhs v} h := by
    rcases applyStrict_cases op strict lhs rhs with ⟨s, t, hc⟩ | ⟨result, hplain, hc⟩ <;> rw [hc] at h
    · unfold concat at h
      split at h <;> cases h
      next hsize =>
        show (s ++ t).utf8ByteSize ≤ most
        rw [String.utf8ByteSize_append]
        omega
    · subst h
      exact hplain.fits
  unary {op operand v} h := by
    have hplain := applyUnary_plain op operand
    rw [h] at hplain
    exact hplain.fits
  body hf := Stmt.constantsAll_fit _ _ hf

/-! ### The states of a run -/

/-- A computation from `s` comes to an end, or fails, in `s'`. -/
def Leaves {α : Type} (p : Run α) (s s' : State) : Prop :=
  (∃ a, p s = .ok a s') ∨ ∃ e, p s = .error e s'

/-- The states that occur in a run: those from which a part of the program is run, and those that an
expression, a statement or a row of statements leaves, also if it fails. -/
inductive Occurs (b : Bounds) (p : Point) : State → Prop
  | before {q : Point} (h : Reaches b p q) : Occurs b p q.state
  | afterExpr {d : Nat} {e : Expr} {s s' : State} (h : Reaches b p ⟨d, .expr e, s⟩)
      (hend : Leaves (eval b (invoke b d) e) s s') : Occurs b p s'
  | afterStmt {d : Nat} {path : TreePath} {stmt : Stmt} {s s' : State}
      (h : Reaches b p ⟨d, .stmt path stmt, s⟩) (hend : Leaves (exec b (invoke b d) path stmt) s s') :
      Occurs b p s'
  | afterStmts {d : Nat} {path : TreePath} {stmts : List Stmt} {s s' : State}
      (h : Reaches b p ⟨d, .stmts path stmts, s⟩) (hend : Leaves (execAll b (invoke b d) path stmts) s s') :
      Occurs b p s'

/-- The bounds are kept, and no string is longer than `most`. -/
structure Within (b : Bounds) (most : Nat) (s : State) : Prop where
  steps : s.steps ≤ b.limits.stepBudget
  calls : s.calls.length ≤ b.limits.maxCallDepth
  lines : WholeLines s.sink.text
  output : s.sink.text.utf8ByteSize ≤ b.limits.maxOutputBytes
  strings : s.All fun binding => ∀ text, binding.value = .str text → text.utf8ByteSize ≤ most

theorem Carries.of_leaves {α : Type} {V : ValueLaw b} {P : α → Prop} {p : Run α} {s s' : State}
    (h : Follows V (progress b) P p) (hs : s.Held V.Holds) (hend : Leaves p s s') : Carries V s s' := by
  rcases hend with ⟨a, hok⟩ | ⟨e, herror⟩
  · exact .of_ok h hs hok
  · obtain ⟨hs', hlater, -⟩ := h.of_error hs herror
    exact ⟨hs', hlater⟩

/-- A state that a part of the program leaves behind keeps the law of values, and comes after the start. -/
theorem Reaches.leaves {α : Type} {V : ValueLaw b} {P : α → Prop} {r : Run α} {p : Point} {d : Nat} {task : Task}
    {s s' : State} (h : Reaches b p ⟨d, task, s⟩) (hp : p.Held V)
    (hfollows : (∀ v ∈ task.constants, V.Holds v) → Follows V (progress b) P r) (hend : Leaves r s s') :
    s'.Held V.Holds ∧ ∃ d task, p.gauge.Later b (Point.mk d task s').gauge := by
  obtain ⟨hheld, hlater⟩ := h.follows hp
  have hcarries := Carries.of_leaves (hfollows hheld.constants) hheld.vars hend
  exact ⟨hcarries.vars, d, task, hlater.trans (hcarries.point hheld.constants).2⟩

theorem Occurs.follows {V : ValueLaw b} {p : Point} {s : State} (h : Occurs b p s) (hp : p.Held V) :
    s.Held V.Holds ∧ ∃ d task, p.gauge.Later b (Point.mk d task s).gauge := by
  have hcalls (d : Nat) := invoke_follows V (progress b) d
  cases h with
  | @before q h =>
    obtain ⟨hheld, hlater⟩ := h.follows hp
    exact ⟨hheld.vars, q.depth, q.task, hlater⟩
  | afterExpr h hend => exact h.leaves hp (eval_follows (hcalls _) _) hend
  | afterStmt h hend => exact h.leaves hp (exec_follows (hcalls _) _ _) hend
  | afterStmts h hend => exact h.leaves hp (execAll_follows (hcalls _) _ _) hend

end Run

open Run

namespace Program

variable {b : Bounds} {p : Program}

/-- A string may be as long as the bound says, or as the longest literal. -/
def mostBytes (b : Bounds) (p : Program) : Nat := max b.limits.maxValueBytes p.longestString

/-- The law that all strings are within that length. -/
def stringLaw (b : Bounds) (p : Program) : ValueLaw b :=
  fitting b (p.mostBytes b) (Nat.le_max_left _ _)

theorem start_held (b : Bounds) (p : Program) : (p.start b).Held (p.stringLaw b) := by
  have hconstants : ∀ v ∈ Stmt.constantsAll .first p.items, v.Fits (p.mostBytes b) :=
    Stmt.constantsAll_fit _ _ (p.fit_longestString (Nat.le_max_right _ _))
  exact ⟨hconstants, ⟨(p.stringLaw b).hoist hconstants .empty, nofun⟩, nofun⟩

/-- What is later than the start is within the bounds. -/
theorem within_of_later {d : Nat} {task : Task} {s : State} (hs : s.Held (p.stringLaw b).Holds)
    (h : (p.start b).gauge.Later b (Point.mk d task s).gauge) : Within b (p.mostBytes b) s where
  steps := h.budget (Nat.zero_le _)
  calls := by
    have hframes : d + s.calls.length = b.limits.maxCallDepth := h.frames
    omega
  lines := by
    obtain ⟨more, hmore, htext⟩ := h.output
    have hstart : (p.start b).gauge.sink.text = "" := rfl
    rw [hstart, String.empty_append] at htext
    exact (congrArg WholeLines htext).mpr hmore
  output := by
    have hroom := h.room (Nat.zero_le _)
    rwa [h.limit] at hroom
  strings := hs.mono fun _ => Value.Fits.str

theorem reaches_follows {q : Point} (h : Reaches b (p.start b) q) :
    q.Held (p.stringLaw b) ∧ (p.start b).gauge.Later b q.gauge :=
  h.follows (start_held b p)

theorem occurs_within {s : State} (h : Occurs b (p.start b) s) : Within b (p.mostBytes b) s := by
  obtain ⟨hheld, d, task, hlater⟩ := h.follows (start_held b p)
  exact within_of_later hheld hlater

theorem eval_within {d : Nat} {e : Expr} {s s' : State} {text : String}
    (h : Reaches b (p.start b) ⟨d, .expr e, s⟩) (heval : eval b (invoke b d) e s = .ok (.str text) s') :
    text.utf8ByteSize ≤ p.mostBytes b := by
  have hheld := (reaches_follows h).1
  have hfollows := eval_follows (invoke_follows (p.stringLaw b) (progress b) d) e hheld.constants
  exact (hfollows.of_ok hheld.vars heval).1

/-- The number of rounds that a loop may go is never what ends it. -/
theorem rounds_ample {d n m : Nat} {path : TreePath} {cond : Expr} {body : Stmt} {span : Span} {s : State}
    (h : Reaches b (p.start b) ⟨d, .rounds path cond body span n, s⟩) (hm : n ≤ m) :
    iterate b span (evalCondition b (invoke b d) cond) (asBranch b body (exec b (invoke b d) path body)) m s =
      iterate b span (evalCondition b (invoke b d) cond) (asBranch b body (exec b (invoke b d) path body)) n s := by
  have hany (values : List Value) : ∀ v ∈ values, (anyValue b).Holds v := fun _ _ => trivial
  have hample := h.invariant (I := fun q => q.Ample b) (fun _ _ => Step.ample) nofun
  refine iterate_more (fun hcond => ?_) (fun hround => ?_) (hample _ _ _ _ _ rfl) hm
  · exact (Carries.evalCondition (hany _) (any_held _) hcond).later.steps
  · exact (Carries.branch (hany _) (any_held _) hround).later.steps

/-! ### What comes of a run -/

/-- The message about spent steps begins as that about spent time does not. -/
theorem stepBudget_of_diagnostic {failure : Failure} {n : Nat} {span : Span}
    (h : (⟨.stepBudget n, span⟩ : Failure).diagnostic = failure.diagnostic) :
    ∃ m, failure.fault = .stepBudget m := by
  obtain ⟨fault, _⟩ := failure
  have hcode : Code.timeout = fault.code := congrArg Diagnostic.code h
  have hmessage : (Fault.stepBudget n).message = fault.message := congrArg Diagnostic.message h
  have hletter := Fault.letter_eq hmessage
  cases fault with
  | stepBudget m => exact ⟨m, rfl⟩
  | deadline => cases hletter
  | _ => cases hcode

/-- How a run is reported: without a diagnostic, or with one that says whether steps or time ran out. -/
theorem execute_reports (b : Bounds) (p : Program) :
    ((p.execute b).diagnostics = [] ↔ (p.execute b).status = .ok) ∧
    ((p.execute b).status ≠ .ok → (p.execute b).diagnostics.length = 1) ∧
    ((p.execute b).status = .timeout ↔ ∃ d ∈ (p.execute b).diagnostics, d.code = .timeout) := by
  unfold execute
  split
  · simp
  · next failure s hrun =>
    have hok : failure.status ≠ .ok := by
      unfold Failure.status
      split <;> nofun
    have htimeout : failure.status = .timeout ↔ failure.diagnostic.code = .timeout := by
      unfold Failure.status Fault.isTimeout
      split <;> simp_all [Failure.diagnostic]
    simp [hok, htimeout]

/-- What a run is reported to have done is what the state at its end says. -/
theorem execute_occurs (b : Bounds) (p : Program) : ∃ s, Occurs b (p.start b) s ∧
    (p.execute b).steps = s.steps ∧ (p.execute b).output = s.sink.text := by
  unfold execute
  split
  · next signal s hrun => exact ⟨s, .afterStmts .refl (.inl ⟨signal, hrun⟩), rfl, rfl⟩
  · next failure s hrun => exact ⟨s, .afterStmts .refl (.inr ⟨failure, hrun⟩), rfl, rfl⟩

theorem execute_spent {n : Nat} {span : Span}
    (h : (⟨.stepBudget n, span⟩ : Failure).diagnostic ∈ (p.execute b).diagnostics) :
    (p.execute b).steps = b.limits.stepBudget := by
  have hwithin : (p.execute b).steps ≤ b.limits.stepBudget := by
    obtain ⟨s, hs, hsteps, -⟩ := execute_occurs b p
    exact hsteps ▸ (occurs_within hs).steps
  unfold execute at h hwithin ⊢
  split at h
  · cases h
  · next failure s hrun =>
    obtain ⟨m, hm⟩ := stepBudget_of_diagnostic (List.mem_singleton.1 h)
    have hheld := start_held b p
    have hcalls := invoke_follows (p.stringLaw b) (progress b) b.limits.maxCallDepth
    have hfollows := execAll_follows hcalls .first p.items hheld.constants
    have hspent := (hfollows.of_error hheld.vars hrun).2.2 m hm
    rw [hrun] at hwithin
    exact Nat.le_antisymm hwithin hspent

/-- Every run ends within its bounds. There is no way to go on forever from one part of the program to
the next, and this is not because rounds and calls are counted: more rounds of a loop would change
nothing, and the calls that may still nest are those that are not active. In every state that occurs the
bounds on steps, calls, output and strings are kept; no string that is computed is longer than the bound
or the longest literal. The outcome is that of one of these states. It has no diagnostic if the run
succeeded, and else one, which is about a timeout exactly if the status is; and if the steps are reported
to be spent, all of them have been taken. -/
theorem execute_bounded (b : Bounds) (p : Program) :
    let start := p.start b
    let most := max b.limits.maxValueBytes p.longestString
    let outcome := p.execute b
    (WellFounded fun q r : Point => Step b r q) ∧
    (∀ d path cond body span n m s, Reaches b start ⟨d, .rounds path cond body span n, s⟩ → n ≤ m →
      iterate b span (evalCondition b (invoke b d) cond) (asBranch b body (exec b (invoke b d) path body)) m s =
        iterate b span (evalCondition b (invoke b d) cond) (asBranch b body (exec b (invoke b d) path body)) n s) ∧
    (∀ q, Reaches b start q → q.depth + q.state.calls.length = b.limits.maxCallDepth) ∧
    (∀ s, Occurs b start s → Within b most s) ∧
    (∀ d e s text s', Reaches b start ⟨d, .expr e, s⟩ → eval b (invoke b d) e s = .ok (.str text) s' →
      text.utf8ByteSize ≤ most) ∧
    (∃ s, Occurs b start s ∧ outcome.steps = s.steps ∧ outcome.output = s.sink.text) ∧
    (outcome.diagnostics = [] ↔ outcome.status = .ok) ∧
    (outcome.status ≠ .ok → outcome.diagnostics.length = 1) ∧
    (outcome.status = .timeout ↔ ∃ d ∈ outcome.diagnostics, d.code = .timeout) ∧
    ∀ n span, (⟨.stepBudget n, span⟩ : Failure).diagnostic ∈ outcome.diagnostics →
      outcome.steps = b.limits.stepBudget := by
  obtain ⟨hempty, hone, htimeout⟩ := execute_reports b p
  exact ⟨step_wellFounded b, fun _ _ _ _ _ _ _ _ => rounds_ample, fun q hq => (reaches_follows hq).2.frames,
    fun _ => occurs_within, fun _ _ _ _ _ => eval_within, execute_occurs b p, hempty, hone, htimeout,
    fun _ _ => execute_spent⟩

end Program

end Scriptlet
