import Scriptlet.Check

/-!
# Checks that pass

`x.Passes strict log`: the check `x` reports no error, and all that it has looked up is in `log`. It may
warn, unless `strict` is set. A check passes if its parts do, so in a program that passes every expression
and every statement passes where it stands, and every name is found. `x.errors` are the errors that a check
reports, whether it passes or not.
-/

namespace Scriptlet

namespace Checked

variable {α β : Type} {strict : Bool} {log : List (Ident × Lookup)}

structure Passes (strict : Bool) (log : List (Ident × Lookup)) (x : Checked α) : Prop where
  clean : ∀ d ∈ x.diagnostics, strict = false ∧ d.severity ≠ .error
  logged : ∀ entry ∈ x.lookups, entry ∈ log

@[simp] theorem passes_pure (a : α) : (pure a : Checked α).Passes strict log :=
  ⟨List.forall_mem_nil _, List.forall_mem_nil _⟩

@[simp] theorem passes_bind (x : Checked α) (f : α → Checked β) :
    (x >>= f).Passes strict log ↔ x.Passes strict log ∧ (f x.value).Passes strict log := by
  constructor
  · rintro ⟨hclean, hlogged⟩
    rw [diagnostics_bind, List.forall_mem_append] at hclean
    rw [lookups_bind, List.forall_mem_append] at hlogged
    exact ⟨⟨hclean.1, hlogged.1⟩, ⟨hclean.2, hlogged.2⟩⟩
  · rintro ⟨hx, hf⟩
    exact ⟨List.forall_mem_append.2 ⟨hx.clean, hf.clean⟩,
      List.forall_mem_append.2 ⟨hx.logged, hf.logged⟩⟩

@[simp] theorem passes_report (f : Check.Fault) (span : Span) :
    (report f span).Passes strict log ↔ strict = false ∧ f.code.isWarning = true := by
  constructor
  · intro h
    obtain ⟨hstrict, hseverity⟩ := h.clean _ List.mem_cons_self
    cases hwarning : f.code.isWarning with
    | true => exact ⟨hstrict, rfl⟩
    | false => simp [Check.Fault.diagnostic, hwarning] at hseverity
  · rintro ⟨hstrict, hwarning⟩
    refine ⟨?_, List.forall_mem_nil _⟩
    simp [report, Check.Fault.diagnostic, hstrict, hwarning]

@[simp] theorem passes_record (name : Ident) (found : Lookup) :
    (record name found).Passes strict log ↔ (name, found) ∈ log :=
  ⟨fun h => h.logged _ List.mem_cons_self,
    fun h => ⟨List.forall_mem_nil _, by simpa [record] using h⟩⟩

/-- What is reported as an error, and not as a warning. -/
def errors (x : Checked α) : List Diagnostic := x.diagnostics.filter (·.severity = .error)

@[simp] theorem errors_pure (a : α) : (pure a : Checked α).errors = [] := rfl

@[simp] theorem errors_bind (x : Checked α) (f : α → Checked β) :
    (x >>= f).errors = x.errors ++ (f x.value).errors := List.filter_append ..

@[simp] theorem errors_record (name : Ident) (found : Lookup) : (record name found).errors = [] := rfl

theorem errors_report (f : Check.Fault) (span : Span) :
    (report f span).errors = if f.code.isWarning then [] else [f.diagnostic span] := by
  cases hwarning : f.code.isWarning <;> simp [errors, report, Check.Fault.diagnostic, hwarning]

/-- Without errors a check passes. -/
theorem passes_of_errors {x : Checked α} (h : x.errors = []) : x.Passes false x.lookups := by
  refine ⟨fun d hd => ⟨rfl, fun hseverity => ?_⟩, fun _ hentry => hentry⟩
  have hmem : d ∈ x.errors := List.mem_filter.2 ⟨hd, by rw [hseverity]; rfl⟩
  rw [h] at hmem
  cases hmem

end Checked

/-- The errors among the reports of a check. -/
def CheckResult.errors (r : CheckResult) : List Diagnostic := r.diagnostics.filter (·.severity = .error)

theorem Program.errors_check (p : Program) : p.check.errors =
    (Check.declareGlobals p.items >>= fun tree => Check.checkStmts .top tree false p.items).errors := rfl

namespace Check

variable {strict : Bool} {log : List (Ident × Lookup)} {v : View} {c : Context} {tree : ScopeTree}

-- The lemmas below are about one equation each; they are all made here, and not by every lemma on its own.
attribute [local simp] checkExpr checkArgs checkStmt checkStmts

/-- A name passes if it is found. -/
theorem symbol_passes {name : Ident} (h : (v.symbol name).Passes strict log) :
    ∃ symbol, v.tree.lookup v.scope name.name = .found symbol ∧ (name, .found symbol) ∈ log ∧
      (v.symbol name).value = some symbol := by
  simp only [View.symbol, Checked.passes_bind, Checked.passes_record] at h ⊢
  obtain ⟨hlog, h⟩ := h
  cases hlookup : v.tree.lookup v.scope name.name with
  | found symbol =>
    rw [hlookup] at hlog
    exact ⟨symbol, rfl, hlog, rfl⟩
  | notYetDeclared span => simp [hlookup, Fault.code, Code.isWarning] at h
  | missing => simp [hlookup, Fault.code, Code.isWarning] at h

theorem readSymbol_value {name : Ident} {symbol : Symbol} (h : (v.symbol name).value = some symbol) :
    (v.readSymbol name).value = some symbol := by
  simp only [View.readSymbol, Checked.value_bind, h]
  split <;> rfl

/-- Outside of functions, a name that is read without a warning has a value. -/
theorem readSymbol_passes {name : Ident} (houtside : v.inFunction = false)
    (h : (v.readSymbol name).Passes true log) :
    ∃ symbol, v.tree.lookup v.scope name.name = .found symbol ∧ (name, .found symbol) ∈ log ∧
      (symbol.initialized = false → symbol.depth ≠ 0) ∧ (v.readSymbol name).value = some symbol := by
  simp only [View.readSymbol, Checked.passes_bind] at h
  obtain ⟨symbol, hlookup, hlog, hvalue⟩ := symbol_passes h.1
  refine ⟨symbol, hlookup, hlog, ?_, readSymbol_value hvalue⟩
  intro hinit hdepth
  simp [hvalue, hinit, hdepth, houtside] at h

theorem ident_passes {name : Ident} (h : (checkExpr v (.ident name)).Passes strict log) :
    (v.symbol name).Passes strict log := by
  simp only [checkExpr, View.readSymbol, Checked.passes_bind] at h
  exact h.1.1

theorem assign_passes {target : Ident} {value : Expr} {span : Span}
    (h : (checkExpr v (.assign target value span)).Passes strict log) :
    (checkExpr v value).Passes strict log ∧ (v.symbol target).Passes strict log := by
  simp only [checkExpr, Checked.passes_bind] at h
  exact ⟨h.1, h.2.1⟩

/-- What is assigned to may be assigned to, and takes the value. -/
theorem assign_accepts {target : Ident} {value : Expr} {span : Span} {symbol : Symbol}
    (h : (checkExpr v (.assign target value span)).Passes strict log)
    (hsymbol : (v.symbol target).value = some symbol) :
    symbol.kind.isFunction = false ∧ symbol.type.accepts (checkExpr v value).value = true := by
  simp only [checkExpr, Checked.passes_bind, hsymbol, checkAssign] at h
  cases hkind : symbol.kind.isFunction with
  | true => simp [hkind, Fault.code, Code.isWarning] at h
  | false =>
    cases haccepts : symbol.type.accepts (checkExpr v value).value with
    | true => exact ⟨rfl, rfl⟩
    | false => simp [hkind, haccepts, Fault.code, Code.isWarning] at h

theorem binary_passes {op : BinaryOp} {lhs rhs : Expr} {span : Span}
    (h : (checkExpr v (.binary op lhs rhs span)).Passes strict log) :
    (checkExpr v lhs).Passes strict log ∧ (checkExpr v rhs).Passes strict log := by
  simp only [checkExpr, Checked.passes_bind] at h
  exact ⟨h.1, h.2.1⟩

/-- An operator passes if it takes its operands. -/
theorem binary_result {op : BinaryOp} {lhs rhs : Expr} {span : Span}
    (h : (checkExpr v (.binary op lhs rhs span)).Passes strict log) :
    op.result? (checkExpr v lhs).value (checkExpr v rhs).value =
      some (checkExpr v (.binary op lhs rhs span)).value := by
  simp only [checkExpr, Checked.passes_bind, Checked.value_bind] at h ⊢
  cases hresult : op.result? (checkExpr v lhs).value (checkExpr v rhs).value with
  | some type => rfl
  | none => simp [hresult, Fault.code, Code.isWarning] at h

theorem unary_passes {op : UnaryOp} {operand : Expr} {span : Span}
    (h : (checkExpr v (.unary op operand span)).Passes strict log) :
    (checkExpr v operand).Passes strict log := by
  simp only [checkExpr, Checked.passes_bind] at h
  exact h.1

theorem unary_result {op : UnaryOp} {operand : Expr} {span : Span}
    (h : (checkExpr v (.unary op operand span)).Passes strict log) :
    op.result? (checkExpr v operand).value = some (checkExpr v (.unary op operand span)).value := by
  simp only [checkExpr, Checked.passes_bind, Checked.value_bind] at h ⊢
  cases hresult : op.result? (checkExpr v operand).value with
  | some type => rfl
  | none => simp [hresult, Fault.code, Code.isWarning] at h

theorem call_passes {callee : Expr} {args : List Expr} {span : Span}
    (h : (checkExpr v (.call callee args span)).Passes strict log) :
    (checkExpr v callee).Passes strict log ∧ (checkArgs v args).Passes strict log := by
  cases callee with
  | ident name =>
    simp only [checkExpr, Checked.passes_bind] at h ⊢
    exact ⟨⟨h.2.1, Checked.passes_pure _⟩, h.1⟩
  | _ =>
    rw [checkExpr] at h
    simp only [Checked.passes_bind] at h
    exact ⟨h.2.1, h.1⟩

theorem length_checkArgs (v : View) (es : List Expr) : (checkArgs v es).value.length = es.length := by
  induction es with
  | nil => rfl
  | cons e es ih => exact congrArg Nat.succ ih

/-- A call of a function that is known by name has an argument for each parameter. -/
theorem known_passes {name : Ident} {args : List Expr} {span : Span} {symbol : Symbol} {params : List Ty}
    (h : (checkExpr v (.call (.ident name) args span)).Passes strict log)
    (hsymbol : (v.symbol name).value = some symbol) (hkind : symbol.kind = .function params) :
    params.length = args.length := by
  simp only [checkExpr, Checked.passes_bind, readSymbol_value hsymbol, hkind, checkKnownCall,
    length_checkArgs] at h
  split at h
  · next harity => exact harity
  · simp [Fault.code, Code.isWarning] at h

theorem args_passes {e : Expr} {es : List Expr} (h : (checkArgs v (e :: es)).Passes strict log) :
    (checkExpr v e).Passes strict log ∧ (checkArgs v es).Passes strict log := by
  simp only [checkArgs, Checked.passes_bind] at h
  exact ⟨h.1, h.2.1⟩

theorem option_passes {e : Expr} (h : (checkOption v (some e)).Passes strict log) :
    (checkExpr v e).Passes strict log := by
  simp only [checkOption, Checked.passes_bind] at h
  exact h.1

theorem init_passes {name : Ident} {type : Option TypeName} {e : Expr}
    (h : (checkInit v name type (some e)).Passes strict log) : (checkExpr v e).Passes strict log := by
  simp only [checkInit, Checked.passes_bind] at h
  exact option_passes h.1

theorem init_accepts {name : Ident} {type : TypeName} {e : Expr}
    (h : (checkInit v name (some type) (some e)).Passes strict log) :
    (Ty.ofTypeName type).accepts (checkExpr v e).value = true := by
  simp only [checkInit, checkOption, Option.map_some, Checked.passes_bind, Checked.value_bind,
    Checked.value_pure] at h
  cases haccepts : (Ty.ofTypeName type).accepts (checkExpr v e).value with
  | true => rfl
  | false => simp [haccepts, Fault.code, Code.isWarning] at h

theorem condition_passes {word : String} {cond : Expr}
    (h : (checkCondition v word cond).Passes strict log) : (checkExpr v cond).Passes strict log := by
  simp only [checkCondition, Checked.passes_bind] at h
  exact h.1

theorem condition_isBool {word : String} {cond : Expr}
    (h : (checkCondition v word cond).Passes strict log) :
    (checkExpr v cond).value.isBoolOrUnknown = true := by
  simp only [checkCondition, Checked.passes_bind] at h
  cases hbool : (checkExpr v cond).value.isBoolOrUnknown with
  | true => rfl
  | false => simp [hbool, Fault.code, Code.isWarning] at h

/-- A declaration passes if its name is not taken. -/
theorem declare_passes {scope : Nat} {symbol : Symbol}
    (h : (declare tree scope symbol).Passes strict log) :
    tree.lookupLocal scope symbol.name = none ∧
      (declare tree scope symbol).value = tree.addSymbol scope symbol := by
  unfold declare ScopeTree.declare at h ⊢
  cases hlocal : tree.lookupLocal scope symbol.name with
  | none => exact ⟨rfl, rfl⟩
  | some existing => simp [hlocal, Fault.code, Code.isWarning] at h

@[simp] theorem branchContext_inFunction (c : Context) (tree : ScopeTree) (stmt : Stmt) :
    (branchContext c tree stmt).inFunction = c.inFunction := by
  unfold branchContext
  split <;> rfl

@[simp] theorem branchContext_inLoop (c : Context) (tree : ScopeTree) (stmt : Stmt) :
    (branchContext c tree stmt).inLoop = c.inLoop := by
  unfold branchContext
  split <;> rfl

theorem branch_passes {cond : Expr} {thenStmt : Stmt} {elseStmt : Option Stmt} {span : Span}
    (h : (checkStmt c tree (.branch cond thenStmt elseStmt span)).Passes strict log) :
    (checkCondition (c.view tree) "if" cond).Passes strict log ∧
      (checkStmt (branchContext c tree thenStmt) (branchTree c tree thenStmt) thenStmt).Passes strict log ∧
      ∀ stmt, elseStmt = some stmt →
        (checkStmt (branchContext c tree stmt) (branchTree c tree stmt) stmt).Passes strict log := by
  cases elseStmt with
  | none =>
    simp only [checkStmt, Checked.passes_bind] at h
    refine ⟨h.1, h.2.1, ?_⟩
    rintro stmt ⟨⟩
  | some stmt =>
    simp only [checkStmt, Checked.passes_bind] at h
    refine ⟨h.1, h.2.1, ?_⟩
    rintro _ ⟨⟩
    exact h.2.2.1

/-- The body of a function passes in a scope of its own, in no loop. -/
theorem function_passes {name : Ident} {params : List Param} {body : List Stmt} {braces span : Span}
    (h : (checkStmt c tree (.function name params body braces span)).Passes strict log) :
    ∃ (scope : Nat) (opened : ScopeTree),
      (checkStmts ⟨scope, true, false⟩ opened false body).Passes strict log := by
  simp only [checkStmt] at h
  split at h
  · simp only [Checked.passes_bind] at h
    exact ⟨_, _, h.2.2.1⟩
  · simp only [Checked.passes_bind] at h
    exact ⟨_, _, h.2.2.1⟩

theorem return_passes {value : Option Expr} {span : Span}
    (h : (checkStmt c tree (.returnWith value span)).Passes strict log) :
    (checkOption (c.view tree) value).Passes strict log := by
  simp only [checkStmt] at h
  split at h
  · simp only [Checked.passes_bind] at h
    exact h.2.1
  · simp only [Checked.passes_bind] at h
    exact h.1

theorem stmts_passes {warned : Bool} {stmt : Stmt} {stmts : List Stmt}
    (h : (checkStmts c tree warned (stmt :: stmts)).Passes strict log) :
    (checkStmt c tree stmt).Passes strict log ∧
      (checkStmts c (checkStmt c tree stmt).value (warned || stmt.diverges) stmts).Passes strict log := by
  simp only [checkStmts, Checked.passes_bind] at h
  exact ⟨h.1, h.2.2⟩

end Check

end Scriptlet
