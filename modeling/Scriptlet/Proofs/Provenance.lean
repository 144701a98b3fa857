import Scriptlet.Check
import Scriptlet.Piece
import Scriptlet.Proofs.ReaderInvariant
import Scriptlet.Run.Exec

/-!
# Where diagnostics come from

Each phase reports faults of its own kind, and nothing else: the lexical phase those of pieces, the
reader those of tokens, the check and the run theirs. So a diagnostic carries the phase that it comes from
and a code of that phase, and it is a warning exactly if its code is that of one (`Diagnostic.Belongs`).
-/

namespace Scriptlet

/-- The least and the greatest number that a code of the phase may have. -/
def Phase.numbers : Phase → Nat × Nat
  | .lexical => (1, 99)
  | .syntactic => (100, 199)
  | .semantic => (200, 299)
  | .execution => (300, 399)

/-- The number of the code is in the range of the phase. -/
def Phase.Owns (p : Phase) (code : Code) : Prop :=
  p.numbers.1 ≤ code.number ∧ code.number ≤ p.numbers.2

/-- The diagnostic is one of the phase `p`. -/
structure Diagnostic.Belongs (p : Phase) (d : Diagnostic) : Prop where
  phase : d.phase = p
  code : p.Owns d.code
  severity : d.severity = .warning ↔ d.code.text = "W0207" ∨ d.code.text = "W0208"

theorem Code.isWarning_iff (c : Code) : c.isWarning = true ↔ c.text = "W0207" ∨ c.text = "W0208" := by
  cases c <;> decide

/-- An error with a code of the phase that is not one of a warning. -/
theorem Diagnostic.belongs_of_error {p : Phase} {c : Code} {message : String} {span : Span} (hcode : p.Owns c)
    (herror : c.isWarning = false) : Belongs p ⟨p, .error, c, message, span⟩ := by
  refine ⟨rfl, hcode, ?_⟩
  rw [← c.isWarning_iff, herror]
  exact ⟨nofun, nofun⟩

/-! ### Pieces -/

namespace Piece

theorem Fault.belongs (f : Fault) (p : Position) (text : List Char) :
    (f.diagnostic p text).Belongs .lexical := by
  refine Diagnostic.belongs_of_error ?_ ?_
  · cases f <;> simp [Phase.Owns, Phase.numbers, Fault.code, Code.number]
  · cases f <;> rfl

theorem escapeFaults_belong (p : Position) (cs : List Char) :
    ∀ d ∈ escapeFaults p cs, d.Belongs .lexical := by
  induction p, cs using escapeFaults.induct with
  | case1 p => exact List.forall_mem_nil _
  | case2 p c cs hescape ih =>
    rw [escapeFaults, if_pos hescape]
    exact ih
  | case3 p c cs hescape ih =>
    rw [escapeFaults, if_neg hescape]
    exact List.forall_mem_cons.2 ⟨Fault.belongs _ _ _, ih⟩
  | case4 p c cs hplain ih =>
    rw [escapeFaults]
    · exact ih
    · exact hplain

theorem diagnostics_belong (piece : Piece) (p : Position) :
    ∀ d ∈ piece.diagnostics p, d.Belongs .lexical := by
  have hone (f : Fault) : ∀ d ∈ [f.diagnostic p piece.text], d.Belongs .lexical :=
    List.forall_mem_singleton.2 (Fault.belongs _ _ _)
  unfold diagnostics
  dsimp only
  split
  · exact List.forall_mem_nil _
  · exact List.forall_mem_nil _
  · exact hone _
  · intro d hd
    obtain ⟨c, -, rfl⟩ := List.mem_map.1 hd
    exact Fault.belongs _ _ _
  · exact List.forall_mem_append.2 ⟨escapeFaults_belong _ _, hone _⟩
  · exact escapeFaults_belong _ _
  · split
    · exact List.forall_mem_nil _
    · exact hone _

end Piece

theorem Tokens.diagnostics_belong (source : String) :
    ∀ d ∈ (Tokens.ofText source).diagnostics, d.Belongs .lexical := by
  intro d hd
  obtain ⟨⟨p, piece⟩, -, hd⟩ := List.mem_flatMap.1 hd
  exact Piece.diagnostics_belong piece p d hd

/-! ### Tokens -/

theorem Reader.Fault.belongs (f : Reader.Fault) (span : Span) :
    (f.diagnostic span).Belongs .syntactic := by
  refine Diagnostic.belongs_of_error ?_ ?_
  · cases f <;> simp [Phase.Owns, Phase.numbers, Fault.code, Code.number]
  · cases f <;> rfl

theorem Reader.stable_belongs : Reader.Stable fun s => ∀ d ∈ s.diagnostics.toList, d.Belongs .syntactic where
  advance {s} h := by
    rcases advance_cases s with heq | ⟨t, ts, -, -, heq⟩ <;> rw [heq] <;> exact h
  report f span h := by
    simp only [State.report, Array.toList_push]
    exact List.forall_mem_append.2 ⟨h, List.forall_mem_singleton.2 (f.belongs span)⟩
  depth _ h := h
  synchronize h := h

theorem Program.read_belongs (tokens : List Token) :
    ∀ d ∈ (ofTokens tokens).diagnostics, d.Belongs .syntactic := by
  have hstart : ∀ d ∈ (Reader.State.ofTokens tokens).diagnostics.toList, d.Belongs .syntactic :=
    List.forall_mem_nil _
  obtain ⟨s, hs, hdiagnostics⟩ := ofTokens_maintains Reader.stable_belongs hstart
  rw [hdiagnostics]
  exact hs

/-! ### Names, types and control flow -/

theorem Check.Fault.belongs (f : Check.Fault) (span : Span) : (f.diagnostic span).Belongs .semantic := by
  refine ⟨rfl, ?_, ?_⟩
  · cases f <;> simp [Phase.Owns, Phase.numbers, Fault.diagnostic, Fault.code, Code.number]
  · have hcode := f.code.isWarning_iff
    simp only [Fault.diagnostic, ← hcode]
    cases f.code.isWarning <;> decide

namespace Checked

variable {α β : Type}

/-- All that is reported is semantic. -/
def Semantic (x : Checked α) : Prop := ∀ d ∈ x.diagnostics, d.Belongs .semantic

@[simp] theorem semantic_pure (a : α) : (pure a : Checked α).Semantic := List.forall_mem_nil _

@[simp] theorem semantic_bind (x : Checked α) (f : α → Checked β) :
    (x >>= f).Semantic ↔ x.Semantic ∧ (f x.value).Semantic :=
  List.forall_mem_append

@[simp] theorem semantic_report (f : Check.Fault) (span : Span) : (report f span).Semantic :=
  List.forall_mem_singleton.2 (f.belongs span)

@[simp] theorem semantic_record (name : Ident) (found : Lookup) : (record name found).Semantic :=
  List.forall_mem_nil _

end Checked

namespace Check

@[simp] theorem semantic_symbol (v : View) (name : Ident) : (v.symbol name).Semantic := by
  simp only [View.symbol, Checked.semantic_bind, Checked.semantic_record, true_and]
  split <;> simp

@[simp] theorem semantic_readSymbol (v : View) (name : Ident) : (v.readSymbol name).Semantic := by
  simp only [View.readSymbol, Checked.semantic_bind, semantic_symbol, true_and]
  split
  · simp
  · split <;> simp

@[simp] theorem semantic_checkAssign (target : Ident) (symbol : Option Symbol) (found : Ty) (span : Span) :
    (checkAssign target symbol found span).Semantic := by
  unfold checkAssign
  split
  · simp
  · split
    · simp
    · split <;> simp

@[simp] theorem semantic_checkArgTypes (name : String) (index : Nat) (params : List Ty)
    (args : List (Ty × Span)) : (checkArgTypes name index params args).Semantic := by
  induction params generalizing index args with
  | nil => simp [checkArgTypes]
  | cons expected params ih =>
    cases args with
    | nil => simp [checkArgTypes]
    | cons arg args =>
      simp only [checkArgTypes]
      split <;> simp [ih]

@[simp] theorem semantic_checkKnownCall (name : String) (params : List Ty) (args : List (Ty × Span))
    (span : Span) : (checkKnownCall name params args span).Semantic := by
  unfold checkKnownCall
  split <;> simp

@[simp] theorem semantic_checkCallable (name : String) (type : Ty) (span : Span) :
    (checkCallable name type span).Semantic := by
  unfold checkCallable
  split <;> simp

theorem semantic_checkCall {v : View} {callee : Expr} {args : List Expr} (span : Span)
    (hcallee : (checkExpr v callee).Semantic) (hargs : (checkArgs v args).Semantic) :
    (checkExpr v (.call callee args span)).Semantic := by
  cases callee with
  | ident name =>
    simp only [checkExpr, Checked.semantic_bind, semantic_readSymbol, hargs, true_and]
    split
    · simp
    · next symbol _ =>
      cases symbol.kind with
      | function params => simp
      | var | param => cases symbol.initialized <;> simp
  | _ =>
    rw [checkExpr]
    simp only [Checked.semantic_bind, hargs, hcallee, semantic_checkCallable, Checked.semantic_pure, and_self]

mutual

theorem semantic_checkExpr (v : View) : ∀ e : Expr, (checkExpr v e).Semantic
  | .literal .. => by simp [checkExpr]
  | .ident _ => by simp [checkExpr]
  | .assign _ value _ => by simp [checkExpr, semantic_checkExpr v value]
  | .binary _ lhs rhs _ => by
    simp only [checkExpr, Checked.semantic_bind, semantic_checkExpr v lhs, semantic_checkExpr v rhs, true_and]
    split <;> simp
  | .unary _ operand _ => by
    simp only [checkExpr, Checked.semantic_bind, semantic_checkExpr v operand, true_and]
    split <;> simp
  | .call callee args span => semantic_checkCall span (semantic_checkExpr v callee) (semantic_checkArgs v args)

theorem semantic_checkArgs (v : View) : ∀ es : List Expr, (checkArgs v es).Semantic
  | [] => by simp [checkArgs]
  | e :: es => by simp [checkArgs, semantic_checkExpr v e, semantic_checkArgs v es]

end

@[simp] theorem semantic_checkOption (v : View) (e : Option Expr) : (checkOption v e).Semantic := by
  cases e with
  | none => simp [checkOption]
  | some e => simp [checkOption, semantic_checkExpr v e]

@[simp] theorem semantic_checkInit (v : View) (name : Ident) (type : Option TypeName) (init : Option Expr) :
    (checkInit v name type init).Semantic := by
  simp only [checkInit, Checked.semantic_bind, semantic_checkOption, true_and]
  split
  · split <;> simp
  all_goals simp

@[simp] theorem semantic_checkCondition (v : View) (word : String) (cond : Expr) :
    (checkCondition v word cond).Semantic := by
  simp only [checkCondition, Checked.semantic_bind, semantic_checkExpr v cond, true_and]
  split <;> simp

@[simp] theorem semantic_declare (tree : ScopeTree) (scope : Nat) (symbol : Symbol) :
    (declare tree scope symbol).Semantic := by
  unfold declare
  split <;> simp

@[simp] theorem semantic_declareVariable (tree : ScopeTree) (scope : Nat) (name : Ident) (type : Ty) :
    (declareVariable tree scope name type).Semantic := by
  unfold declareVariable
  split <;> simp

@[simp] theorem semantic_declareParams (scope : Nat) (params : List Param) (tree : ScopeTree) :
    (declareParams scope params tree).Semantic := by
  induction params generalizing tree with
  | nil => simp [declareParams]
  | cons param params ih => simp [declareParams, ih]

@[simp] theorem semantic_checkReachable (diverged : Bool) (stmts : List Stmt) :
    (checkReachable diverged stmts).Semantic := by
  unfold checkReachable
  split
  · split <;> simp
  · simp

@[simp] theorem semantic_declareItems (items : List Stmt) (tree : ScopeTree) :
    (declareItems items tree).Semantic := by
  induction items generalizing tree with
  | nil => simp [declareItems]
  | cons item items ih => cases item <;> simp [declareItems, ih]

mutual

theorem semantic_checkStmt : ∀ (stmt : Stmt) (c : Context) (tree : ScopeTree),
    (checkStmt c tree stmt).Semantic
  | .varDecl .., c, tree => by simp [checkStmt]
  | .expr e _, c, tree | .print e _, c, tree => by simp [checkStmt, semantic_checkExpr _ e]
  | .block body _, c, tree => by simp [checkStmt, semantic_checkStmts body]
  | .branch cond thenStmt none _, c, tree => by simp [checkStmt, semantic_checkStmt thenStmt]
  | .branch cond thenStmt (some elseStmt) _, c, tree => by
    simp [checkStmt, semantic_checkStmt thenStmt, semantic_checkStmt elseStmt]
  | .loop cond body _, c, tree => by simp [checkStmt, semantic_checkStmt body]
  | .function _ _ body _ _, c, tree => by
    simp only [checkStmt]
    split <;> simp [semantic_checkStmts body]
  | .returnWith .., c, tree => by
    simp only [checkStmt]
    split <;> simp
  | .breakLoop _, c, tree | .continueLoop _, c, tree => by
    simp only [checkStmt]
    split <;> simp

theorem semantic_checkStmts : ∀ (stmts : List Stmt) (c : Context) (tree : ScopeTree) (warned : Bool),
    (checkStmts c tree warned stmts).Semantic
  | [], _, _, _ => by simp [checkStmts]
  | stmt :: stmts, c, tree, warned => by
    simp [checkStmts, semantic_checkStmt stmt, semantic_checkStmts stmts]

end

end Check

namespace Program

theorem check_belongs (p : Program) : ∀ d ∈ p.check.diagnostics, d.Belongs .semantic := by
  have hchecked : (Check.declareGlobals p.items >>= fun tree =>
      Check.checkStmts .top tree false p.items).Semantic := by
    simp [Check.declareGlobals, Check.semantic_checkStmts]
  exact hchecked

/-! ### Runs -/

theorem execute_belongs (b : Bounds) (p : Program) :
    ∀ d ∈ (p.execute b).diagnostics, d.Belongs .execution := by
  unfold execute
  split
  · exact List.forall_mem_nil _
  · next failure _ _ =>
    refine List.forall_mem_singleton.2 (Diagnostic.belongs_of_error ?_ ?_)
    · cases failure.fault <;> simp [Phase.Owns, Phase.numbers, Run.Fault.code, Code.number]
    · cases failure.fault <;> rfl

end Program

end Scriptlet
