import Mathlib.Data.List.Nodup
import Scriptlet.Check
import Scriptlet.Proofs.FunctionValues
import Scriptlet.Proofs.Grammar
import Scriptlet.Proofs.TextTokens

/-!
# Where names stand

The names that a program uses, in the order of the text, are names of its tokens, each taken once
(`Derives.uses_sublist`). The check looks up just these names (`names_check`), so it looks up each
occurrence of a name once (`lookups_unique`).
-/

namespace Scriptlet

/-! ### Names in use -/

mutual

/-- The names that an expression reads or assigns, in the order of the text. -/
def Expr.uses : Expr → List Ident
  | .literal .. => []
  | .ident name => [name]
  | .assign target value _ => target :: value.uses
  | .binary _ lhs rhs _ => lhs.uses ++ rhs.uses
  | .unary _ operand _ => operand.uses
  | .call callee args _ => callee.uses ++ Expr.usesAll args

def Expr.usesAll : List Expr → List Ident
  | [] => []
  | e :: es => e.uses ++ Expr.usesAll es

end

def Expr.usesOption : Option Expr → List Ident
  | none => []
  | some e => e.uses

mutual

def Stmt.uses : Stmt → List Ident
  | .varDecl _ _ init _ => Expr.usesOption init
  | .expr e _ | .print e _ => e.uses
  | .block body _ => Stmt.usesAll body
  | .branch cond thenStmt none _ => cond.uses ++ thenStmt.uses
  | .branch cond thenStmt (some elseStmt) _ => cond.uses ++ (thenStmt.uses ++ elseStmt.uses)
  | .loop cond body _ => cond.uses ++ body.uses
  | .function _ _ body _ _ => Stmt.usesAll body
  | .returnWith value _ => Expr.usesOption value
  | .breakLoop _ | .continueLoop _ => []

def Stmt.usesAll : List Stmt → List Ident
  | [] => []
  | s :: ss => s.uses ++ Stmt.usesAll ss

end

/-- A function whose body declares no functions, or a statement that declares none. -/
def Stmt.Flat (s : Stmt) : Prop :=
  s.functions = [] ∨ ∃ name params body braces span,
    s = .function name params body braces span ∧ Stmt.functionsAll body = []

/-! ### Names of tokens -/

namespace Grammar

def Nonterminal.uses : (x : Nonterminal) → x.Tree → List Ident
  | program, p => Stmt.usesAll (Program.items p)
  | items, ss | stmts, ss | block, ss => Stmt.usesAll ss
  | item, s | funcDecl, s | stmt, s | varDecl, s | ifStmt, s | whileStmt, s | returnStmt, s
  | printStmt, s | exprStmt, s => Stmt.uses s
  | expr _, e => Expr.uses e
  | optArgs, es | args, es => Expr.usesAll es
  | optParams, _ | params, _ | param, _ | typeName, _ => []

/-- Names of tokens, in their order, each token taken at most once. -/
def Picks (ts : List Token) (names : List Ident) : Prop := names.Sublist (ts.map nameOf)

namespace Picks

variable {ts us : List Token} {names names' : List Ident}

theorem nothing (ts : List Token) : Picks ts [] := List.nil_sublist _

theorem one (t : Token) : Picks [t] [nameOf t] := List.Sublist.refl _

theorem skip (t : Token) (h : Picks ts names) : Picks (t :: ts) names := h.cons _

theorem append (h : Picks ts names) (h' : Picks us names') : Picks (ts ++ us) (names ++ names') := by
  unfold Picks at *
  rw [List.map_append]
  exact List.Sublist.append h h'

theorem skipRight (us : List Token) (h : Picks ts names) : Picks (ts ++ us) names := by
  simpa using h.append (nothing us)

end Picks

theorem Target.picks {wide : Bool} {ts : List Token} {name : Ident} (h : Target wide ts name) :
    Picks ts [name] := by
  induction h with
  | bare => exact .one _
  | paren _ _ _ _ ih => exact .skip _ (ih.skipRight _)

/-- The names that a tree uses are names of its tokens. -/
theorem Derives.uses_sublist {wide : Bool} {x : Nonterminal} {ts : List Token} {t : x.Tree}
    (h : Derives wide x ts t) : Picks ts (x.uses t) := by
  induction h with
  | program _ _ ih => exact ih.skipRight _
  | noItems | noParams | noStmts | noArgs => exact .nothing _
  | moreItems _ _ ih ih' | moreStmts _ _ ih ih' => exact ih.append ih'
  | itemFunc _ ih | itemStmt _ ih | someParams _ ih | stmtVarDecl _ ih | stmtIf _ ih | stmtWhile _ ih
  | stmtBlock _ ih | stmtReturn _ ih | stmtPrint _ ih | stmtExpr _ ih | noAssign _ ih | operand _ ih
  | noUnary _ ih | noCall _ ih | someArgs _ ih => exact ih
  | funcDecl _ _ _ _ _ _ _ ih => exact .skip _ (.skip _ (.skip _ (.append (.nothing _) (.skip _ ih))))
  | oneParam | moreParams | plainParam | typedParam | intType | floatType | boolType | stringType
  | stmtBreak | stmtContinue | letPlain | typedPlain | returnNone => exact .nothing _
  | letInit _ _ _ _ _ ih => exact .skip _ (.skip _ (.skip _ (ih.skipRight _)))
  | typedInit _ _ _ _ _ _ ih => exact .append (.nothing _) (.skip _ (.skip _ (ih.skipRight _)))
  | ifThen _ _ _ _ _ ih ih' | whileDo _ _ _ _ _ ih ih' => exact .skip _ (.skip _ (ih.append (.skip _ ih')))
  | ifThenElse _ _ _ _ _ _ _ ih ih' ih'' =>
    exact .skip _ (.skip _ (ih.append (.skip _ (ih'.append (.skip _ ih'')))))
  | block _ _ _ ih | paren _ _ _ ih | returnSome _ _ _ ih => exact .skip _ (ih.skipRight _)
  | print _ _ _ _ _ ih => exact .skip _ (.skip _ (ih.skipRight _))
  | exprStmt _ _ ih => exact ih.skipRight _
  | assign htarget _ _ ih => exact htarget.picks.append (.skip _ ih)
  | operator _ _ _ ih ih' => exact ih.append (.skip _ ih')
  | not _ _ ih | neg _ _ ih => exact .skip _ ih
  | call _ _ _ _ ih ih' => exact ih.append (.skip _ (ih'.skipRight _))
  | oneArg _ ih =>
    simp only [Nonterminal.uses, Expr.usesAll, List.append_nil]
    exact ih
  | moreArgs _ _ _ ih ih' => exact ih.append (.skip _ ih')
  | number | fnumber | str | trueWord | falseWord | nilWord => exact .nothing _
  | ident => exact .one _

/-- Functions stand at the top only. -/
def Nonterminal.Flat : (x : Nonterminal) → x.Tree → Prop
  | program, p => ∀ s ∈ Program.items p, Stmt.Flat s
  | items, ss => ∀ s ∈ ss, Stmt.Flat s
  | item, s | funcDecl, s => Stmt.Flat s
  | stmts, ss | block, ss => Stmt.functionsAll ss = []
  | stmt, s | varDecl, s | ifStmt, s | whileStmt, s | returnStmt, s | printStmt, s | exprStmt, s =>
    Stmt.functions s = []
  | _, _ => True

theorem Derives.flat {wide : Bool} {x : Nonterminal} {ts : List Token} {t : x.Tree}
    (h : Derives wide x ts t) : x.Flat t := by
  induction h with
  | program _ _ ih => exact ih
  | noItems => nofun
  | moreItems _ _ ih ih' => exact List.forall_mem_cons.2 ⟨ih, ih'⟩
  | itemFunc _ ih | stmtVarDecl _ ih | stmtIf _ ih | stmtWhile _ ih | stmtBlock _ ih | stmtReturn _ ih
  | stmtPrint _ ih | stmtExpr _ ih => exact ih
  | itemStmt _ ih => exact .inl ih
  | funcDecl _ _ _ _ _ _ _ ih => exact .inr ⟨_, _, _, _, _, rfl, ih⟩
  | moreStmts _ _ ih ih' | ifThenElse _ _ _ _ _ _ _ _ ih ih' => exact List.append_eq_nil_iff.2 ⟨ih, ih'⟩
  | ifThen _ _ _ _ _ _ ih | whileDo _ _ _ _ _ _ ih | block _ _ _ ih => exact ih
  | noStmts | stmtBreak | stmtContinue | letPlain | letInit | typedPlain | typedInit | returnNone
  | returnSome | print | exprStmt => rfl
  | _ => trivial

end Grammar

/-! ### Names that are looked up -/

namespace Checked

variable {α β : Type}

/-- The names that are looked up. -/
def names (x : Checked α) : List Ident := x.lookups.map (·.1)

@[simp] theorem names_pure (a : α) : (pure a : Checked α).names = [] := rfl

@[simp] theorem names_bind (x : Checked α) (f : α → Checked β) :
    (x >>= f).names = x.names ++ (f x.value).names := List.map_append

@[simp] theorem names_report (f : Check.Fault) (span : Span) : (report f span).names = [] := rfl

@[simp] theorem names_record (name : Ident) (found : Lookup) : (record name found).names = [name] := rfl

end Checked

namespace Check

@[simp] theorem names_symbol (v : View) (name : Ident) : (v.symbol name).names = [name] := by
  simp only [View.symbol, Checked.names_bind, Checked.names_record]
  split <;> rfl

@[simp] theorem names_readSymbol (v : View) (name : Ident) : (v.readSymbol name).names = [name] := by
  simp only [View.readSymbol, Checked.names_bind, names_symbol]
  split
  · rfl
  · split <;> rfl

@[simp] theorem names_checkAssign (target : Ident) (symbol : Option Symbol) (found : Ty) (span : Span) :
    (checkAssign target symbol found span).names = [] := by
  unfold checkAssign
  split
  · rfl
  · split
    · rfl
    · split <;> rfl

@[simp] theorem names_checkArgTypes (name : String) (index : Nat) (params : List Ty)
    (args : List (Ty × Span)) : (checkArgTypes name index params args).names = [] := by
  induction params generalizing index args with
  | nil => rfl
  | cons expected params ih =>
    cases args with
    | nil => rfl
    | cons arg args =>
      simp only [checkArgTypes]
      split <;> simp [ih]

@[simp] theorem names_checkKnownCall (name : String) (params : List Ty) (args : List (Ty × Span))
    (span : Span) : (checkKnownCall name params args span).names = [] := by
  unfold checkKnownCall
  split
  · exact names_checkArgTypes _ _ _ _
  · rfl

@[simp] theorem names_checkCallable (name : String) (type : Ty) (span : Span) :
    (checkCallable name type span).names = [] := by
  unfold checkCallable
  split <;> rfl

theorem names_checkCall (v : View) (callee : Expr) (args : List Expr) (span : Span) :
    (checkExpr v (.call callee args span)).names =
      (checkArgs v args).names ++ (checkExpr v callee).names := by
  cases callee with
  | ident name =>
    simp only [checkExpr, Checked.names_bind, names_readSymbol, Checked.names_pure]
    split
    · rfl
    · next symbol _ =>
      cases symbol.kind with
      | function params => simp
      | var | param => cases symbol.initialized <;> simp
  | _ =>
    conv_lhs => rw [checkExpr]
    simp only [Checked.names_bind, names_checkCallable, Checked.names_pure, List.append_nil]

mutual

/-- Checking an expression looks up the names that it uses. -/
theorem names_checkExpr (v : View) : ∀ e : Expr, (checkExpr v e).names.Perm e.uses
  | .literal .. => .nil
  | .ident name => by simp [checkExpr, Expr.uses]
  | .assign target value _ => by
    simp only [checkExpr, Expr.uses, Checked.names_bind, names_symbol, names_checkAssign,
      Checked.names_pure, List.append_nil]
    exact List.perm_append_comm.trans (.cons _ (names_checkExpr v value))
  | .binary op lhs rhs span => by
    simp only [checkExpr, Expr.uses, Checked.names_bind]
    refine (names_checkExpr v lhs).append ?_
    split <;> simpa using names_checkExpr v rhs
  | .unary op operand span => by
    simp only [checkExpr, Expr.uses, Checked.names_bind]
    split <;> simpa using names_checkExpr v operand
  | .call callee args span => by
    have hargs := names_checkArgs v args
    have hcallee := names_checkExpr v callee
    rw [names_checkCall]
    exact List.perm_append_comm.trans (hcallee.append hargs)

theorem names_checkArgs (v : View) : ∀ es : List Expr, (checkArgs v es).names.Perm (Expr.usesAll es)
  | [] => .nil
  | e :: es => by
    simp only [checkArgs, Expr.usesAll, Checked.names_bind, Checked.names_pure, List.append_nil]
    exact (names_checkExpr v e).append (names_checkArgs v es)

end

theorem names_checkOption (v : View) : ∀ e : Option Expr,
    (checkOption v e).names.Perm (Expr.usesOption e)
  | none => .nil
  | some e => by simpa [checkOption, Expr.usesOption] using names_checkExpr v e

theorem names_checkInit (v : View) (name : Ident) (type : Option TypeName) (init : Option Expr) :
    (checkInit v name type init).names.Perm (Expr.usesOption init) := by
  simp only [checkInit, Checked.names_bind]
  refine .trans (.of_eq ?_) (names_checkOption v init)
  split
  · split <;> simp
  all_goals simp

theorem names_checkCondition (v : View) (word : String) (cond : Expr) :
    (checkCondition v word cond).names.Perm cond.uses := by
  simp only [checkCondition, Checked.names_bind]
  split <;> simpa using names_checkExpr v cond

@[simp] theorem names_declare (tree : ScopeTree) (scope : Nat) (symbol : Symbol) :
    (declare tree scope symbol).names = [] := by
  unfold declare
  split <;> rfl

@[simp] theorem names_declareVariable (tree : ScopeTree) (scope : Nat) (name : Ident) (type : Ty) :
    (declareVariable tree scope name type).names = [] := by
  unfold declareVariable
  split
  · rfl
  · exact names_declare _ _ _

@[simp] theorem names_declareParams (scope : Nat) (params : List Param) (tree : ScopeTree) :
    (declareParams scope params tree).names = [] := by
  induction params generalizing tree with
  | nil => rfl
  | cons param params ih => simp [declareParams, ih]

@[simp] theorem names_checkReachable (diverged : Bool) (stmts : List Stmt) :
    (checkReachable diverged stmts).names = [] := by
  unfold checkReachable
  split
  · split <;> rfl
  · rfl

@[simp] theorem names_declareItems (items : List Stmt) (tree : ScopeTree) :
    (declareItems items tree).names = [] := by
  induction items generalizing tree with
  | nil => rfl
  | cons item items ih => cases item <;> simp [declareItems, ih]

mutual

/-- Checking a statement looks up the names that it uses. -/
theorem names_checkStmt (c : Context) (tree : ScopeTree) : ∀ stmt : Stmt,
    (checkStmt c tree stmt).names.Perm stmt.uses
  | .varDecl name type init _ => by
    simpa [checkStmt, Stmt.uses] using names_checkInit (c.view tree) name type init
  | .expr e _ | .print e _ => by simpa [checkStmt, Stmt.uses] using names_checkExpr (c.view tree) e
  | .block body _ => by simpa [checkStmt, Stmt.uses] using names_checkStmts _ _ _ body
  | .branch cond thenStmt none _ => by
    have hcond := names_checkCondition (c.view tree) "if" cond
    simpa [checkStmt, Stmt.uses] using hcond.append (names_checkStmt _ _ thenStmt)
  | .branch cond thenStmt (some elseStmt) _ => by
    have hcond := names_checkCondition (c.view tree) "if" cond
    have hbranches := (names_checkStmt (branchContext c tree thenStmt) (branchTree c tree thenStmt)
      thenStmt).append (names_checkStmt (branchContext c tree elseStmt) (branchTree c tree elseStmt)
        elseStmt)
    simpa [checkStmt, Stmt.uses] using hcond.append hbranches
  | .loop cond body _ => by
    have hcond := names_checkCondition (c.view tree) "while" cond
    simpa [checkStmt, Stmt.uses] using hcond.append (names_checkStmt _ _ body)
  | .function name params body _ _ => by
    simp only [checkStmt, Stmt.uses]
    split <;> simpa using names_checkStmts _ _ _ body
  | .returnWith value _ => by
    simp only [checkStmt, Stmt.uses]
    split <;> simpa using names_checkOption (c.view tree) value
  | .breakLoop _ | .continueLoop _ => by
    simp only [checkStmt]
    split <;> exact .nil

theorem names_checkStmts (c : Context) (tree : ScopeTree) (warned : Bool) : ∀ stmts : List Stmt,
    (checkStmts c tree warned stmts).names.Perm (Stmt.usesAll stmts)
  | [] => .nil
  | stmt :: stmts => by
    simpa [checkStmts, Stmt.usesAll] using (names_checkStmt c tree stmt).append (names_checkStmts c _ _ stmts)

end

end Check

/-! ### One lookup for each occurrence -/

/-- The check of a program looks up the names that the program uses. -/
theorem Program.names_check (p : Program) : (p.check.lookups.map (·.1)).Perm (Stmt.usesAll p.items) := by
  have hnames : p.check.lookups.map (·.1) = (Check.declareGlobals p.items >>= fun tree =>
      Check.checkStmts .top tree false p.items).names := rfl
  rw [hnames, Checked.names_bind, Check.declareGlobals, Checked.names_bind, Check.names_declareItems]
  exact Check.names_checkStmts _ _ _ _

/-- No two tokens of a text are the same name, since each begins after all that come before it. -/
theorem Tokens.ofText_nodup {source : String} {ts : List Token} {eof : Token}
    (h : (Tokens.ofText source).tokens = ts ++ [eof]) : (ts.map Grammar.nameOf).Nodup := by
  obtain ⟨rfl, -⟩ := List.append_inj' h rfl
  have hsorted := Piece.place_sorted .start (Piece.split_text source.toList)
  rw [List.Nodup, List.pairwise_map, List.pairwise_filterMap]
  refine hsorted.imp ?_
  rintro ⟨p, piece⟩ ⟨q, piece'⟩ hlt t ht t' ht' hname
  have hspan : t.span = t'.span := congrArg Ident.span hname
  rw [← Piece.token_start ht, ← Piece.token_start ht', hspan] at hlt
  exact Nat.lt_irrefl _ hlt

/-- Each occurrence of a name is looked up at most once. -/
theorem Program.lookups_unique {source : String} {p : Program} {wide : Bool}
    (h : Grammar.Derives wide .program (Tokens.ofText source).tokens p) {name : Ident}
    {found found' : Lookup} (hfound : (name, found) ∈ p.check.lookups)
    (hfound' : (name, found') ∈ p.check.lookups) : found = found' := by
  generalize htokens : (Tokens.ofText source).tokens = tokens at h
  cases h with
  | @program ts items eof span hitems heof =>
    have huses : (Stmt.usesAll items).Nodup := (Tokens.ofText_nodup htokens).sublist hitems.uses_sublist
    have hnames := (Program.names_check ⟨items, span⟩).nodup_iff.2 huses
    have hentry := List.inj_on_of_nodup_map hnames hfound hfound' rfl
    exact congrArg Prod.snd hentry

end Scriptlet
