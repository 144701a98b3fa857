import Scriptlet.Diagnostic
import Scriptlet.Scope

/-!
# Checking programs

Names, types, calls and control flow. Top-level declarations are made known first (`declareGlobals`), so
that they may refer to each other in any order; then every statement is checked in its scope. The names
that a block declares are announced before it is checked, so that using one of them too early is
reported and does not silently mean a name further out.

Checking an expression depends on what names mean where it stands, and reports; it declares nothing.
Checking a statement may also declare a name in the current scope. What happens inside a block stays
there, so the scopes opened for it are dropped when it has been checked.
-/

namespace Scriptlet

namespace Check

inductive Fault where
  | undeclared (name : String)
  | usedBeforeDeclaration (name : String)
  | redeclared (name : String) (first : Position)
  | initMismatch (name : String) (expected found : Ty)
  | assignToFunction (name : String)
  | assignMismatch (name : String) (expected found : Ty)
  | operandMismatch (op : BinaryOp) (lhs rhs : Ty)
  | operandMismatchUnary (op : UnaryOp) (operand : Ty)
  | conditionNotBool (word : String) (found : Ty)
  | argumentMismatch (index : Nat) (name : String) (expected found : Ty)
  | arity (name : String) (expected found : Nat)
  | notCallable (name : String) (found : Ty)
  | returnOutside
  | breakOutside
  | continueOutside
  | unreachable
  | uninitializedGlobal (name : String)
deriving DecidableEq, Repr

namespace Fault

def code : Fault → Code
  | undeclared _ => .undeclaredIdentifier
  | usedBeforeDeclaration _ => .useBeforeDeclaration
  | redeclared .. => .redeclaration
  | initMismatch .. | assignToFunction _ | assignMismatch .. | operandMismatch ..
  | operandMismatchUnary .. | conditionNotBool .. | argumentMismatch .. => .typeMismatch
  | arity .. => .arityMismatch
  | notCallable .. => .notCallable
  | returnOutside | breakOutside | continueOutside => .invalidControlFlow
  | unreachable => .unreachableCode
  | uninitializedGlobal _ => .uninitializedGlobal

def quoting (before name after : String) : String := s!"{before}'{name}'{after}"

def message : Fault → String
  | undeclared name => quoting "undeclared identifier " name ""
  | usedBeforeDeclaration name => quoting "" name " is used before its declaration"
  | redeclared name first =>
    quoting "" name s!" is already declared in this scope (first declared at {first.text})"
  | initMismatch name expected found =>
    quoting "cannot initialize " name s!" of type {expected.name} with a value of type {found.name}"
  | assignToFunction name => quoting "cannot assign to function " name ""
  | assignMismatch name expected found =>
    quoting s!"cannot assign a value of type {found.name} to " name s!" of type {expected.name}"
  | operandMismatch op lhs rhs =>
    quoting "operator " op.symbol s!" cannot be applied to {lhs.name} and {rhs.name}"
  | operandMismatchUnary op operand =>
    quoting "operator " op.symbol s!" cannot be applied to {operand.name}"
  | conditionNotBool word found => quoting "" word s!" condition must be bool, found {found.name}"
  | argumentMismatch index name expected found =>
    quoting s!"argument {index} of " name s!" expects {expected.name}, found {found.name}"
  | arity name expected found =>
    quoting "function " name (s!" expects {expected} argument" ++ (if expected = 1 then "" else "s") ++
      s!", found {found}")
  | notCallable name found => quoting "" name s!" of type {found.name} is not callable"
  | returnOutside => quoting "" "return" " outside of a function"
  | breakOutside => quoting "" "break" " outside of a loop"
  | continueOutside => quoting "" "continue" " outside of a loop"
  | unreachable => "unreachable code"
  | uninitializedGlobal name => quoting "" name " is read before its declaration and is nil at this point"

def diagnostic (f : Fault) (span : Span) : Diagnostic :=
  ⟨.semantic, if f.code.isWarning then .warning else .error, f.code, f.message, span⟩

end Fault

end Check

/-- A result together with what was reported on the way, and with what each name that was looked up was
found to mean. -/
structure Checked (α : Type) where
  value : α
  diagnostics : List Diagnostic
  lookups : List (Ident × Lookup)

namespace Checked

variable {α β : Type}

def report (f : Check.Fault) (span : Span) : Checked Unit :=
  ⟨(), [f.diagnostic span], []⟩

def record (name : Ident) (found : Lookup) : Checked Unit :=
  ⟨(), [], [(name, found)]⟩

instance : Monad Checked where
  pure a := ⟨a, [], []⟩
  bind x f :=
    ⟨(f x.value).value, x.diagnostics ++ (f x.value).diagnostics, x.lookups ++ (f x.value).lookups⟩

@[simp] theorem value_pure (a : α) : (pure a : Checked α).value = a := rfl

@[simp] theorem diagnostics_pure (a : α) : (pure a : Checked α).diagnostics = [] := rfl

@[simp] theorem value_bind (x : Checked α) (f : α → Checked β) :
    (x >>= f).value = (f x.value).value := rfl

@[simp] theorem diagnostics_bind (x : Checked α) (f : α → Checked β) :
    (x >>= f).diagnostics = x.diagnostics ++ (f x.value).diagnostics := rfl

@[simp] theorem lookups_pure (a : α) : (pure a : Checked α).lookups = [] := rfl

@[simp] theorem lookups_bind (x : Checked α) (f : α → Checked β) :
    (x >>= f).lookups = x.lookups ++ (f x.value).lookups := rfl

end Checked

namespace Check

open Checked (report record)

/-! ### Expressions -/

structure View where
  tree : ScopeTree
  scope : Nat
  inFunction : Bool

namespace View

def symbol (v : View) (name : Ident) : Checked (Option Symbol) := do
  let found := v.tree.lookup v.scope name.name
  record name found
  match found with
  | .found symbol => return some symbol
  | .notYetDeclared _ => do
    report (.usedBeforeDeclaration name.name) name.span
    return none
  | .missing => do
    report (.undeclared name.name) name.span
    return none

/-- The symbol that is read under a name. Top-level code is warned if it reads a global variable whose
declaration is still to come. -/
def readSymbol (v : View) (name : Ident) : Checked (Option Symbol) := do
  match ← v.symbol name with
  | none => return none
  | some symbol =>
    if !symbol.initialized && symbol.depth == 0 && !v.inFunction then
      report (.uninitializedGlobal name.name) name.span
    return some symbol

end View

def readType : Option Symbol → Ty
  | some symbol => if symbol.initialized then symbol.type else .unknown
  | none => .unknown

/-- Checks that the arguments fit the parameters; the first argument has the number `index`. -/
def checkArgTypes (name : String) (index : Nat) : List Ty → List (Ty × Span) → Checked Unit
  | expected :: params, (found, span) :: args => do
    if !expected.accepts found then
      report (.argumentMismatch index name expected found) span
    checkArgTypes name (index + 1) params args
  | _, _ => return ()

def checkKnownCall (name : String) (params : List Ty) (args : List (Ty × Span)) (span : Span) :
    Checked Unit :=
  if params.length = args.length then checkArgTypes name 1 params args
  else report (.arity name params.length args.length) span

def checkCallable (name : String) (type : Ty) (span : Span) : Checked Unit :=
  if type = .function ∨ type = .unknown then return ()
  else report (.notCallable name type) span

def checkAssign (target : Ident) (symbol : Option Symbol) (found : Ty) (span : Span) :
    Checked Unit :=
  match symbol with
  | none => return ()
  | some symbol =>
    if symbol.kind.isFunction then report (.assignToFunction target.name) target.span
    else if symbol.type.accepts found then return ()
    else report (.assignMismatch target.name symbol.type found) span

mutual

/-- The type of an expression. The result of a call, and of an operator that does not take its
operands, is unknown. -/
def checkExpr (v : View) : Expr → Checked Ty
  | .literal value _ => return value.type
  | .ident name => return readType (← v.readSymbol name)
  | .assign target value _ => do
    let found ← checkExpr v value
    checkAssign target (← v.symbol target) found value.span
    return found
  | .binary op lhs rhs span => do
    let l ← checkExpr v lhs
    let r ← checkExpr v rhs
    match op.result? l r with
    | some type => return type
    | none =>
      report (.operandMismatch op l r) span
      return .unknown
  | .unary op operand span => do
    let type ← checkExpr v operand
    match op.result? type with
    | some type => return type
    | none =>
      report (.operandMismatchUnary op type) span
      return .unknown
  | .call callee args span => do
    let found ← checkArgs v args
    match callee with
    | .ident name =>
      match ← v.readSymbol name with
      | none => return .unknown
      | some symbol =>
        match symbol.kind with
        | .function params => checkKnownCall name.name params found span
        | _ => if symbol.initialized then checkCallable name.name symbol.type name.span
        return .unknown
    | callee =>
      checkCallable "expression" (← checkExpr v callee) callee.span
      return .unknown

def checkArgs (v : View) : List Expr → Checked (List (Ty × Span))
  | [] => return []
  | arg :: args => do
    let type ← checkExpr v arg
    return (type, arg.span) :: (← checkArgs v args)

end

def checkOption (v : View) : Option Expr → Checked (Option Ty)
  | none => return none
  | some e => return some (← checkExpr v e)

/-! ### Statements -/

structure Context where
  scope : Nat
  inFunction : Bool
  inLoop : Bool

def Context.view (c : Context) (tree : ScopeTree) : View :=
  ⟨tree, c.scope, c.inFunction⟩

def Context.top : Context := ⟨0, false, false⟩

def declare (tree : ScopeTree) (scope : Nat) (symbol : Symbol) : Checked ScopeTree :=
  match tree.declare scope symbol with
  | .ok tree => return tree
  | .error existing => do
    report (.redeclared symbol.name existing.declaredAt.start) symbol.declaredAt
    return tree

def functionSymbol (name : Ident) (params : List Param) (depth : Nat) : Symbol :=
  { name := name.name, kind := .function (params.map fun p => Ty.ofAnnotation p.type)
    type := .function, depth, declaredAt := name.span, initialized := true }

def variableSymbol (name : Ident) (type : Ty) (depth : Nat) (initialized : Bool) : Symbol :=
  { name := name.name, kind := .var, type, depth, declaredAt := name.span, initialized }

def paramSymbol (param : Param) (depth : Nat) : Symbol :=
  { name := param.name.name, kind := .param, type := Ty.ofAnnotation param.type, depth
    declaredAt := param.name.span, initialized := true }

/-- Changes a global symbol if it comes from the declaration at `name`, and not from another one of the
same name. -/
def updateGlobal (tree : ScopeTree) (name : Ident) (f : Symbol → Symbol) : ScopeTree :=
  tree.updateLocal 0 name.name fun s => if s.declaredAt = name.span then f s else s

/-- Declares a variable whose declaration has just been checked. A global variable is known already,
and is now initialized. -/
def declareVariable (tree : ScopeTree) (scope : Nat) (name : Ident) (type : Ty) :
    Checked ScopeTree :=
  if scope = 0 then return updateGlobal tree name fun s => { s with type, initialized := true }
  else declare tree scope (variableSymbol name type (tree.depth scope) true)

def declareParams (scope : Nat) : List Param → ScopeTree → Checked ScopeTree
  | [], tree => return tree
  | param :: params, tree => do
    declareParams scope params (← declare tree scope (paramSymbol param (tree.depth scope)))

/-- Announces the names that the statements of a block declare. -/
def announce (scope : Nat) : List Stmt → ScopeTree → ScopeTree
  | [], tree => tree
  | stmt :: stmts, tree =>
    let tree := match stmt with
      | .varDecl name _ _ _ | .function name _ _ _ _ => tree.announce scope name.name name.span
      | _ => tree
    announce scope stmts tree

def checkCondition (v : View) (word : String) (cond : Expr) : Checked Unit := do
  let type ← checkExpr v cond
  if !type.isBoolOrUnknown then report (.conditionNotBool word type) cond.span

/-- Checks the initial value of a variable; gives the type of the variable. -/
def checkInit (v : View) (name : Ident) (type : Option TypeName) (init : Option Expr) :
    Checked Ty := do
  let found ← checkOption v init
  match type.map Ty.ofTypeName, found, init with
  | some expected, some found, some init =>
    if !expected.accepts found then report (.initMismatch name.name expected found) init.span
    return expected
  | some expected, _, _ => return expected
  | none, some found, _ => return found.inferred
  | none, none, _ => return .unknown

def checkReachable (diverged : Bool) : List Stmt → Checked Unit
  | stmt :: _ => if diverged then report .unreachable stmt.span else return ()
  | [] => return ()

/-- Whether a branch or the body of a loop brings no braces. It has a scope of its own all the same. -/
def needsScope : Stmt → Bool
  | .block .. => false
  | _ => true

def branchTree (c : Context) (tree : ScopeTree) (stmt : Stmt) : ScopeTree :=
  if needsScope stmt then tree.push c.scope else tree

def branchContext (c : Context) (tree : ScopeTree) (stmt : Stmt) : Context :=
  if needsScope stmt then { c with scope := tree.size } else c

mutual

def checkStmt (c : Context) (tree : ScopeTree) : Stmt → Checked ScopeTree
  | .varDecl name type init _ => do
    declareVariable tree c.scope name (← checkInit (c.view tree) name type init)
  | .expr e _ | .print e _ => do
    let _ ← checkExpr (c.view tree) e
    return tree
  | .block body _ => do
    let inner := tree.size
    let opened := announce inner body (tree.push c.scope)
    let _ ← checkStmts { c with scope := inner } opened false body
    return tree
  | .branch cond thenStmt elseStmt _ => do
    checkCondition (c.view tree) "if" cond
    let _ ← checkStmt (branchContext c tree thenStmt) (branchTree c tree thenStmt) thenStmt
    match elseStmt with
    | none => return tree
    | some elseStmt =>
      let _ ← checkStmt (branchContext c tree elseStmt) (branchTree c tree elseStmt) elseStmt
      return tree
  | .loop cond body _ => do
    checkCondition (c.view tree) "while" cond
    let looping := { c with inLoop := true }
    let _ ← checkStmt (branchContext looping tree body) (branchTree looping tree body) body
    return tree
  | .function name params body _ _ => do
    let tree ←
      if c.scope = 0 then pure tree
      else declare tree c.scope (functionSymbol name params (tree.depth c.scope))
    let inner := tree.size
    let opened ← declareParams inner params (tree.push c.scope)
    let _ ← checkStmts ⟨inner, true, false⟩ (announce inner body opened) false body
    return tree
  | .returnWith value span => do
    if !c.inFunction then report .returnOutside span
    let _ ← checkOption (c.view tree) value
    return tree
  | .breakLoop span => do
    if !c.inLoop then report .breakOutside span
    return tree
  | .continueLoop span => do
    if !c.inLoop then report .continueOutside span
    return tree

/-- Checks statements in order. `warned` says that unreachable code has been passed already, which is
reported once. -/
def checkStmts (c : Context) (tree : ScopeTree) (warned : Bool) : List Stmt → Checked ScopeTree
  | [] => return tree
  | stmt :: stmts => do
    let tree ← checkStmt c tree stmt
    checkReachable (stmt.diverges && !warned) stmts
    checkStmts c tree (warned || stmt.diverges) stmts

end

/-! ### Programs -/

def declareItems : List Stmt → ScopeTree → Checked ScopeTree
  | [], tree => return tree
  | item :: items, tree => do
    let tree ← match item with
      | .function name params _ _ _ => declare tree 0 (functionSymbol name params 0)
      | .varDecl name type _ _ => declare tree 0 (variableSymbol name (Ty.ofAnnotation type) 0 false)
      | _ => pure tree
    declareItems items tree

/-- The type of the initial value of the global variable declared at `decl`, from the declarations
alone. A variable that is declared later is still nil at that point, so its type is unknown. -/
def initializerType (tree : ScopeTree) (decl : Span) : Expr → Ty
  | .literal value _ => value.type
  | .ident name =>
    match tree.lookupLocal 0 name.name with
    | some symbol =>
      if symbol.kind.isFunction ∨ symbol.declaredAt.start.offset < decl.start.offset then symbol.type
      else .unknown
    | none => .unknown
  | .assign _ value _ => initializerType tree decl value
  | .binary op lhs rhs _ =>
    (op.result? (initializerType tree decl lhs) (initializerType tree decl rhs)).getD .unknown
  | .unary op operand _ => (op.result? (initializerType tree decl operand)).getD .unknown
  | .call .. => .unknown

/-- Gives the global variables without annotation the types of their initial values. Then a function
sees the same types, wherever it stands. -/
def inferItems : List Stmt → ScopeTree → ScopeTree
  | [], tree => tree
  | item :: items, tree =>
    let tree := match item with
      | .varDecl name none (some init) _ =>
        let type := (initializerType tree name.span init).inferred
        updateGlobal tree name fun s => { s with type }
      | _ => tree
    inferItems items tree

def declareGlobals (items : List Stmt) : Checked ScopeTree := do
  return inferItems items (← declareItems items .new)

end Check

/-- What checking found: reports, the global symbols in the order of their declarations, and what the
names of the program mean where they stand. -/
structure CheckResult where
  diagnostics : List Diagnostic
  symbols : List Symbol
  lookups : List (Ident × Lookup)

def Program.check (p : Program) : CheckResult :=
  let checked : Checked ScopeTree := do
    Check.checkStmts .top (← Check.declareGlobals p.items) false p.items
  ⟨checked.diagnostics, checked.value.globals, checked.lookups⟩

end Scriptlet
