import Scriptlet.Tree

/-!
# The shape of a tree

Two trees have the same shape if they differ in spans only: `erase` puts the same span everywhere.
A statement is open if an `else` right after it would belong to it; `ElseNearest` says of a tree that
no `else` passes over an `if` that could have taken it.
-/

namespace Scriptlet

def Ident.erase (i : Ident) : Ident := { i with span := default }

def Param.erase (p : Param) : Param := { p with name := p.name.erase }

mutual

def Expr.erase : Expr → Expr
  | .literal value _ => .literal value default
  | .ident name => .ident name.erase
  | .assign target value _ => .assign target.erase value.erase default
  | .binary op lhs rhs _ => .binary op lhs.erase rhs.erase default
  | .unary op operand _ => .unary op operand.erase default
  | .call callee args _ => .call callee.erase (Expr.eraseAll args) default

def Expr.eraseAll : List Expr → List Expr
  | [] => []
  | e :: es => e.erase :: Expr.eraseAll es

end

mutual

def Stmt.erase : Stmt → Stmt
  | .varDecl name type init _ => .varDecl name.erase type (init.map Expr.erase) default
  | .expr e _ => .expr e.erase default
  | .print e _ => .print e.erase default
  | .block body _ => .block (Stmt.eraseAll body) default
  | .branch cond thenStmt none _ => .branch cond.erase thenStmt.erase none default
  | .branch cond thenStmt (some elseStmt) _ =>
    .branch cond.erase thenStmt.erase (some elseStmt.erase) default
  | .loop cond body _ => .loop cond.erase body.erase default
  | .function name params body _ _ =>
    .function name.erase (params.map Param.erase) (Stmt.eraseAll body) default default
  | .returnWith value _ => .returnWith (value.map Expr.erase) default
  | .breakLoop _ => .breakLoop default
  | .continueLoop _ => .continueLoop default

def Stmt.eraseAll : List Stmt → List Stmt
  | [] => []
  | s :: ss => s.erase :: Stmt.eraseAll ss

end

def Program.erase (p : Program) : Program := ⟨Stmt.eraseAll p.items, default⟩

namespace Stmt

/-- Whether the statement ends with an `if` that has no `else`. -/
def isOpen : Stmt → Bool
  | branch _ _ none _ => true
  | branch _ _ (some elseStmt) _ => elseStmt.isOpen
  | loop _ body _ => body.isOpen
  | _ => false

mutual

/-- Every `else` belongs to the nearest `if` that is still open. -/
def ElseNearest : Stmt → Prop
  | .block body _ => ElseNearestAll body
  | .branch _ thenStmt none _ => thenStmt.ElseNearest
  | .branch _ thenStmt (some elseStmt) _ =>
    thenStmt.isOpen = false ∧ thenStmt.ElseNearest ∧ elseStmt.ElseNearest
  | .loop _ body _ => body.ElseNearest
  | .function _ _ body _ _ => ElseNearestAll body
  | _ => True

def ElseNearestAll : List Stmt → Prop
  | [] => True
  | s :: ss => s.ElseNearest ∧ ElseNearestAll ss

end

end Stmt

def Program.ElseNearest (p : Program) : Prop := Stmt.ElseNearestAll p.items

end Scriptlet
