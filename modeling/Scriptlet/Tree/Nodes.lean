import Scriptlet.Tree

/-!
# The nodes of a tree

How many nodes a tree has, and the list of them from the root down, each with its name and span. The
names that a declaration or an assignment brings along are listed right after their owner, but they are
no nodes of their own and are not counted.
-/

namespace Scriptlet

mutual

def Expr.count : Expr → Nat
  | .literal .. | .ident _ => 1
  | .assign _ value _ => 1 + value.count
  | .binary _ lhs rhs _ => 1 + (lhs.count + rhs.count)
  | .unary _ operand _ => 1 + operand.count
  | .call callee args _ => 1 + (callee.count + Expr.countAll args)

def Expr.countAll : List Expr → Nat
  | [] => 0
  | e :: es => e.count + Expr.countAll es

end

def Expr.countOption : Option Expr → Nat
  | none => 0
  | some e => e.count

mutual

def Stmt.count : Stmt → Nat
  | .varDecl _ _ init _ => 1 + Expr.countOption init
  | .expr e _ | .print e _ => 1 + e.count
  | .block body _ => 1 + Stmt.countAll body
  | .branch cond thenStmt none _ => 1 + (cond.count + thenStmt.count)
  | .branch cond thenStmt (some elseStmt) _ => 1 + (cond.count + thenStmt.count + elseStmt.count)
  | .loop cond body _ => 1 + (cond.count + body.count)
  -- the body is a node of its own
  | .function _ _ body _ _ => 1 + (1 + Stmt.countAll body)
  | .returnWith value _ => 1 + Expr.countOption value
  | .breakLoop _ | .continueLoop _ => 1

def Stmt.countAll : List Stmt → Nat
  | [] => 0
  | s :: ss => s.count + Stmt.countAll ss

end

def Program.count (p : Program) : Nat :=
  1 + Stmt.countAll p.items

mutual

def Expr.nodes : Expr → List (String × Span)
  | .literal _ span => [("Literal", span)]
  | .ident name => [("Identifier", name.span)]
  | .assign target value span =>
    ("Assignment", span) :: ("target", target.span) :: value.nodes
  | .binary _ lhs rhs span => ("BinaryExpr", span) :: (lhs.nodes ++ rhs.nodes)
  | .unary _ operand span => ("UnaryExpr", span) :: operand.nodes
  | .call callee args span => ("CallExpr", span) :: (callee.nodes ++ Expr.nodesAll args)

def Expr.nodesAll : List Expr → List (String × Span)
  | [] => []
  | e :: es => e.nodes ++ Expr.nodesAll es

end

def Expr.nodesOption : Option Expr → List (String × Span)
  | none => []
  | some e => e.nodes

mutual

def Stmt.nodes : Stmt → List (String × Span)
  | .varDecl name _ init span =>
    ("VarDecl", span) :: ("name", name.span) :: Expr.nodesOption init
  | .expr e span => ("ExprStmt", span) :: e.nodes
  | .print e span => ("PrintStmt", span) :: e.nodes
  | .block body span => ("Block", span) :: Stmt.nodesAll body
  | .branch cond thenStmt none span => ("IfStmt", span) :: (cond.nodes ++ thenStmt.nodes)
  | .branch cond thenStmt (some elseStmt) span =>
    ("IfStmt", span) :: (cond.nodes ++ thenStmt.nodes ++ elseStmt.nodes)
  | .loop cond body span => ("WhileStmt", span) :: (cond.nodes ++ body.nodes)
  | .function name params body braces span =>
    ("FunctionDecl", span) :: ("name", name.span) ::
      (params.map (fun p => ("param", p.name.span)) ++ ("Block", braces) :: Stmt.nodesAll body)
  | .returnWith value span => ("ReturnStmt", span) :: Expr.nodesOption value
  | .breakLoop span => [("BreakStmt", span)]
  | .continueLoop span => [("ContinueStmt", span)]

def Stmt.nodesAll : List Stmt → List (String × Span)
  | [] => []
  | s :: ss => s.nodes ++ Stmt.nodesAll ss

end

def Program.nodes (p : Program) : List (String × Span) :=
  ("Program", p.span) :: Stmt.nodesAll p.items

end Scriptlet
