import Scriptlet.Json
import Scriptlet.Tree

/-!
# Outlines

The outline of a tree is its shape without spans, as a JSON value, so that programs that differ only
in their formatting have equal outlines. The fields of an object are in alphabetical order.
-/

namespace Scriptlet

def Literal.outline : Literal → Json
  | int n => .int n.toInt
  | float x => if x.isFinite then .float x else .null
  | bool b => .bool b
  | str s => .str s
  | nil => .null

def TypeName.outline (type : Option TypeName) : Json :=
  Json.option (fun t => .str t.name) type

def Param.outline (p : Param) : Json :=
  .obj [("name", .str p.name.name), ("type", TypeName.outline p.type)]

mutual

def Expr.outline : Expr → Json
  | .literal value _ => .obj [("node", .str "Literal"), ("value", value.outline)]
  | .ident name => .obj [("name", .str name.name), ("node", .str "Identifier")]
  | .assign target value _ =>
    .obj [("node", .str "Assignment"), ("target", .str target.name), ("value", value.outline)]
  | .binary op lhs rhs _ =>
    .obj [("lhs", lhs.outline), ("node", .str "BinaryExpr"), ("op", .str op.symbol),
      ("rhs", rhs.outline)]
  | .unary op operand _ =>
    .obj [("node", .str "UnaryExpr"), ("op", .str op.symbol), ("operand", operand.outline)]
  | .call callee args _ =>
    .obj [("args", .arr (Expr.outlines args)), ("callee", callee.outline),
      ("node", .str "CallExpr")]

def Expr.outlines : List Expr → List Json
  | [] => []
  | e :: es => e.outline :: Expr.outlines es

end

def Expr.outlineOption : Option Expr → Json
  | none => .null
  | some e => e.outline

mutual

def Stmt.outline : Stmt → Json
  | .varDecl name type init _ =>
    .obj [("init", Expr.outlineOption init), ("name", .str name.name), ("node", .str "VarDecl"),
      ("type", TypeName.outline type)]
  | .expr e _ => .obj [("expr", e.outline), ("node", .str "ExprStmt")]
  | .print e _ => .obj [("expr", e.outline), ("node", .str "PrintStmt")]
  | .block body _ => .obj [("body", .arr (Stmt.outlines body)), ("node", .str "Block")]
  | .branch cond thenStmt none _ =>
    .obj [("cond", cond.outline), ("else", .null), ("node", .str "IfStmt"),
      ("then", thenStmt.outline)]
  | .branch cond thenStmt (some elseStmt) _ =>
    .obj [("cond", cond.outline), ("else", elseStmt.outline), ("node", .str "IfStmt"),
      ("then", thenStmt.outline)]
  | .loop cond body _ =>
    .obj [("body", body.outline), ("cond", cond.outline), ("node", .str "WhileStmt")]
  | .function name params body _ _ =>
    .obj [("body", .obj [("body", .arr (Stmt.outlines body)), ("node", .str "Block")]),
      ("name", .str name.name), ("node", .str "FunctionDecl"), ("params", Json.list Param.outline params)]
  | .returnWith value _ =>
    .obj [("node", .str "ReturnStmt"), ("value", Expr.outlineOption value)]
  | .breakLoop _ => .obj [("node", .str "BreakStmt")]
  | .continueLoop _ => .obj [("node", .str "ContinueStmt")]

def Stmt.outlines : List Stmt → List Json
  | [] => []
  | s :: ss => s.outline :: Stmt.outlines ss

end

def Program.outline (p : Program) : Json :=
  .obj [("body", .arr (Stmt.outlines p.items)), ("node", .str "Program")]

end Scriptlet
