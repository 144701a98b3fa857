import Scriptlet.Span
import Scriptlet.Token

/-!
# Program trees

Expressions, statements and programs. Every node knows the span of the text that it stands for; a name
has one span, whether it is declared, read or assigned.
-/

namespace Scriptlet

/-- A name and where it stands. -/
structure Ident where
  name : String
  span : Span
deriving DecidableEq, Repr, Inhabited

inductive TypeName where
  | int
  | float
  | bool
  | string
deriving DecidableEq, Repr

namespace TypeName

def name : TypeName → String
  | int => "int"
  | float => "float"
  | bool => "bool"
  | string => "string"

def ofKind? : Token.Kind → Option TypeName
  | .intWord => some int
  | .floatWord => some float
  | .boolWord => some bool
  | .stringWord => some string
  | _ => none

end TypeName

structure Param where
  name : Ident
  type : Option TypeName
deriving DecidableEq, Repr

inductive BinaryOp where
  | or
  | and
  | eq
  | ne
  | lt
  | le
  | gt
  | ge
  | add
  | sub
  | mul
  | div
  | rem
deriving DecidableEq, Repr

namespace BinaryOp

def symbol : BinaryOp → String
  | or => "||"
  | and => "&&"
  | eq => "=="
  | ne => "!="
  | lt => "<"
  | le => "<="
  | gt => ">"
  | ge => ">="
  | add => "+"
  | sub => "-"
  | mul => "*"
  | div => "/"
  | rem => "%"

def all : List BinaryOp := [or, and, eq, ne, lt, le, gt, ge, add, sub, mul, div, rem]

/-- How tightly an operator binds, from 1 for the loosest. -/
def level : BinaryOp → Nat
  | or => 1
  | and => 2
  | eq | ne => 3
  | lt | le | gt | ge => 4
  | add | sub => 5
  | mul | div | rem => 6

def ofKind? : Token.Kind → Option BinaryOp
  | .orOr => some or
  | .andAnd => some and
  | .equalEqual => some eq
  | .bangEqual => some ne
  | .less => some lt
  | .lessEqual => some le
  | .greater => some gt
  | .greaterEqual => some ge
  | .plus => some add
  | .minus => some sub
  | .star => some mul
  | .slash => some div
  | .percent => some rem
  | _ => none

end BinaryOp

inductive UnaryOp where
  | neg
  | not
deriving DecidableEq, Repr

namespace UnaryOp

def symbol : UnaryOp → String
  | neg => "-"
  | not => "!"

def ofKind? : Token.Kind → Option UnaryOp
  | .minus => some neg
  | .bang => some not
  | _ => none

end UnaryOp

inductive Literal where
  | int (n : Int64)
  | float (x : Float)
  | bool (b : Bool)
  | str (s : String)
  | nil

inductive Expr where
  | literal (value : Literal) (span : Span)
  | ident (name : Ident)
  | assign (target : Ident) (value : Expr) (span : Span)
  | binary (op : BinaryOp) (lhs rhs : Expr) (span : Span)
  | unary (op : UnaryOp) (operand : Expr) (span : Span)
  | call (callee : Expr) (args : List Expr) (span : Span)

def Expr.span : Expr → Span
  | literal _ s | assign _ _ s | binary _ _ _ s | unary _ _ s | call _ _ s => s
  | ident name => name.span

inductive Stmt where
  | varDecl (name : Ident) (type : Option TypeName) (init : Option Expr) (span : Span)
  | expr (e : Expr) (span : Span)
  | print (e : Expr) (span : Span)
  | block (body : List Stmt) (span : Span)
  | branch (cond : Expr) (thenStmt : Stmt) (elseStmt : Option Stmt) (span : Span)
  | loop (cond : Expr) (body : Stmt) (span : Span)
  /-- `braces` is the span of the body. -/
  | function (name : Ident) (params : List Param) (body : List Stmt) (braces : Span) (span : Span)
  | returnWith (value : Option Expr) (span : Span)
  | breakLoop (span : Span)
  | continueLoop (span : Span)

namespace Stmt

def span : Stmt → Span
  | varDecl _ _ _ s | expr _ s | print _ s | block _ s | branch _ _ _ s | loop _ _ s
  | function _ _ _ _ s | returnWith _ s | breakLoop s | continueLoop s => s

/-- Whether what follows the statement in its list can never run. -/
def diverges : Stmt → Bool
  | returnWith .. | breakLoop _ | continueLoop _ => true
  | _ => false

end Stmt

structure Program where
  items : List Stmt
  span : Span

/-- Where a statement stands in a program: its index among the statements of which it is one, and the indices of
those that it stands in, from the innermost. A conditional has its branches as statements, and a loop its body. -/
structure TreePath where
  index : Nat
  around : List Nat
deriving DecidableEq, Repr, Inhabited

namespace TreePath

def first : TreePath := ⟨0, []⟩

def inside (p : TreePath) : TreePath := ⟨0, p.index :: p.around⟩

def next (p : TreePath) : TreePath := { p with index := p.index + 1 }

end TreePath

end Scriptlet
