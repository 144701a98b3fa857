import Scriptlet.Decimal.Layout
import Scriptlet.Typing

/-!
# Values

What a running program computes with.
-/

namespace Scriptlet

structure FuncDecl where
  name : Ident
  params : List Param
  body : List Stmt

/-- A function: what its declaration says and where that stands, which tells it from others that look alike. -/
structure Func extends FuncDecl where
  path : TreePath

inductive Value where
  | int (n : Int64)
  | float (x : Float)
  | bool (b : Bool)
  | str (s : String)
  | nil
  | function (f : Func)

namespace Value

instance : Inhabited Value := ⟨nil⟩

def type : Value → Ty
  | int _ => .int
  | float _ => .float
  | bool _ => .bool
  | str _ => .str
  | nil => .nil
  | function _ => .function

def ofLiteral : Literal → Value
  | .int n => int n
  | .float x => float x
  | .bool b => bool b
  | .str s => str s
  | .nil => nil

/-- The value of a number as a float; an int goes to the nearest one. -/
def asFloat? : Value → Option Float
  | int n => some n.toFloat
  | float x => some x
  | _ => none

/-- Whether two values are equal. Numbers of different types are compared as floats, and two functions are equal
if they are one declaration. -/
def equals : Value → Value → Bool
  | int a, int b => a == b
  | bool a, bool b => a == b
  | str a, str b => a == b
  | nil, nil => true
  | function f, function g => f.path = g.path
  | a, b =>
    match a.asFloat?, b.asFloat? with
    | some x, some y => x == y
    | _, _ => false

def text : Value → String
  | int n => toString n.toInt
  | float x => Decimal.printed x
  | bool b => if b then "true" else "false"
  | str s => s
  | nil => "nil"
  | function f => s!"<func {f.name.name}>"

end Value

end Scriptlet
