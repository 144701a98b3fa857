import Scriptlet.Tree

/-!
# Types

The types that checking works with: those of values, and `unknown` for what only a run can tell.
`unknown` agrees with everything, so that no error is reported that might not be one.
-/

namespace Scriptlet

inductive Ty where
  | int
  | float
  | bool
  | str
  | nil
  | function
  | unknown
deriving DecidableEq, Repr, Inhabited

namespace Ty

def name : Ty → String
  | int => "int"
  | float => "float"
  | bool => "bool"
  | str => "string"
  | nil => "nil"
  | function => "function"
  | unknown => "unknown"

def reportName : Ty → String
  | str => "str"
  | t => t.name

def all : List Ty := [int, float, bool, str, nil, function, unknown]

def ofName? (s : String) : Option Ty :=
  all.find? (·.name == s)

def ofTypeName : TypeName → Ty
  | .int => int
  | .float => float
  | .bool => bool
  | .string => str

def ofAnnotation (type : Option TypeName) : Ty :=
  (type.map ofTypeName).getD unknown

def isNumeric (t : Ty) : Bool :=
  t = int ∨ t = float

def isNumericOrUnknown (t : Ty) : Bool :=
  t.isNumeric || t = unknown

def isTextOrUnknown (t : Ty) : Bool :=
  t = str ∨ t = unknown

def isBoolOrUnknown (t : Ty) : Bool :=
  t = bool ∨ t = unknown

/-- Whether a slot of type `slot` takes a value of type `value`. An int widens to a float, and nil
fits everywhere. -/
def accepts (slot value : Ty) : Bool :=
  slot = value ∨ slot = unknown ∨ value = unknown ∨ value = nil ∨ (slot = float ∧ value = int)

/-- The type that a variable without annotation takes from its initial value. -/
def inferred : Ty → Ty
  | nil => unknown
  | t => t

def arithmetic? (lhs rhs : Ty) : Option Ty :=
  if lhs = int ∧ rhs = int then some int
  else if lhs.isNumeric ∧ rhs.isNumeric then some float
  else if lhs.isNumericOrUnknown ∧ rhs.isNumericOrUnknown then some unknown
  else none

/-- The type of `lhs + rhs`, which also joins texts. -/
def sum? (lhs rhs : Ty) : Option Ty :=
  if lhs = str ∧ rhs = str then some str
  else if lhs = unknown ∧ rhs.isTextOrUnknown ∨ lhs.isTextOrUnknown ∧ rhs = unknown then some unknown
  else arithmetic? lhs rhs

end Ty

def Literal.type : Literal → Ty
  | int _ => .int
  | float _ => .float
  | bool _ => .bool
  | str _ => .str
  | nil => .nil

/-- The type of the result of an operator, if it takes such operands. -/
def BinaryOp.result? (op : BinaryOp) (lhs rhs : Ty) : Option Ty :=
  match op with
  | add => Ty.sum? lhs rhs
  | sub | mul | div | rem => Ty.arithmetic? lhs rhs
  | lt | le | gt | ge =>
    if lhs.isNumericOrUnknown ∧ rhs.isNumericOrUnknown ∨ lhs.isTextOrUnknown ∧ rhs.isTextOrUnknown
    then some .bool else none
  | eq | ne =>
    if lhs = rhs ∨ lhs = .unknown ∨ rhs = .unknown ∨ lhs = .nil ∨ rhs = .nil ∨
      (lhs.isNumeric ∧ rhs.isNumeric)
    then some .bool else none
  | and | or => if lhs.isBoolOrUnknown ∧ rhs.isBoolOrUnknown then some .bool else none

def UnaryOp.result? (op : UnaryOp) (operand : Ty) : Option Ty :=
  match op with
  | neg => if operand.isNumericOrUnknown then some operand else none
  | not => if operand.isBoolOrUnknown then some .bool else none

end Scriptlet
