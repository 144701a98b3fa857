import Scriptlet.Diagnostic
import Scriptlet.Typing

/-!
# Run-time faults

Why a run can stop early.
-/

namespace Scriptlet.Run

inductive Fault where
  | divisionByZero
  | moduloByZero
  | stackOverflow (limit : Nat)
  | stepBudget (budget : Nat)
  | deadline (limitMs : Nat)
  | undefined (name : String)
  | conditionNotBool (found : Ty)
  | storeMismatch (name : String) (expected found : Ty)
  | operands (op : BinaryOp) (lhs rhs : Ty)
  | operand (op : UnaryOp) (found : Ty)
  | notCallable (found : Ty)
  | integerOverflow (symbol : String)
  | outputLimit (limit : Nat)
  | valueTooLarge (limit : Nat)
  | arity (name : String) (expected found : Nat)
deriving DecidableEq, Repr

namespace Fault

def code : Fault → Code
  | divisionByZero | moduloByZero => .divisionByZero
  | stackOverflow _ => .stackOverflow
  | stepBudget _ | deadline _ => .timeout
  | undefined _ | conditionNotBool _ | storeMismatch .. | operands .. | operand .. => .runtimeType
  | notCallable _ => .runtimeNotCallable
  | integerOverflow _ => .integerOverflow
  | outputLimit _ => .outputLimit
  | valueTooLarge _ => .valueTooLarge
  | arity .. => .runtimeArity

def message : Fault → String
  | divisionByZero => "division by zero"
  | moduloByZero => "modulo by zero"
  | stackOverflow limit => s!"maximum call depth of {limit} exceeded"
  | stepBudget budget => s!"step budget of {budget} exhausted"
  | deadline limitMs => s!"execution exceeded the time limit of {limitMs} ms"
  | undefined name => s!"undefined variable '{name}'"
  | conditionNotBool found => s!"condition must be bool, found {found.name}"
  | storeMismatch name expected found =>
    s!"cannot store a value of type {found.name} in '{name}' of type {expected.name}"
  | operands op lhs rhs =>
    s!"operator '{op.symbol}' cannot be applied to {lhs.name} and {rhs.name}"
  | operand op found => s!"operator '{op.symbol}' cannot be applied to {found.name}"
  | notCallable found => s!"value of type {found.name} is not callable"
  | integerOverflow symbol => s!"integer overflow in '{symbol}'"
  | outputLimit limit => s!"output exceeded the limit of {limit} bytes"
  | valueTooLarge limit => s!"string value exceeds the limit of {limit} bytes"
  | arity name expected found => s!"function '{name}' expects {expected} arguments, found {found}"

def isTimeout (f : Fault) : Bool :=
  f.code = .timeout

end Fault

/-- A fault and the place in the program where it arose. -/
structure Failure where
  fault : Fault
  span : Span
deriving DecidableEq, Repr

def Failure.diagnostic (f : Failure) : Diagnostic :=
  ⟨.execution, .error, f.fault.code, f.fault.message, f.span⟩

end Scriptlet.Run
