import Scriptlet.Run.Fault
import Scriptlet.Value

/-!
# Operators on values

Integers are computed exactly and must stay within 64 bits; there is no division by zero, not even of
floats. A logical operator decides on its left side whether it looks at the right one, so it is not an
operation on two values and stands apart (`OpForm`).
-/

namespace Scriptlet.Run

inductive Arithmetic where
  | add
  | sub
  | mul
  | div
  | rem
deriving DecidableEq, Repr

inductive Comparison where
  | lt
  | le
  | gt
  | ge
deriving DecidableEq, Repr

inductive StrictOp where
  | equality (negated : Bool)
  | arithmetic (op : Arithmetic)
  | comparison (op : Comparison)
deriving DecidableEq, Repr

inductive OpForm where
  /-- The left side decides if it is `decisive`. -/
  | logical (decisive : Bool)
  | strict (op : StrictOp)
deriving DecidableEq, Repr

def OpForm.of : BinaryOp → OpForm
  | .or => .logical true
  | .and => .logical false
  | .eq => .strict (.equality false)
  | .ne => .strict (.equality true)
  | .lt => .strict (.comparison .lt)
  | .le => .strict (.comparison .le)
  | .gt => .strict (.comparison .gt)
  | .ge => .strict (.comparison .ge)
  | .add => .strict (.arithmetic .add)
  | .sub => .strict (.arithmetic .sub)
  | .mul => .strict (.arithmetic .mul)
  | .div => .strict (.arithmetic .div)
  | .rem => .strict (.arithmetic .rem)

def int64OfInt? (n : Int) : Option Int64 :=
  if Int64.minValue.toInt ≤ n ∧ n ≤ Int64.maxValue.toInt then some (Int64.ofInt n) else none

/-- The remainder of a division that truncates. It counts as out of range if the quotient is. -/
def remainder? (a b : Int) : Option Int64 :=
  (int64OfInt? (a.tdiv b)).bind fun _ => int64OfInt? (a.tmod b)

def inRange (symbol : String) : Option Int64 → Except Fault Value
  | some n => .ok (.int n)
  | none => .error (.integerOverflow symbol)

def Arithmetic.onInts (op : Arithmetic) (symbol : String) (a b : Int64) : Except Fault Value :=
  match op with
  | .add => inRange symbol (int64OfInt? (a.toInt + b.toInt))
  | .sub => inRange symbol (int64OfInt? (a.toInt - b.toInt))
  | .mul => inRange symbol (int64OfInt? (a.toInt * b.toInt))
  | .div =>
    if b = 0 then .error .divisionByZero
    else inRange symbol (int64OfInt? (a.toInt.tdiv b.toInt))
  | .rem =>
    if b = 0 then .error .moduloByZero
    else inRange symbol (remainder? a.toInt b.toInt)

def Arithmetic.onFloats (op : Arithmetic) (a b : Float) : Except Fault Value :=
  match op with
  | .add => .ok (.float (a + b))
  | .sub => .ok (.float (a - b))
  | .mul => .ok (.float (a * b))
  | .div => if b == 0.0 then .error .divisionByZero else .ok (.float (a / b))
  | .rem => if b == 0.0 then .error .moduloByZero else .ok (.float (Decimal.remainder a b))

def Comparison.onInts (op : Comparison) (a b : Int64) : Bool :=
  match op with
  | .lt => a < b
  | .le => a ≤ b
  | .gt => b < a
  | .ge => b ≤ a

def Comparison.onFloats (op : Comparison) (a b : Float) : Bool :=
  match op with
  | .lt => a < b
  | .le => a ≤ b
  | .gt => b < a
  | .ge => b ≤ a

/-- Texts are ordered by the code points of their characters. -/
def Comparison.onTexts (op : Comparison) (a b : String) : Bool :=
  match op with
  | .lt => a < b
  | .le => !decide (b < a)
  | .gt => b < a
  | .ge => !decide (a < b)

/-- The sum of two texts, if it is not longer than `maxBytes`. -/
def concat (maxBytes : Nat) (a b : String) : Except Fault Value :=
  if maxBytes < a.utf8ByteSize + b.utf8ByteSize then .error (.valueTooLarge maxBytes)
  else .ok (.str (a ++ b))

def applyStrict (maxBytes : Nat) (op : BinaryOp) (strict : StrictOp) (lhs rhs : Value) :
    Except Fault Value :=
  let mismatch := .error (.operands op lhs.type rhs.type)
  match strict with
  | .equality negated => .ok (.bool (lhs.equals rhs != negated))
  | .arithmetic a =>
    match lhs, rhs with
    | .int m, .int n => a.onInts op.symbol m n
    | .str s, .str t => if a = .add then concat maxBytes s t else mismatch
    | lhs, rhs =>
      match lhs.asFloat?, rhs.asFloat? with
      | some x, some y => a.onFloats x y
      | _, _ => mismatch
  | .comparison c =>
    match lhs, rhs with
    | .int m, .int n => .ok (.bool (c.onInts m n))
    | .str s, .str t => .ok (.bool (c.onTexts s t))
    | lhs, rhs =>
      match lhs.asFloat?, rhs.asFloat? with
      | some x, some y => .ok (.bool (c.onFloats x y))
      | _, _ => mismatch

def applyUnary (op : UnaryOp) (value : Value) : Except Fault Value :=
  match op, value with
  | .neg, .int n => inRange op.symbol (int64OfInt? (-n.toInt))
  | .neg, .float x => .ok (.float (-x))
  | .not, .bool b => .ok (.bool !b)
  | op, value => .error (.operand op value.type)

/-- Fits a value into a slot: an int is widened for a float slot, nil fits everywhere, and otherwise
the type must be the declared one. -/
def coerce (declared : Option Ty) (name : String) (value : Value) : Except Fault Value :=
  match declared, value with
  | none, value => .ok value
  | some .float, .int n => .ok (.float n.toFloat)
  | some _, .nil => .ok .nil
  | some type, value =>
    if value.type = type then .ok value else .error (.storeMismatch name type value.type)

end Scriptlet.Run
