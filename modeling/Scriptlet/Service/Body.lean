import Scriptlet.Json.Lexeme

/-!
# Request bodies

A request carries a program text as JSON: an object with one field `code`, whose value is a string, or
an array that holds just that string. Other fields are passed over, whatever they hold.
-/

namespace Scriptlet.Service

open Json

inductive BodyFault where
  | malformed
  | wrongShape
  | missingCode
  | repeatedCode
deriving DecidableEq, Repr

def BodyFault.message : BodyFault → String
  | malformed => "not a JSON text"
  | wrongShape => "expected an object with a string in the field `code`"
  | missingCode => "missing field `code`"
  | repeatedCode => "duplicate field `code`"

def textOf (written : List UInt8) : Except BodyFault String :=
  match decode written with
  | some s => .ok s
  | none => .error .malformed

def codeOfFields (fields : List (String × Lexeme)) : Except BodyFault String :=
  match fields.filter (·.1 = "code") with
  | [] => .error .missingCode
  | [(_, .string written)] => textOf written
  | [_] => .error .wrongShape
  | _ => .error .repeatedCode

def codeOfLexemes : List Lexeme → Except BodyFault String
  | [.opening .square, .string written, .closing .square] => textOf written
  | .opening .curly :: rest => do
    let fields ← (outerFields 1 rest).mapM fun (key, value) => return (← textOf key, value)
    codeOfFields fields
  | _ => .error .wrongShape

/-- The program text that a request body carries. -/
def codeOf (body : List UInt8) : Except BodyFault String :=
  match lexemes body with
  | some ls => if wellFormed ls then codeOfLexemes ls else .error .malformed
  | none => .error .malformed

end Scriptlet.Service
