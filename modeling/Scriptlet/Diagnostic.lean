import Scriptlet.Span

/-!
# Diagnostics

What a phase has to say about a program: plain data with a stable code. The codes are grouped by
phase: below 100 lexical, then 100, 200 and 300 for the other three. `Diagnostic.line` is the form
shown to people.
-/

namespace Scriptlet

inductive Phase where
  | lexical
  | syntactic
  | semantic
  | execution
deriving DecidableEq, Repr, Inhabited

def Phase.name : Phase → String
  | .lexical => "lexical"
  | .syntactic => "syntax"
  | .semantic => "semantic"
  | .execution => "execution"

inductive Severity where
  | error
  | warning
deriving DecidableEq, Repr, Inhabited

def Severity.name : Severity → String
  | .error => "error"
  | .warning => "warning"

inductive Code where
  | invalidCharacter
  | unterminatedString
  | invalidEscape
  | unterminatedComment
  | invalidNumber
  | unexpectedToken
  | unmatchedDelimiter
  | missingTerminator
  | expectedExpression
  | expectedIdentifier
  | invalidAssignmentTarget
  | nestingTooDeep
  | nestedFunction
  | undeclaredIdentifier
  | redeclaration
  | typeMismatch
  | arityMismatch
  | useBeforeDeclaration
  | invalidControlFlow
  | notCallable
  | unreachableCode
  | uninitializedGlobal
  | divisionByZero
  | stackOverflow
  | timeout
  | runtimeType
  | runtimeNotCallable
  | integerOverflow
  | outputLimit
  | runtimeArity
  | valueTooLarge
deriving DecidableEq, Repr, Inhabited

namespace Code

def number : Code → Nat
  | invalidCharacter => 1
  | unterminatedString => 2
  | invalidEscape => 3
  | unterminatedComment => 4
  | invalidNumber => 5
  | unexpectedToken => 100
  | unmatchedDelimiter => 101
  | missingTerminator => 102
  | expectedExpression => 103
  | expectedIdentifier => 104
  | invalidAssignmentTarget => 105
  | nestingTooDeep => 106
  | nestedFunction => 107
  | undeclaredIdentifier => 200
  | redeclaration => 201
  | typeMismatch => 202
  | arityMismatch => 203
  | useBeforeDeclaration => 204
  | invalidControlFlow => 205
  | notCallable => 206
  | unreachableCode => 207
  | uninitializedGlobal => 208
  | divisionByZero => 300
  | stackOverflow => 301
  | timeout => 302
  | runtimeType => 303
  | runtimeNotCallable => 304
  | integerOverflow => 305
  | outputLimit => 306
  | runtimeArity => 307
  | valueTooLarge => 308

def all : List Code :=
  [invalidCharacter, unterminatedString, invalidEscape, unterminatedComment, invalidNumber,
    unexpectedToken, unmatchedDelimiter, missingTerminator, expectedExpression, expectedIdentifier,
    invalidAssignmentTarget, nestingTooDeep, nestedFunction, undeclaredIdentifier, redeclaration,
    typeMismatch, arityMismatch, useBeforeDeclaration, invalidControlFlow, notCallable,
    unreachableCode, uninitializedGlobal, divisionByZero, stackOverflow, timeout, runtimeType,
    runtimeNotCallable, integerOverflow, outputLimit, runtimeArity, valueTooLarge]

def ofNumber? (n : Nat) : Option Code :=
  all.find? (·.number == n)

/-- The two codes of warnings; all others are errors. -/
def isWarning : Code → Bool
  | unreachableCode | uninitializedGlobal => true
  | _ => false

/-- The code as it is written: `E0200`, or `W0207` for a warning. Numbers have four places. -/
def text (c : Code) : String :=
  let digits := toString c.number
  let zeros := String.ofList (List.replicate (4 - digits.length) '0')
  (if c.isWarning then "W" else "E") ++ zeros ++ digits

end Code

structure Diagnostic where
  phase : Phase
  severity : Severity
  code : Code
  message : String
  span : Span
deriving DecidableEq, Repr, Inhabited

namespace Diagnostic

def isError (d : Diagnostic) : Bool :=
  d.severity == .error

/-- `phase:line:column: severity[code]: message`. -/
def line (d : Diagnostic) : String :=
  s!"{d.phase.name}:{d.span.start.text}: {d.severity.name}[{d.code.text}]: {d.message}"

def anyError (ds : List Diagnostic) : Bool :=
  ds.any isError

end Diagnostic

end Scriptlet
