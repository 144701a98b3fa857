import Scriptlet.Diagnostic
import Scriptlet.Token

/-!
# Reading tokens

The state of a reader of tokens, and the steps that a grammar is made of. A step that cannot go on
records one diagnostic and gives up; `Reader.nested` and `Reader.deepen` count levels of nesting, of
which there are at most `maxNesting`.
-/

namespace Scriptlet

def maxNesting : Nat := 128

namespace Reader

/-- What can be wrong with a row of tokens. `found` is the token in the way. -/
inductive Fault where
  | unexpected (what : String) (found : Token)
  | missingTerminator (context : String) (found : Token)
  | expectedIdentifier (what : String) (found : Token)
  | expectedExpression (found : Token)
  | unclosedParen (opening found : Token)
  | unmatchedBrace
  | unclosedBrace
  | invalidAssignmentTarget
  | nestingTooDeep
  | nestedFunction
deriving DecidableEq, Repr

namespace Fault

def code : Fault → Code
  | unexpected .. => .unexpectedToken
  | missingTerminator .. => .missingTerminator
  | expectedIdentifier .. => .expectedIdentifier
  | expectedExpression _ => .expectedExpression
  | unclosedParen .. | unmatchedBrace | unclosedBrace => .unmatchedDelimiter
  | invalidAssignmentTarget => .invalidAssignmentTarget
  | nestingTooDeep => .nestingTooDeep
  | nestedFunction => .nestedFunction

def expectedFound (what : String) (found : Token) : String :=
  s!"expected {what}, found {found.described}"

def message : Fault → String
  | unexpected what found | expectedIdentifier what found => expectedFound what found
  | missingTerminator context found => expectedFound s!"';' {context}" found
  | expectedExpression found => expectedFound "expression" found
  | unclosedParen opening found =>
    expectedFound s!"')' to close '{opening.lexeme}' at {opening.span.start.text}" found
  | unmatchedBrace => "unmatched '\x7d'"
  | unclosedBrace => "unclosed '\x7b'"
  | invalidAssignmentTarget => "invalid assignment target"
  | nestingTooDeep => "program is nested too deeply"
  | nestedFunction => "function declarations are only allowed at the top level"

def diagnostic (f : Fault) (span : Span) : Diagnostic :=
  ⟨.syntactic, .error, f.code, f.message, span⟩

end Fault

structure State where
  /-- the tokens not yet read -/
  rest : List Token
  /-- the end of input that stands after them -/
  eof : Token
  /-- where the last token read ends -/
  lastStop : Nat
  /-- the current level of nesting -/
  depth : Nat
  diagnostics : Array Diagnostic

namespace State

def peek (s : State) : Token :=
  s.rest.headD s.eof

/-- The state after the next token. An end of input is never passed, also if tokens follow it. -/
def advance (s : State) : State :=
  match s.rest with
  | [] => s
  | t :: ts => if t.kind = .eof then s else { s with rest := ts, lastStop := t.span.stop }

/-- Passes over tokens up to a boundary of statements: after a semicolon, or before a closing brace, a
keyword that starts a statement or an end of input. -/
def skipTo (lastStop : Nat) : List Token → List Token × Nat
  | [] => ([], lastStop)
  | t :: ts =>
    if t.kind = .eof ∨ t.kind = .rbrace ∨ t.kind.startsStatement then (t :: ts, lastStop)
    else if t.kind = .semicolon then (ts, t.span.stop)
    else skipTo t.span.stop ts

def synchronize (s : State) : State :=
  let (rest, lastStop) := skipTo s.lastStop s.rest
  { s with rest, lastStop }

def report (s : State) (f : Fault) (span : Span) : State :=
  { s with diagnostics := s.diagnostics.push (f.diagnostic span) }

def spanFrom (s : State) (start : Span) : Span :=
  ⟨start.start, max s.lastStop start.stop⟩

end State

structure GaveUp where

end Reader

abbrev Reader (α : Type) := EStateM Reader.GaveUp Reader.State α

namespace Reader

variable {α : Type}

def peek : Reader Token :=
  return (← get).peek

def kind : Reader Token.Kind :=
  return (← peek).kind

def at? (k : Token.Kind) : Reader Bool :=
  return (← kind) = k

def advance : Reader Token :=
  modifyGet fun s => (s.peek, s.advance)

def eat (k : Token.Kind) : Reader Bool := do
  if ← at? k then
    let _ ← advance
    return true
  else
    return false

def report (f : Fault) (span : Span) : Reader Unit :=
  modify (·.report f span)

def giveUp (f : Fault) (span : Span) : Reader α := do
  report f span
  throw ⟨⟩

def giveUpHere (f : Token → Fault) : Reader α := do
  let found ← peek
  giveUp (f found) found.span

def expect (k : Token.Kind) (f : Token → Fault) : Reader Token := do
  if ← at? k then advance else giveUpHere f

def expectSemicolon (context : String) : Reader Token :=
  expect .semicolon (.missingTerminator context)

def expectClosing (opening : Token) : Reader Token :=
  expect .rparen (.unclosedParen opening)

def tooDeep : Reader α :=
  giveUpHere fun _ => .nestingTooDeep

/-- Goes one level deeper, or gives up. A chain of operators or calls deepens the tree without
recursion and uses this directly; the enclosing `nested` returns to its level. -/
def deepen : Reader Unit := do
  if maxNesting ≤ (← get).depth then tooDeep
  else modify fun s => { s with depth := s.depth + 1 }

/-- Runs `p` and returns to level `depth`, whether it succeeds or gives up. -/
def returningTo (depth : Nat) (p : Reader α) : Reader α := fun s =>
  match p s with
  | .ok a s => .ok a { s with depth }
  | .error e s => .error e { s with depth }

def nested (p : Reader α) : Reader α := do
  let depth := (← get).depth
  deepen
  returningTo depth p

/-- One or more items with commas between them; `more` bounds the number of commas. -/
def commaList (item : Reader α) : Nat → Reader (List α)
  | 0 => return [← item]
  | more + 1 => do
    let first ← item
    if ← eat .comma then
      return first :: (← commaList item more)
    else
      return [first]

def commaListUntilParen (item : Reader α) : Reader (List α) := do
  if ← at? .rparen then return []
  else commaList item (← get).rest.length

/-- Runs `p`. If it gives up, resumes at the next boundary of statements, at least one token on. -/
def recovering (p : Reader α) (s : State) : Option α × State :=
  match p s with
  | .ok a s => (some a, s)
  | .error _ after =>
    let after := after.synchronize
    (none, if after.rest.length = s.rest.length then after.advance else after)

def many (stop : Token.Kind → Bool) (p : Reader α) : Nat → State → List α × State
  | 0, s => ([], s)
  | most + 1, s =>
    if stop s.peek.kind then ([], s)
    else
      let (found, s) := recovering p s
      let (others, s) := many stop p most s
      (found.toList ++ others, s)

/-- Runs `p` with recovery until a token of a kind in `stop` comes. Each run reads at least one token,
so there are no more runs than tokens. -/
def manyUntil (stop : Token.Kind → Bool) (p : Reader α) (s : State) : List α × State :=
  many stop p s.rest.length s

end Reader

end Scriptlet
