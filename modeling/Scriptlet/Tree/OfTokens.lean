import Scriptlet.Text.Numeral
import Scriptlet.Tree
import Scriptlet.Tree.Reader

/-!
# From tokens to trees

The grammar. Statements are read by their first token, expressions by the levels of their operators. A
statement that cannot be read is left out of the tree, with one diagnostic, and reading resumes at the
next boundary of statements, so that every row of tokens has a tree.

Each function takes a bound on the levels of nesting below it. At the top that bound is `maxNesting`,
and the level in the state and the bound together never fall below it, so it is always `Reader.deepen`
that refuses.
-/

namespace Scriptlet

open Reader

def Ident.read (what : String) : Reader Ident := do
  let token ← expect .ident (.expectedIdentifier what)
  return ⟨token.lexeme, token.span⟩

/-- The literal that a token is. Numbers that are out of range stand for zero. -/
def Literal.ofToken? (t : Token) : Option Literal :=
  match t.kind with
  | .number => some (.int ((Text.int64? t.lexeme.toList).getD 0))
  | .fnumber => some (.float ((Text.float? t.lexeme.toList).getD 0.0))
  | .str => some (.str (Token.stringValue t.lexeme))
  | .trueWord => some (.bool true)
  | .falseWord => some (.bool false)
  | .nilWord => some .nil
  | _ => none

namespace Expr

mutual

def read : Nat → Reader Expr
  | 0 => tooDeep
  | n + 1 => nested (readAssignment n)
termination_by n => 7 * n

def readAssignment (n : Nat) : Reader Expr := do
  let target ← readBinary n 1
  if ← at? .equal then
    let equal ← advance
    let value ← read n
    match target with
    | .ident name => return .assign name value (name.span.join value.span)
    | _ => giveUp .invalidAssignmentTarget equal.span
  else
    return target
termination_by 7 * n + 6

def readBinary (n : Nat) (least : Nat) : Reader Expr := do
  readBinaryRest n least (← readUnary n)
termination_by 7 * n + 5

/-- The operators that follow a left operand, each taking everything before it as its left side. -/
def readBinaryRest (n : Nat) (least : Nat) (lhs : Expr) : Reader Expr := do
  match BinaryOp.ofKind? (← kind) with
  | none => return lhs
  | some op =>
    if op.level < least then return lhs
    else
      let _ ← advance
      deepen
      match n with
      | 0 => tooDeep
      | n + 1 =>
        let rhs ← readBinary n (op.level + 1)
        readBinaryRest n least (.binary op lhs rhs (lhs.span.join rhs.span))
termination_by 7 * n + 4

def readUnary (n : Nat) : Reader Expr := do
  match UnaryOp.ofKind? (← kind) with
  | none => readCall n
  | some op =>
    let start ← advance
    let operand ← nested (match n with
      | 0 => tooDeep
      | n + 1 => readUnary n)
    return .unary op operand (start.span.join operand.span)
termination_by 7 * n + 3

def readCall (n : Nat) : Reader Expr := do
  readCallRest n (← readPrimary n)
termination_by 7 * n + 2

def readCallRest (n : Nat) (callee : Expr) : Reader Expr := do
  if ← at? .lparen then
    deepen
    let opening ← advance
    match n with
    | 0 => tooDeep
    | n + 1 =>
      let args ← commaListUntilParen (read n)
      let closing ← expectClosing opening
      readCallRest n (.call callee args (callee.span.join closing.span))
  else
    return callee
termination_by 7 * n + 1

def readPrimary (n : Nat) : Reader Expr := do
  let token ← peek
  match Literal.ofToken? token with
  | some value =>
    let _ ← advance
    return .literal value token.span
  | none =>
    if token.kind = .ident then
      let _ ← advance
      return .ident ⟨token.lexeme, token.span⟩
    else if token.kind = .lparen then
      let opening ← advance
      let inner ← read n
      let _ ← expectClosing opening
      return inner
    else
      giveUpHere .expectedExpression
termination_by 7 * n + 1

end

end Expr

def Param.read : Reader Param := do
  let type := TypeName.ofKind? (← kind)
  if type.isSome then
    let _ ← advance
  return ⟨← Ident.read "a parameter name", type⟩

namespace Stmt

def readVarDecl (n : Nat) (start : Span) (type : Option TypeName) : Reader Stmt := do
  let name ← Ident.read "a variable name"
  let init ← if ← eat .equal then some <$> Expr.read n else pure none
  let _ ← expectSemicolon "after variable declaration"
  return .varDecl name type init ((← get).spanFrom start)

def readCondition (n : Nat) (word : String) : Reader Expr := do
  let opening ← expect .lparen (.unexpected s!"'(' after '{word}'")
  let cond ← Expr.read n
  let _ ← expectClosing opening
  return cond

def readReturn (n : Nat) (start : Span) : Reader Stmt := do
  let _ ← advance
  let value ← if ← at? .semicolon then pure none else some <$> Expr.read n
  let _ ← expectSemicolon "after return value"
  return .returnWith value ((← get).spanFrom start)

def readPrint (n : Nat) (start : Span) : Reader Stmt := do
  let _ ← advance
  let e ← readCondition n "print"
  let _ ← expectSemicolon "after print statement"
  return .print e ((← get).spanFrom start)

def readExpr (n : Nat) (start : Span) : Reader Stmt := do
  let e ← Expr.read n
  let _ ← expectSemicolon "after expression"
  return .expr e ((← get).spanFrom start)

def endsBlock (k : Token.Kind) : Bool :=
  k = .rbrace ∨ k = .eof

/-- Statements in braces, and the span from brace to brace. If the end of input comes before the
closing brace, the block ends there. -/
def readBlock (stmt : Reader Stmt) : Reader (List Stmt × Span) := do
  let opening ← expect .lbrace (.unexpected "'\x7b'")
  let body ← modifyGet (manyUntil endsBlock stmt)
  if ← at? .rbrace then
    let closing ← advance
    return (body, opening.span.join closing.span)
  else
    report .unclosedBrace opening.span
    return (body, opening.span.join (← peek).span)

/-- A function declaration. Below the top level it is reported, and read all the same. -/
def readFunction (stmt : Reader Stmt) : Reader Stmt := do
  let start ← advance
  let name ← Ident.read "a function name"
  let opening ← expect .lparen (.unexpected "'(' after function name")
  let params ← commaListUntilParen Param.read
  let _ ← expectClosing opening
  let (body, braces) ← readBlock stmt
  if 1 < (← get).depth then
    report .nestedFunction name.span
  return .function name params body braces (start.span.join braces)

mutual

def read : Nat → Reader Stmt
  | 0 => tooDeep
  | n + 1 => nested (readInner n)
termination_by n => 3 * n

def readInner (n : Nat) : Reader Stmt := do
  let start := (← peek).span
  match ← kind with
  | .letWord =>
    let _ ← advance
    readVarDecl n start none
  | .intWord | .floatWord | .boolWord | .stringWord =>
    let type := TypeName.ofKind? (← advance).kind
    readVarDecl n start type
  | .funcWord => readFunction (read n)
  | .ifWord => readBranch n start
  | .whileWord =>
    let _ ← advance
    let cond ← readCondition n "while"
    let body ← read n
    return .loop cond body ((← get).spanFrom start)
  | .lbrace =>
    let (body, span) ← readBlock (read n)
    return .block body span
  | .returnWord => readReturn n start
  | .printWord => readPrint n start
  | .breakWord =>
    let _ ← advance
    let _ ← expectSemicolon "after 'break'"
    return .breakLoop ((← get).spanFrom start)
  | .continueWord =>
    let _ ← advance
    let _ ← expectSemicolon "after 'continue'"
    return .continueLoop ((← get).spanFrom start)
  | .rbrace => giveUpHere fun _ => .unmatchedBrace
  | _ => readExpr n start
termination_by 3 * n + 2

def readBranch (n : Nat) (start : Span) : Reader Stmt := do
  let _ ← advance
  let cond ← readCondition n "if"
  let thenStmt ← read n
  let elseStmt ← if ← eat .elseWord then some <$> read n else pure none
  return .branch cond thenStmt elseStmt ((← get).spanFrom start)
termination_by 3 * n + 1

end

end Stmt

namespace Reader.State

/-- The end of input that stands after tokens which do not bring their own: at the start of the last
token, but at the offset of its end. -/
def missingEnd (tokens : List Token) : Token :=
  match tokens.getLast? with
  | none => Token.endAt .start
  | some last => Token.endAt { last.span.start with offset := last.span.stop }

def ofTokens (tokens : List Token) : State :=
  let eof := missingEnd tokens
  { rest := tokens, eof, lastStop := (tokens.headD eof).span.start.offset, depth := 0, diagnostics := #[] }

end Reader.State

structure ReadProgram where
  program : Program
  diagnostics : List Diagnostic

def Program.ofState (start : State) : ReadProgram :=
  let (items, stop) := manyUntil (· = .eof) (Stmt.read maxNesting) start
  { program := ⟨items, start.peek.span.join stop.peek.span⟩
    diagnostics := stop.diagnostics.toList }

def Program.ofTokens (tokens : List Token) : ReadProgram := Program.ofState (.ofTokens tokens)

end Scriptlet
