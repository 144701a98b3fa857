import Scriptlet.Span

/-!
# Tokens

The kinds of token, the tables of operators and keywords, and the token itself: a kind, the exact
text, and where it stands. `Token.stringValue` reads the text of a string literal.
-/

namespace Scriptlet

namespace Token

inductive Kind where
  | eof
  | ident
  | number
  | fnumber
  | str
  | lparen
  | rparen
  | lbrace
  | rbrace
  | comma
  | semicolon
  | plus
  | minus
  | star
  | slash
  | percent
  | equal
  | equalEqual
  | bang
  | bangEqual
  | less
  | lessEqual
  | greater
  | greaterEqual
  | andAnd
  | orOr
  | letWord
  | funcWord
  | ifWord
  | elseWord
  | whileWord
  | returnWord
  | printWord
  | breakWord
  | continueWord
  | trueWord
  | falseWord
  | nilWord
  | intWord
  | floatWord
  | boolWord
  | stringWord
deriving DecidableEq, Repr, Inhabited

namespace Kind

/-- The name under which a kind is reported. -/
def name : Kind → String
  | eof => "EOF"
  | ident => "IDENT"
  | number => "NUMBER"
  | fnumber => "FNUMBER"
  | str => "STR"
  | lparen => "LPAREN"
  | rparen => "RPAREN"
  | lbrace => "LBRACE"
  | rbrace => "RBRACE"
  | comma => "COMMA"
  | semicolon => "SEMICOLON"
  | plus => "PLUS"
  | minus => "MINUS"
  | star => "STAR"
  | slash => "SLASH"
  | percent => "PERCENT"
  | equal => "EQUAL"
  | equalEqual => "EQUAL_EQUAL"
  | bang => "BANG"
  | bangEqual => "BANG_EQUAL"
  | less => "LESS"
  | lessEqual => "LESS_EQUAL"
  | greater => "GREATER"
  | greaterEqual => "GREATER_EQUAL"
  | andAnd => "AND_AND"
  | orOr => "OR_OR"
  | letWord => "LET"
  | funcWord => "FUNC"
  | ifWord => "IF"
  | elseWord => "ELSE"
  | whileWord => "WHILE"
  | returnWord => "RETURN"
  | printWord => "PRINT"
  | breakWord => "BREAK"
  | continueWord => "CONTINUE"
  | trueWord => "TRUE"
  | falseWord => "FALSE"
  | nilWord => "NIL"
  | intWord => "INT"
  | floatWord => "FLOAT"
  | boolWord => "BOOL"
  | stringWord => "STRING"

def all : List Kind :=
  [eof, ident, number, fnumber, str, lparen, rparen, lbrace, rbrace, comma, semicolon, plus, minus,
    star, slash, percent, equal, equalEqual, bang, bangEqual, less, lessEqual, greater,
    greaterEqual, andAnd, orOr, letWord, funcWord, ifWord, elseWord, whileWord, returnWord,
    printWord, breakWord, continueWord, trueWord, falseWord, nilWord, intWord, floatWord, boolWord,
    stringWord]

def ofName? (s : String) : Option Kind :=
  all.find? (·.name == s)

def ofWord? : String → Option Kind
  | "let" => some letWord
  | "func" => some funcWord
  | "if" => some ifWord
  | "else" => some elseWord
  | "while" => some whileWord
  | "return" => some returnWord
  | "print" => some printWord
  | "break" => some breakWord
  | "continue" => some continueWord
  | "true" => some trueWord
  | "false" => some falseWord
  | "nil" => some nilWord
  | "int" => some intWord
  | "float" => some floatWord
  | "bool" => some boolWord
  | "string" => some stringWord
  | _ => none

def ofChar? : Char → Option Kind
  | '(' => some lparen
  | ')' => some rparen
  | '{' => some lbrace
  | '}' => some rbrace
  | ',' => some comma
  | ';' => some semicolon
  | '+' => some plus
  | '-' => some minus
  | '*' => some star
  | '/' => some slash
  | '%' => some percent
  | '=' => some equal
  | '!' => some bang
  | '<' => some less
  | '>' => some greater
  | _ => none

def ofPair? : Char → Char → Option Kind
  | '=', '=' => some equalEqual
  | '!', '=' => some bangEqual
  | '<', '=' => some lessEqual
  | '>', '=' => some greaterEqual
  | '&', '&' => some andAnd
  | '|', '|' => some orOr
  | _, _ => none

/-- The keywords that may begin a statement. Reading resumes at one of them after an error. -/
def startsStatement : Kind → Bool
  | letWord | funcWord | ifWord | whileWord | returnWord | printWord | breakWord | continueWord
  | intWord | floatWord | boolWord | stringWord => true
  | _ => false

end Kind

end Token

structure Token where
  kind : Token.Kind
  lexeme : String
  span : Span
deriving DecidableEq, Repr, Inhabited

namespace Token

def endAt (p : Position) : Token := ⟨.eof, "", .point p⟩

def described (t : Token) : String :=
  if t.kind = .eof then "end of input" else s!"'{t.lexeme}'"

def escaped (c : Char) : Char :=
  match c with
  | 'n' => '\n'
  | 't' => '\t'
  | 'r' => '\r'
  | '0' => '\x00'
  | _ => c

/-- Reads the escapes of a text. A backslash with nothing after it stands for itself. -/
def unescape : List Char → List Char
  | [] => []
  | '\\' :: c :: cs => escaped c :: unescape cs
  | c :: cs => c :: unescape cs

/-- What stands between the quotes of a string literal; a text that is not quoted on both sides is
taken as it is. -/
def unquote (cs : List Char) : List Char :=
  match cs with
  | '"' :: inner => if inner.getLast? = some '"' then inner.dropLast else cs
  | _ => cs

def stringValue (lexeme : String) : String :=
  String.ofList (unescape (unquote lexeme.toList))

end Token

end Scriptlet
