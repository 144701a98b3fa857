import Scriptlet.Proofs.Shape
import Scriptlet.Text.Numeral
import Scriptlet.Token

/-!
# The grammar of programs

`Derives wide x ts t`: the tokens `ts` are a phrase of the kind `x`, and `t` is its tree. There is one
rule for each alternative of the written grammar, which it names:

    program    := item* EOF
    item       := funcDecl | stmt
    funcDecl   := "func" IDENT "(" params? ")" block
    params     := param ("," param)*
    param      := typeName? IDENT
    typeName   := "int" | "float" | "bool" | "string"
    stmt       := varDecl | ifStmt | whileStmt | block | returnStmt
                | printStmt | "break" ";" | "continue" ";" | exprStmt
    varDecl    := ("let" | typeName) IDENT ("=" expr)? ";"
    ifStmt     := "if" "(" expr ")" stmt ("else" stmt)?
    whileStmt  := "while" "(" expr ")" stmt
    block      := "{" stmt* "}"
    returnStmt := "return" expr? ";"
    printStmt  := "print" "(" expr ")" ";"
    exprStmt   := expr ";"
    expr       := assignment
    assignment := IDENT "=" assignment | logicOr
    logicOr    := logicAnd ("||" logicAnd)*
    logicAnd   := equality ("&&" equality)*
    equality   := relational (("==" | "!=") relational)*
    relational := additive (("<" | "<=" | ">" | ">=") additive)*
    additive   := mult (("+" | "-") mult)*
    mult       := unary (("*" | "/" | "%") unary)*
    unary      := ("!" | "-") unary | call
    call       := primary ("(" args? ")")*
    primary    := NUMBER | FNUMBER | STR | "true" | "false" | "nil" | IDENT | "(" expr ")"

A repetition of operators or calls builds its tree to the left. The spans of nodes are left open; a name
has the span of its token. With `wide` the name on the left of `=` may stand in parentheses, which the
written grammar (`wide = false`) does not allow.
-/

namespace Scriptlet.Grammar

/-- The six levels of binary operators, from the loosest. -/
inductive Rung where
  | logicOr
  | logicAnd
  | equality
  | relational
  | additive
  | mult
deriving DecidableEq

/-- The forms of expression. -/
inductive Form where
  | assignment
  | rung (r : Rung)
  | unary
  | call
  | primary
deriving DecidableEq

namespace Rung

/-- The operators of a level, with the tokens that write them. -/
def operators : Rung → List (Token.Kind × BinaryOp)
  | logicOr => [(.orOr, .or)]
  | logicAnd => [(.andAnd, .and)]
  | equality => [(.equalEqual, .eq), (.bangEqual, .ne)]
  | relational => [(.less, .lt), (.lessEqual, .le), (.greater, .gt), (.greaterEqual, .ge)]
  | additive => [(.plus, .add), (.minus, .sub)]
  | mult => [(.star, .mul), (.slash, .div), (.percent, .rem)]

/-- What the operators of a level stand between. -/
def operand : Rung → Form
  | logicOr => .rung logicAnd
  | logicAnd => .rung equality
  | equality => .rung relational
  | relational => .rung additive
  | additive => .rung mult
  | mult => .unary

end Rung

inductive Nonterminal where
  | program
  | items
  | item
  | funcDecl
  | optParams
  | params
  | param
  | typeName
  | stmts
  | stmt
  | varDecl
  | ifStmt
  | whileStmt
  | block
  | returnStmt
  | printStmt
  | exprStmt
  | expr (form : Form)
  | optArgs
  | args

/-- What a phrase is read as. -/
abbrev Nonterminal.Tree : Nonterminal → Type
  | program => Program
  | items | stmts | block => List Stmt
  | item | funcDecl | stmt | varDecl | ifStmt | whileStmt | returnStmt | printStmt | exprStmt => Stmt
  | optParams | params => List Param
  | param => Param
  | typeName => TypeName
  | expr _ => Expr
  | optArgs | args => List Expr

/-- The name that a token is. -/
def nameOf (t : Token) : Ident := ⟨t.lexeme, t.span⟩

/-- The left side of `=`. -/
inductive Target (wide : Bool) : List Token → Ident → Prop
  | bare {name : Token} (hname : name.kind = .ident) : Target wide [name] (nameOf name)
  | paren {lp rp : Token} {ts : List Token} {name : Ident} (hwide : wide = true)
      (hlp : lp.kind = .lparen) (h : Target wide ts name) (hrp : rp.kind = .rparen) :
      Target wide (lp :: (ts ++ [rp])) name

inductive Derives (wide : Bool) : (x : Nonterminal) → List Token → x.Tree → Prop
  | program {ts : List Token} {items : List Stmt} {eof : Token} {span : Span}
      (hitems : Derives wide .items ts items) (heof : eof.kind = .eof) :
      Derives wide .program (ts ++ [eof]) (Program.mk items span)
  | noItems : Derives wide .items [] []
  | moreItems {ts us : List Token} {s : Stmt} {ss : List Stmt}
      (hs : Derives wide .item ts s) (hss : Derives wide .items us ss) :
      Derives wide .items (ts ++ us) (s :: ss)
  | itemFunc {ts : List Token} {s : Stmt} (h : Derives wide .funcDecl ts s) : Derives wide .item ts s
  | itemStmt {ts : List Token} {s : Stmt} (h : Derives wide .stmt ts s) : Derives wide .item ts s
  | funcDecl {func name lp rp : Token} {ps bs : List Token} {params : List Param} {body : List Stmt}
      {braces span : Span} (hfunc : func.kind = .funcWord) (hname : name.kind = .ident)
      (hlp : lp.kind = .lparen) (hps : Derives wide .optParams ps params) (hrp : rp.kind = .rparen)
      (hbody : Derives wide .block bs body) :
      Derives wide .funcDecl (func :: name :: lp :: (ps ++ rp :: bs))
        (Stmt.function (nameOf name) params body braces span)
  | noParams : Derives wide .optParams [] []
  | someParams {ts : List Token} {ps : List Param} (h : Derives wide .params ts ps) :
      Derives wide .optParams ts ps
  | oneParam {ts : List Token} {p : Param} (h : Derives wide .param ts p) :
      Derives wide .params ts [p]
  | moreParams {ts us : List Token} {comma : Token} {p : Param} {ps : List Param}
      (hp : Derives wide .param ts p) (hcomma : comma.kind = .comma)
      (hps : Derives wide .params us ps) : Derives wide .params (ts ++ comma :: us) (p :: ps)
  | plainParam {name : Token} (hname : name.kind = .ident) :
      Derives wide .param [name] (Param.mk (nameOf name) none)
  | typedParam {ts : List Token} {type : TypeName} {name : Token}
      (htype : Derives wide .typeName ts type) (hname : name.kind = .ident) :
      Derives wide .param (ts ++ [name]) (Param.mk (nameOf name) (some type))
  | intType {t : Token} (h : t.kind = .intWord) : Derives wide .typeName [t] TypeName.int
  | floatType {t : Token} (h : t.kind = .floatWord) : Derives wide .typeName [t] TypeName.float
  | boolType {t : Token} (h : t.kind = .boolWord) : Derives wide .typeName [t] TypeName.bool
  | stringType {t : Token} (h : t.kind = .stringWord) : Derives wide .typeName [t] TypeName.string
  | noStmts : Derives wide .stmts [] []
  | moreStmts {ts us : List Token} {s : Stmt} {ss : List Stmt}
      (hs : Derives wide .stmt ts s) (hss : Derives wide .stmts us ss) :
      Derives wide .stmts (ts ++ us) (s :: ss)
  | stmtVarDecl {ts : List Token} {s : Stmt} (h : Derives wide .varDecl ts s) :
      Derives wide .stmt ts s
  | stmtIf {ts : List Token} {s : Stmt} (h : Derives wide .ifStmt ts s) : Derives wide .stmt ts s
  | stmtWhile {ts : List Token} {s : Stmt} (h : Derives wide .whileStmt ts s) :
      Derives wide .stmt ts s
  | stmtBlock {ts : List Token} {body : List Stmt} {span : Span} (h : Derives wide .block ts body) :
      Derives wide .stmt ts (Stmt.block body span)
  | stmtReturn {ts : List Token} {s : Stmt} (h : Derives wide .returnStmt ts s) :
      Derives wide .stmt ts s
  | stmtPrint {ts : List Token} {s : Stmt} (h : Derives wide .printStmt ts s) :
      Derives wide .stmt ts s
  | stmtBreak {word semi : Token} {span : Span} (hword : word.kind = .breakWord)
      (hsemi : semi.kind = .semicolon) : Derives wide .stmt [word, semi] (Stmt.breakLoop span)
  | stmtContinue {word semi : Token} {span : Span} (hword : word.kind = .continueWord)
      (hsemi : semi.kind = .semicolon) : Derives wide .stmt [word, semi] (Stmt.continueLoop span)
  | stmtExpr {ts : List Token} {s : Stmt} (h : Derives wide .exprStmt ts s) : Derives wide .stmt ts s
  | letPlain {word name semi : Token} {span : Span} (hword : word.kind = .letWord)
      (hname : name.kind = .ident) (hsemi : semi.kind = .semicolon) :
      Derives wide .varDecl [word, name, semi] (Stmt.varDecl (nameOf name) none none span)
  | letInit {word name equal semi : Token} {es : List Token} {e : Expr} {span : Span}
      (hword : word.kind = .letWord) (hname : name.kind = .ident) (hequal : equal.kind = .equal)
      (he : Derives wide (.expr .assignment) es e) (hsemi : semi.kind = .semicolon) :
      Derives wide .varDecl (word :: name :: equal :: (es ++ [semi]))
        (Stmt.varDecl (nameOf name) none (some e) span)
  | typedPlain {ts : List Token} {type : TypeName} {name semi : Token} {span : Span}
      (htype : Derives wide .typeName ts type) (hname : name.kind = .ident)
      (hsemi : semi.kind = .semicolon) :
      Derives wide .varDecl (ts ++ [name, semi]) (Stmt.varDecl (nameOf name) (some type) none span)
  | typedInit {ts es : List Token} {type : TypeName} {name equal semi : Token} {e : Expr} {span : Span}
      (htype : Derives wide .typeName ts type) (hname : name.kind = .ident)
      (hequal : equal.kind = .equal) (he : Derives wide (.expr .assignment) es e)
      (hsemi : semi.kind = .semicolon) :
      Derives wide .varDecl (ts ++ name :: equal :: (es ++ [semi]))
        (Stmt.varDecl (nameOf name) (some type) (some e) span)
  | ifThen {word lp rp : Token} {es ts : List Token} {e : Expr} {s : Stmt} {span : Span}
      (hword : word.kind = .ifWord) (hlp : lp.kind = .lparen)
      (he : Derives wide (.expr .assignment) es e) (hrp : rp.kind = .rparen)
      (hs : Derives wide .stmt ts s) :
      Derives wide .ifStmt (word :: lp :: (es ++ rp :: ts)) (Stmt.branch e s none span)
  | ifThenElse {word lp rp elseWord : Token} {es ts us : List Token} {e : Expr} {s s' : Stmt}
      {span : Span} (hword : word.kind = .ifWord) (hlp : lp.kind = .lparen)
      (he : Derives wide (.expr .assignment) es e) (hrp : rp.kind = .rparen)
      (hs : Derives wide .stmt ts s) (helse : elseWord.kind = .elseWord)
      (hs' : Derives wide .stmt us s') :
      Derives wide .ifStmt (word :: lp :: (es ++ rp :: (ts ++ elseWord :: us)))
        (Stmt.branch e s (some s') span)
  | whileDo {word lp rp : Token} {es ts : List Token} {e : Expr} {s : Stmt} {span : Span}
      (hword : word.kind = .whileWord) (hlp : lp.kind = .lparen)
      (he : Derives wide (.expr .assignment) es e) (hrp : rp.kind = .rparen)
      (hs : Derives wide .stmt ts s) :
      Derives wide .whileStmt (word :: lp :: (es ++ rp :: ts)) (Stmt.loop e s span)
  | block {lb rb : Token} {ts : List Token} {body : List Stmt} (hlb : lb.kind = .lbrace)
      (hbody : Derives wide .stmts ts body) (hrb : rb.kind = .rbrace) :
      Derives wide .block (lb :: (ts ++ [rb])) body
  | returnNone {word semi : Token} {span : Span} (hword : word.kind = .returnWord)
      (hsemi : semi.kind = .semicolon) :
      Derives wide .returnStmt [word, semi] (Stmt.returnWith none span)
  | returnSome {word semi : Token} {es : List Token} {e : Expr} {span : Span}
      (hword : word.kind = .returnWord) (he : Derives wide (.expr .assignment) es e)
      (hsemi : semi.kind = .semicolon) :
      Derives wide .returnStmt (word :: (es ++ [semi])) (Stmt.returnWith (some e) span)
  | print {word lp rp semi : Token} {es : List Token} {e : Expr} {span : Span}
      (hword : word.kind = .printWord) (hlp : lp.kind = .lparen)
      (he : Derives wide (.expr .assignment) es e) (hrp : rp.kind = .rparen)
      (hsemi : semi.kind = .semicolon) :
      Derives wide .printStmt (word :: lp :: (es ++ [rp, semi])) (Stmt.print e span)
  | exprStmt {semi : Token} {es : List Token} {e : Expr} {span : Span}
      (he : Derives wide (.expr .assignment) es e) (hsemi : semi.kind = .semicolon) :
      Derives wide .exprStmt (es ++ [semi]) (Stmt.expr e span)
  | assign {ts us : List Token} {equal : Token} {name : Ident} {e : Expr} {span : Span}
      (htarget : Target wide ts name) (hequal : equal.kind = .equal)
      (he : Derives wide (.expr .assignment) us e) :
      Derives wide (.expr .assignment) (ts ++ equal :: us) (Expr.assign name e span)
  | noAssign {ts : List Token} {e : Expr} (h : Derives wide (.expr (.rung .logicOr)) ts e) :
      Derives wide (.expr .assignment) ts e
  | operand {r : Rung} {ts : List Token} {e : Expr} (h : Derives wide (.expr r.operand) ts e) :
      Derives wide (.expr (.rung r)) ts e
  | operator {r : Rung} {ts us : List Token} {t : Token} {op : BinaryOp} {lhs rhs : Expr} {span : Span}
      (hlhs : Derives wide (.expr (.rung r)) ts lhs) (hop : (t.kind, op) ∈ r.operators)
      (hrhs : Derives wide (.expr r.operand) us rhs) :
      Derives wide (.expr (.rung r)) (ts ++ t :: us) (Expr.binary op lhs rhs span)
  | not {t : Token} {ts : List Token} {e : Expr} {span : Span} (ht : t.kind = .bang)
      (he : Derives wide (.expr .unary) ts e) :
      Derives wide (.expr .unary) (t :: ts) (Expr.unary .not e span)
  | neg {t : Token} {ts : List Token} {e : Expr} {span : Span} (ht : t.kind = .minus)
      (he : Derives wide (.expr .unary) ts e) :
      Derives wide (.expr .unary) (t :: ts) (Expr.unary .neg e span)
  | noUnary {ts : List Token} {e : Expr} (h : Derives wide (.expr .call) ts e) :
      Derives wide (.expr .unary) ts e
  | noCall {ts : List Token} {e : Expr} (h : Derives wide (.expr .primary) ts e) :
      Derives wide (.expr .call) ts e
  | call {ts us : List Token} {lp rp : Token} {callee : Expr} {args : List Expr} {span : Span}
      (hcallee : Derives wide (.expr .call) ts callee) (hlp : lp.kind = .lparen)
      (hargs : Derives wide .optArgs us args) (hrp : rp.kind = .rparen) :
      Derives wide (.expr .call) (ts ++ lp :: (us ++ [rp])) (Expr.call callee args span)
  | noArgs : Derives wide .optArgs [] []
  | someArgs {ts : List Token} {es : List Expr} (h : Derives wide .args ts es) :
      Derives wide .optArgs ts es
  | oneArg {ts : List Token} {e : Expr} (h : Derives wide (.expr .assignment) ts e) :
      Derives wide .args ts [e]
  | moreArgs {ts us : List Token} {comma : Token} {e : Expr} {es : List Expr}
      (he : Derives wide (.expr .assignment) ts e) (hcomma : comma.kind = .comma)
      (hes : Derives wide .args us es) : Derives wide .args (ts ++ comma :: us) (e :: es)
  | number {t : Token} {span : Span} (h : t.kind = .number) :
      Derives wide (.expr .primary) [t]
        (Expr.literal (.int ((Text.int64? t.lexeme.toList).getD 0)) span)
  | fnumber {t : Token} {span : Span} (h : t.kind = .fnumber) :
      Derives wide (.expr .primary) [t]
        (Expr.literal (.float ((Text.float? t.lexeme.toList).getD 0.0)) span)
  | str {t : Token} {span : Span} (h : t.kind = .str) :
      Derives wide (.expr .primary) [t] (Expr.literal (.str (Token.stringValue t.lexeme)) span)
  | trueWord {t : Token} {span : Span} (h : t.kind = .trueWord) :
      Derives wide (.expr .primary) [t] (Expr.literal (.bool true) span)
  | falseWord {t : Token} {span : Span} (h : t.kind = .falseWord) :
      Derives wide (.expr .primary) [t] (Expr.literal (.bool false) span)
  | nilWord {t : Token} {span : Span} (h : t.kind = .nilWord) :
      Derives wide (.expr .primary) [t] (Expr.literal .nil span)
  | ident {t : Token} (h : t.kind = .ident) :
      Derives wide (.expr .primary) [t] (Expr.ident (nameOf t))
  | paren {lp rp : Token} {ts : List Token} {e : Expr} (hlp : lp.kind = .lparen)
      (he : Derives wide (.expr .assignment) ts e) (hrp : rp.kind = .rparen) :
      Derives wide (.expr .primary) (lp :: (ts ++ [rp])) e

/-! ### How phrases begin -/

/-- The kinds of token with which an expression without operators begins. -/
def startsPrimary : Token.Kind → Bool
  | .number | .fnumber | .str | .trueWord | .falseWord | .nilWord | .ident | .lparen => true
  | _ => false

/-- The kinds of token with which an expression begins. -/
def startsExpr (k : Token.Kind) : Bool :=
  startsPrimary k || k = .bang || k = .minus

/-- The kinds of token with which a statement or a function begins. -/
def startsItem (k : Token.Kind) : Bool :=
  startsExpr k || k.startsStatement || k = .lbrace

namespace Nonterminal

/-- Whether no token at all is a phrase of this kind. -/
def nullable : Nonterminal → Bool
  | items | stmts | optParams | optArgs => true
  | _ => false

/-- The kinds of token with which a phrase can begin. -/
def first : Nonterminal → Token.Kind → Bool
  | program, k => startsItem k || k = .eof
  | optParams, k | params, k | param, k => k = .ident || (TypeName.ofKind? k).isSome
  | typeName, k => (TypeName.ofKind? k).isSome
  | expr .call, k | expr .primary, k => startsPrimary k
  | expr _, k | optArgs, k | args, k => startsExpr k
  | _, k => startsItem k

end Nonterminal

theorem Rung.ofKind_of_mem {r : Rung} {k : Token.Kind} {op : BinaryOp} (h : (k, op) ∈ r.operators) :
    BinaryOp.ofKind? k = some op := by
  cases r <;> simp [operators] at h <;> grind [BinaryOp.ofKind?]

theorem startsItem_of_typeName {k : Token.Kind} (h : (TypeName.ofKind? k).isSome) :
    startsItem k = true := by
  revert h
  cases k <;> decide

theorem Target.no_eof {wide : Bool} {ts : List Token} {name : Ident} (h : Target wide ts name) :
    ∀ a ∈ ts, a.kind ≠ .eof := by
  induction h with
  | bare => simp_all
  | paren => simp_all [or_imp]

namespace Derives

variable {wide : Bool} {x : Nonterminal} {ts : List Token} {t : x.Tree}

theorem ne_nil (h : Derives wide x ts t) : x.nullable = false → ts ≠ [] := by
  induction h <;> simp_all [Nonterminal.nullable]

theorem head_append (h : Derives wide x ts t) (hx : x.nullable = false) (us : List Token) :
    (ts ++ us).head? = ts.head? := by
  cases ts with
  | nil => exact absurd rfl (h.ne_nil hx)
  | cons => rfl

theorem first (h : Derives wide x ts t) : ∀ a ∈ ts.head?, x.first a.kind = true := by
  induction h with
  | @program ts _ _ _ _ heof ih =>
    cases ts with
    | nil => simp [Nonterminal.first, heof]
    | cons b => simp [Nonterminal.first, show startsItem b.kind from ih b rfl]
  | moreItems hs _ ih | moreStmts hs _ ih | moreParams hs _ _ ih | operator hs _ _ ih
  | call hs _ _ _ ih | moreArgs hs _ _ ih => rw [hs.head_append rfl]; exact ih
  | itemFunc _ ih | itemStmt _ ih | someParams _ ih | oneParam _ ih | stmtVarDecl _ ih | stmtIf _ ih
  | stmtWhile _ ih | stmtBlock _ ih | stmtReturn _ ih | stmtPrint _ ih | stmtExpr _ ih
  | noAssign _ ih | noCall _ ih | someArgs _ ih | oneArg _ ih => exact ih
  | @operand r _ _ _ ih => cases r <;> exact ih
  | noUnary _ ih =>
    intro a ha
    simp [Nonterminal.first, startsExpr, show startsPrimary a.kind from ih a ha]
  | assign htarget => cases htarget <;> simp_all [Nonterminal.first, startsExpr, startsPrimary]
  | typedParam h _ ih =>
    rw [h.head_append rfl]
    intro a ha
    simp [Nonterminal.first, show (TypeName.ofKind? a.kind).isSome from ih a ha]
  | typedPlain h _ _ ih | typedInit h _ _ _ _ ih =>
    rw [h.head_append rfl]
    exact fun a ha => startsItem_of_typeName (ih a ha)
  | exprStmt he _ ih =>
    rw [he.head_append rfl]
    intro a ha
    simp [Nonterminal.first, startsItem, show startsExpr a.kind from ih a ha]
  | noItems | noParams | noStmts | noArgs => nofun
  | _ =>
    simp_all only [List.head?_cons, Option.mem_some_iff, forall_eq', Nonterminal.first]
    rfl

theorem exists_first (h : Derives wide x ts t) (hx : x.nullable = false) :
    ∃ a ∈ ts.head?, x.first a.kind = true := by
  obtain ⟨a, ts, rfl⟩ := List.exists_cons_of_ne_nil (h.ne_nil hx)
  exact ⟨a, rfl, h.first a rfl⟩

theorem head_ne (h : Derives wide x ts t) (hx : x.nullable = false) {k : Token.Kind}
    (hk : x.first k = false) : ∃ a ∈ ts.head?, a.kind ≠ k := by
  obtain ⟨a, ha, hfirst⟩ := h.exists_first hx
  refine ⟨a, ha, fun hak => ?_⟩
  rw [hak, hk] at hfirst
  exact nomatch hfirst

theorem no_eof (h : Derives wide x ts t) : x ≠ .program → ∀ a ∈ ts, a.kind ≠ .eof := by
  induction h with
  | operator hlhs hop hrhs ih ih' =>
    have hne := Rung.ofKind_of_mem hop
    intro _ a ha
    rcases List.mem_append.1 ha with ha | ha
    · exact ih nofun a ha
    · rcases List.mem_cons.1 ha with rfl | ha
      · intro hk; simp [hk, BinaryOp.ofKind?] at hne
      · exact ih' nofun a ha
  | assign htarget => have := htarget.no_eof; simp_all [or_imp]
  | _ => simp_all [or_imp]

end Derives

/-! ### Where an `else` belongs -/

/-- Every `else` in a tree belongs to the nearest open `if`. -/
def Nonterminal.Nearest : (x : Nonterminal) → x.Tree → Prop
  | program, p => Program.ElseNearest p
  | items, ss | stmts, ss | block, ss => Stmt.ElseNearestAll ss
  | item, s | funcDecl, s | stmt, s | varDecl, s | ifStmt, s | whileStmt, s | returnStmt, s
  | printStmt, s | exprStmt, s => Stmt.ElseNearest s
  | _, _ => True

namespace Derives

variable {wide : Bool} {x : Nonterminal} {ts us : List Token} {t : x.Tree} {s s' : Stmt}

theorem ifStmt_of_branch {e : Expr} {o : Option Stmt} {span : Span}
    (h : Derives wide .stmt ts (.branch e s o span)) :
    Derives wide .ifStmt ts (Stmt.branch e s o span) := by
  cases h with
  | stmtIf h => exact h
  | stmtVarDecl h | stmtWhile h | stmtReturn h | stmtPrint h | stmtExpr h => nomatch h

theorem whileStmt_of_loop {e : Expr} {span : Span} (h : Derives wide .stmt ts (.loop e s span)) :
    Derives wide .whileStmt ts (Stmt.loop e s span) := by
  cases h with
  | stmtWhile h => exact h
  | stmtVarDecl h | stmtIf h | stmtReturn h | stmtPrint h | stmtExpr h => nomatch h

/-- An `else` after an open statement can be given to the last `if` in it. -/
theorem attach_else {word : Token} (hword : word.kind = .elseWord) (hs' : Derives wide .stmt us s')
    (hn' : s'.ElseNearest) : ∀ (s : Stmt) {ts : List Token}, Derives wide .stmt ts s →
      s.ElseNearest → s.isOpen = true →
      ∃ s'', Derives wide .stmt (ts ++ word :: us) s'' ∧ s''.ElseNearest
  | .branch e s none span, _, h, hn, _ => by
    cases ifStmt_of_branch h with
    | ifThen hif hlp he hrp hs =>
      cases hopen : s.isOpen with
      | true =>
        obtain ⟨s'', h'', hn''⟩ := attach_else hword hs' hn' s hs hn hopen
        refine ⟨.branch e s'' none span, ?_, hn''⟩
        simpa using Derives.stmtIf (.ifThen hif hlp he hrp h'')
      | false =>
        refine ⟨.branch e s (some s') span, ?_, hopen, hn, hn'⟩
        simpa using Derives.stmtIf (.ifThenElse hif hlp he hrp hs hword hs')
  | .branch e s (some s₂) span, _, h, hn, hopen => by
    cases ifStmt_of_branch h with
    | ifThenElse hif hlp he hrp hs helse hs₂ =>
      obtain ⟨s'', h'', hn''⟩ := attach_else hword hs' hn' s₂ hs₂ hn.2.2 hopen
      refine ⟨.branch e s (some s'') span, ?_, hn.1, hn.2.1, hn''⟩
      simpa using Derives.stmtIf (.ifThenElse hif hlp he hrp hs helse h'')
  | .loop e s span, _, h, hn, hopen => by
    cases whileStmt_of_loop h with
    | whileDo hwhile hlp he hrp hs =>
      obtain ⟨s'', h'', hn''⟩ := attach_else hword hs' hn' s hs hn hopen
      refine ⟨.loop e s'' span, ?_, hn''⟩
      simpa using Derives.stmtWhile (.whileDo hwhile hlp he hrp h'')

/-- Tokens that make up a phrase have a tree in which every `else` belongs to the nearest `if`. -/
theorem exists_nearest (h : Derives wide x ts t) : ∃ t', Derives wide x ts t' ∧ x.Nearest t' := by
  have whole := h
  induction h with
  | program hi heof ih =>
    obtain ⟨t', h', hn⟩ := ih hi
    exact ⟨⟨t', default⟩, .program h' heof, hn⟩
  | noItems => exact ⟨_, .noItems, trivial⟩
  | moreItems hs hss ih ih' =>
    obtain ⟨s, h, hn⟩ := ih hs
    obtain ⟨ss, h', hn'⟩ := ih' hss
    exact ⟨_, .moreItems h h', hn, hn'⟩
  | itemFunc h ih => obtain ⟨t', h', hn⟩ := ih h; exact ⟨_, .itemFunc h', hn⟩
  | itemStmt h ih => obtain ⟨t', h', hn⟩ := ih h; exact ⟨_, .itemStmt h', hn⟩
  | @funcDecl _ _ _ _ _ _ _ _ braces span hfunc hname hlp hps hrp hb _ ih =>
    obtain ⟨t', h', hn⟩ := ih hb
    exact ⟨.function _ _ _ braces span, .funcDecl hfunc hname hlp hps hrp h', hn⟩
  | noStmts => exact ⟨_, .noStmts, trivial⟩
  | moreStmts hs hss ih ih' =>
    obtain ⟨s, h, hn⟩ := ih hs
    obtain ⟨ss, h', hn'⟩ := ih' hss
    exact ⟨_, .moreStmts h h', hn, hn'⟩
  | stmtVarDecl h ih => obtain ⟨t', h', hn⟩ := ih h; exact ⟨_, .stmtVarDecl h', hn⟩
  | stmtIf h ih => obtain ⟨t', h', hn⟩ := ih h; exact ⟨_, .stmtIf h', hn⟩
  | stmtWhile h ih => obtain ⟨t', h', hn⟩ := ih h; exact ⟨_, .stmtWhile h', hn⟩
  | @stmtBlock _ _ span h ih =>
    obtain ⟨t', h', hn⟩ := ih h
    exact ⟨.block t' span, .stmtBlock h', hn⟩
  | stmtReturn h ih => obtain ⟨t', h', hn⟩ := ih h; exact ⟨_, .stmtReturn h', hn⟩
  | stmtPrint h ih => obtain ⟨t', h', hn⟩ := ih h; exact ⟨_, .stmtPrint h', hn⟩
  | stmtExpr h ih => obtain ⟨t', h', hn⟩ := ih h; exact ⟨_, .stmtExpr h', hn⟩
  | @ifThen _ _ _ _ _ _ _ span hif hlp he hrp hs _ ih =>
    obtain ⟨s, h, hn⟩ := ih hs
    exact ⟨.branch _ s none span, .ifThen hif hlp he hrp h, hn⟩
  | @ifThenElse _ _ _ _ _ _ _ e _ _ span hif hlp he hrp hs helse hs' _ ih ih' =>
    obtain ⟨s, h, hn⟩ := ih hs
    obtain ⟨s', h', hn'⟩ := ih' hs'
    cases hopen : s.isOpen with
    | false =>
      exact ⟨.branch e s (some s') span, .ifThenElse hif hlp he hrp h helse h', hopen, hn, hn'⟩
    | true =>
      -- the `else` belongs further in, and the outer `if` has none
      obtain ⟨s'', h'', hn''⟩ := attach_else helse h' hn' s h hn hopen
      exact ⟨.branch e s'' none span, .ifThen hif hlp he hrp h'', hn''⟩
  | @whileDo _ _ _ _ _ _ _ span hwhile hlp he hrp hs _ ih =>
    obtain ⟨s, h, hn⟩ := ih hs
    exact ⟨.loop _ s span, .whileDo hwhile hlp he hrp h, hn⟩
  | block hlb hb hrb ih => obtain ⟨t', h', hn⟩ := ih hb; exact ⟨_, .block hlb h' hrb, hn⟩
  | _ => exact ⟨_, whole, trivial⟩

end Derives

end Scriptlet.Grammar
