import Scriptlet.Proofs.Acceptance
import Scriptlet.Proofs.Tower

/-!
# The literals of a tree

`Program.literals`: the values of the literals of a tree, in the order of the text. A literal is made from one
token (`Expr.readPrimary_literal`), and the literals of a program that is read without a report are the values of
the literal tokens, one by one (`Program.ofTokens_literals`).
-/

namespace Scriptlet

mutual

def Expr.literals : Expr → List Literal
  | .literal value _ => [value]
  | .ident _ => []
  | .assign _ value _ => value.literals
  | .binary _ lhs rhs _ => lhs.literals ++ rhs.literals
  | .unary _ operand _ => operand.literals
  | .call callee args _ => callee.literals ++ Expr.literalsAll args

def Expr.literalsAll : List Expr → List Literal
  | [] => []
  | e :: es => e.literals ++ Expr.literalsAll es

end

/-- The literals of an expression that need not be there. -/
def Expr.literalsOption : Option Expr → List Literal
  | none => []
  | some e => e.literals

mutual

def Stmt.literals : Stmt → List Literal
  | .varDecl _ _ init _ => Expr.literalsOption init
  | .expr e _ | .print e _ => e.literals
  | .block body _ => Stmt.literalsAll body
  | .branch cond thenStmt none _ => cond.literals ++ thenStmt.literals
  | .branch cond thenStmt (some elseStmt) _ => cond.literals ++ (thenStmt.literals ++ elseStmt.literals)
  | .loop cond body _ => cond.literals ++ body.literals
  | .function _ _ body _ _ => Stmt.literalsAll body
  | .returnWith value _ => Expr.literalsOption value
  | .breakLoop _ | .continueLoop _ => []

def Stmt.literalsAll : List Stmt → List Literal
  | [] => []
  | s :: ss => s.literals ++ Stmt.literalsAll ss

end

def Program.literals (p : Program) : List Literal := Stmt.literalsAll p.items

/-! ### From tokens to literals -/

namespace Grammar

/-- The literals of the tree of a phrase. -/
def Nonterminal.literals : (x : Nonterminal) → x.Tree → List Literal
  | program, p => Program.literals p
  | items, ss | stmts, ss | block, ss => Stmt.literalsAll ss
  | item, s | funcDecl, s | stmt, s | varDecl, s | ifStmt, s | whileStmt, s | returnStmt, s
  | printStmt, s | exprStmt, s => Stmt.literals s
  | expr _, e => Expr.literals e
  | optArgs, es | args, es => Expr.literalsAll es
  | optParams, _ | params, _ | param, _ | typeName, _ => []

variable {wide : Bool} {x : Nonterminal} {ts : List Token} {t : x.Tree}

theorem Rung.not_literal {r : Rung} {t : Token} {op : BinaryOp} (h : (t.kind, op) ∈ r.operators) :
    Literal.ofToken? t = none := by
  have hop := Rung.ofKind_of_mem h
  unfold BinaryOp.ofKind? at hop
  unfold Literal.ofToken?
  split at hop <;> simp_all

theorem Target.no_literals {name : Ident} (h : Target wide ts name) : ts.filterMap Literal.ofToken? = [] := by
  induction h with
  | bare hname => simp [Literal.ofToken?, hname]
  | paren _ hlp _ hrp ih => simp [Literal.ofToken?, hlp, hrp, List.filterMap_append, ih]

/-- The literals of a phrase are the values of its literal tokens, in order. -/
theorem Derives.literals_eq (h : Derives wide x ts t) : x.literals t = ts.filterMap Literal.ofToken? := by
  induction h with
  | noItems | noParams | noStmts | noArgs => rfl
  | itemFunc _ ih | itemStmt _ ih | someParams _ ih | oneParam _ ih | stmtVarDecl _ ih | stmtIf _ ih
  | stmtWhile _ ih | stmtBlock _ ih | stmtReturn _ ih | stmtPrint _ ih | stmtExpr _ ih | noAssign _ ih
  | operand _ ih | noUnary _ ih | noCall _ ih | someArgs _ ih => exact ih
  | moreItems _ _ ih ih' | moreStmts _ _ ih ih' =>
    rw [List.filterMap_append, ← ih, ← ih']
    rfl
  | operator _ hop _ ih ih' =>
    rw [List.filterMap_append, List.filterMap_cons_none (Rung.not_literal hop), ← ih, ← ih']
    rfl
  | assign htarget hequal _ ih =>
    rw [List.filterMap_append, htarget.no_literals, List.filterMap_cons_none (by simp [Literal.ofToken?, hequal]),
      ← ih]
    rfl
  | number ht | fnumber ht | str ht | trueWord ht | falseWord ht | nilWord ht | ident ht =>
    simp [Nonterminal.literals, Expr.literals, Literal.ofToken?, ht]
  | _ =>
    -- the tokens that the rule itself brings are no literals
    simp_all [Nonterminal.literals, Program.literals, Stmt.literals, Expr.literals, Expr.literalsAll,
      Expr.literalsOption, Literal.ofToken?]

end Grammar

/-- The literals of a program that is read without a report are the values of the literal tokens, in order. -/
theorem Program.ofTokens_literals {tokens : List Token} (h : Token.Ended tokens)
    (hquiet : (ofTokens tokens).diagnostics = []) :
    (ofTokens tokens).program.literals = tokens.filterMap Literal.ofToken? :=
  (ofTokens_sound h hquiet).literals_eq

/-! ### A literal and a semicolon -/

open Reader

variable {t semi eof : Token} {rest : List Token} {n d stop : Nat} {reports : Array Diagnostic}

/-- Wherever an expression without operators is read at a literal token, it is the literal of that token. -/
theorem Expr.readPrimary_literal {s : Reader.State} {value : Literal} (hrest : s.rest = t :: rest)
    (hvalue : Literal.ofToken? t = some value) (n : Nat) :
    readPrimary n s = .ok (.literal value t.span) s.advance := by
  have hpeek : peek s = .ok t s := congrArg (EStateM.Result.ok · s) (peek_cons hrest)
  rw [readPrimary, bind_of_ok hpeek, hvalue]
  rfl

theorem Expr.ends_read_string {ok : Expr → State → Prop} {bad : GaveUp → State → Prop} (ht : t.kind = .str)
    (hsemi : semi.kind = .semicolon) (hd : d < maxNesting) :
    Ends (Expr.read (n + 1)) ⟨t :: semi :: rest, eof, stop, d, reports⟩ ok bad ↔
      ok (.literal (.str (Token.stringValue t.lexeme)) t.span) ⟨semi :: rest, eof, t.span.stop, d, reports⟩ := by
  rw [Expr.read, Expr.readAssignment, Expr.readBinary, Expr.readUnary.eq_def, Expr.readCall, Expr.readPrimary]
  simp only [ends_nested, Nat.not_le.2 hd, if_false, ends_bind, ends_kind, ends_peek, ends_advance, ends_pure,
    State.peek, State.advance, List.headD_cons, ht, UnaryOp.ofKind?, Literal.ofToken?, reduceCtorEq]
  -- neither a call nor an operator follows, nor an assignment
  rw [Tower.ends_noCall, Tower.ends_noOperator]
  · simp [State.peek, hsemi]
  · simp [State.peek, hsemi, BinaryOp.ofKind?]
  · simp [State.peek, hsemi]

theorem Stmt.read_string (ht : t.kind = .str) (hsemi : semi.kind = .semicolon) (hd : d + 1 < maxNesting) :
    Stmt.read (n + 2) ⟨t :: semi :: rest, eof, stop, d, reports⟩ =
      .ok (.expr (.literal (.str (Token.stringValue t.lexeme)) t.span)
          ⟨t.span.start, max semi.span.stop t.span.stop⟩)
        ⟨rest, eof, semi.span.stop, d, reports⟩ := by
  apply eq_ok_of_ends
  rw [Stmt.read, Stmt.readInner]
  simp only [ends_nested, Nat.not_le.2 (show d < maxNesting by omega), if_false, ends_bind, ends_kind, ends_peek,
    State.peek, List.headD_cons, ht, Stmt.readExpr]
  rw [Expr.ends_read_string ht hsemi hd]
  simp [State.peek, hsemi, State.advance, State.spanFrom]

/-- A string and a semicolon are a program of one statement. -/
theorem Program.ofTokens_string (ht : t.kind = .str) (hsemi : semi.kind = .semicolon) (heof : eof.kind = .eof) :
    ofTokens [t, semi, eof] =
      ⟨⟨[.expr (.literal (.str (Token.stringValue t.lexeme)) t.span)
        ⟨t.span.start, max semi.span.stop t.span.stop⟩], t.span.join eof.span⟩, []⟩ := by
  have hread (last : Token) (stop : Nat) : Stmt.read maxNesting ⟨[t, semi, eof], last, stop, 0, #[]⟩ =
      .ok (.expr (.literal (.str (Token.stringValue t.lexeme)) t.span)
        ⟨t.span.start, max semi.span.stop t.span.stop⟩) ⟨[eof], last, semi.span.stop, 0, #[]⟩ :=
    Stmt.read_string (n := 126) ht hsemi (by decide)
  simp [ofTokens, ofState, manyUntil, State.ofTokens, many, State.peek, recovering, hread, ht, heof]

end Scriptlet
