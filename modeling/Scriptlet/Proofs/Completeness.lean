import Scriptlet.Proofs.Acceptance
import Scriptlet.Proofs.Completeness.Stmt

/-!
# Programs of the grammar are read

A row of tokens that the written grammar derives is read without a report, unless it is nested too
deeply. The tree read is one that the grammar gives the tokens, and it is the only one up to spans in
which every `else` belongs to the nearest open `if` (`Program.derived_read`).
-/

namespace Scriptlet

open Grammar Reader

/-! ### The shape of a tree decides where each `else` belongs -/

namespace Stmt

theorem isOpen_erase : ∀ s : Stmt, s.erase.isOpen = s.isOpen
  | .branch _ _ none _ => rfl
  | .branch _ _ (some elseStmt) _ => isOpen_erase elseStmt
  | .loop _ body _ => isOpen_erase body
  | .varDecl .. | .expr .. | .print .. | .block .. | .function .. | .returnWith .. | .breakLoop _
  | .continueLoop _ => rfl

mutual

theorem elseNearest_erase : ∀ s : Stmt, s.erase.ElseNearest ↔ s.ElseNearest
  | .block body _ | .function _ _ body _ _ => elseNearestAll_erase body
  | .branch _ thenStmt none _ => elseNearest_erase thenStmt
  | .branch _ thenStmt (some elseStmt) _ => by
    simp only [erase, ElseNearest, isOpen_erase thenStmt, elseNearest_erase thenStmt,
      elseNearest_erase elseStmt]
  | .loop _ body _ => elseNearest_erase body
  | .varDecl .. | .expr .. | .print .. | .returnWith .. | .breakLoop _ | .continueLoop _ => .rfl

theorem elseNearestAll_erase : ∀ ss : List Stmt, ElseNearestAll (eraseAll ss) ↔ ElseNearestAll ss
  | [] => .rfl
  | s :: ss => by
    simp only [eraseAll, ElseNearestAll, elseNearest_erase s, elseNearestAll_erase ss]

end

end Stmt

namespace Program

theorem elseNearest_iff_of_erase {p q : Program} (h : p.erase = q.erase) :
    p.ElseNearest ↔ q.ElseNearest := by
  have hitems : Stmt.eraseAll p.items = Stmt.eraseAll q.items := congrArg items h
  rw [ElseNearest, ← Stmt.elseNearestAll_erase, hitems, Stmt.elseNearestAll_erase, ElseNearest]

/-- A program of the grammar in which every `else` belongs to the nearest `if` is read with its own tree. -/
theorem ofTokens_complete {tokens : List Token} {p : Program} (h : Derives false .program tokens p)
    (hn : p.ElseNearest) :
    (∃ d ∈ (ofTokens tokens).diagnostics, d.code = .nestingTooDeep) ∨
      (ofTokens tokens).diagnostics = [] ∧ (ofTokens tokens).program.erase = p.erase := by
  cases h with
  | @program ts items eof span hitems heof =>
    have hts := hitems.no_eof nofun
    have hrow := Stmt.complete hitems hn maxNesting ts.length (.upTo ts eof) heof (Nat.le_refl _) rfl rfl
    rw [ofTokens_upTo hts heof]
    obtain ⟨-, d, hd, hdeep⟩ | ⟨hr, hitems⟩ := hrow
    · exact .inl ⟨d, List.mem_of_mem_drop hd, hdeep⟩
    · exact .inr ⟨congrArg Array.toList hr.diagnostics, by simp only [erase, ← hitems]; rfl⟩

/-- A row of tokens that the written grammar derives is read without a report, unless it is nested too
deeply. The tree read is a tree of the tokens in which every `else` belongs to the nearest `if`, and any
such tree is the same up to spans. -/
theorem derived_read {tokens : List Token} {p : Program} (h : Derives false .program tokens p) :
    (∃ d ∈ (ofTokens tokens).diagnostics, d.code = .nestingTooDeep) ∨
      (ofTokens tokens).diagnostics = [] ∧
        Derives false .program tokens (ofTokens tokens).program ∧
        (ofTokens tokens).program.ElseNearest ∧
        (p.ElseNearest → (ofTokens tokens).program.erase = p.erase) := by
  obtain ⟨q, hq, hnearest⟩ := h.exists_nearest
  obtain hdeep | ⟨hquiet, herase⟩ := ofTokens_complete hq hnearest
  · exact .inl hdeep
  · refine .inr ⟨hquiet, ?_, (elseNearest_iff_of_erase herase).2 hnearest, fun hn => ?_⟩
    · exact (ofTokens_sound h.ended hquiet).narrow h.separate.1
    · obtain ⟨d, hd, -⟩ | ⟨-, herase'⟩ := ofTokens_complete h hn
      · rw [hquiet] at hd
        exact nomatch hd
      · exact herase'

/-- `if (a) if (a) a; else a;` -/
def danglingElse : List Token :=
  [.ifWord, .lparen, .ident, .rparen, .ifWord, .lparen, .ident, .rparen, .ident, .semicolon, .elseWord,
    .ident, .semicolon, .eof].map fun k => ⟨k, "a", default⟩

theorem name_derives {wide : Bool} {t : Token} (h : t.kind = .ident) :
    Derives wide (.expr .assignment) [t] (Expr.ident (nameOf t)) :=
  .noAssign (.operand (.operand (.operand (.operand (.operand (.operand (.noUnary (.noCall (.ident h)))))))))

/-- The grammar also derives the tree in which the `else` belongs to the outer `if`; what is read is
the other one. -/
theorem derived_read_danglingElse :
    ∃ p : Program, Derives false .program danglingElse p ∧ ¬ p.ElseNearest ∧
      (ofTokens danglingElse).diagnostics = [] ∧
      Derives false .program danglingElse (ofTokens danglingElse).program ∧
      (ofTokens danglingElse).program.ElseNearest ∧ (ofTokens danglingElse).program.erase ≠ p.erase := by
  let t (k : Token.Kind) : Token := ⟨k, "a", default⟩
  let e : Expr := .ident (nameOf (t .ident))
  let p : Program :=
    ⟨[.branch e (.branch e (.expr e default) none default) (some (.expr e default)) default], default⟩
  have he : Derives false (.expr .assignment) [t .ident] e := name_derives rfl
  have hexpr : Derives false .stmt ([t .ident] ++ [t .semicolon]) (.expr e default) :=
    .stmtExpr (.exprStmt he rfl)
  have hinner : Derives false .stmt (t .ifWord :: t .lparen :: ([t .ident] ++ t .rparen ::
      ([t .ident] ++ [t .semicolon]))) (.branch e (.expr e default) none default) :=
    .stmtIf (.ifThen rfl rfl he rfl hexpr)
  have houter : Derives false .stmt (t .ifWord :: t .lparen :: ([t .ident] ++ t .rparen ::
      ((t .ifWord :: t .lparen :: ([t .ident] ++ t .rparen :: ([t .ident] ++ [t .semicolon]))) ++
        t .elseWord :: ([t .ident] ++ [t .semicolon]))))
      (.branch e (.branch e (.expr e default) none default) (some (.expr e default)) default) :=
    .stmtIf (.ifThenElse rfl rfl he rfl hinner rfl hexpr)
  have hp : Derives false .program danglingElse p :=
    Derives.program (.moreItems (.itemStmt houter) .noItems) rfl
  have hfar : ¬ p.ElseNearest := by
    intro h
    exact nomatch h.1.1
  have hquiet : (ofTokens danglingElse).diagnostics = [] := by decide +kernel
  obtain ⟨d, hd, -⟩ | ⟨-, hderives, hnearest, -⟩ := derived_read hp
  · rw [hquiet] at hd
    exact nomatch hd
  · exact ⟨p, hp, hfar, hquiet, hderives, hnearest, fun h => hfar ((elseNearest_iff_of_erase h).1 hnearest)⟩

end Program

end Scriptlet
