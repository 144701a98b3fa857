import Scriptlet.Proofs.TokenProgress

/-!
# What holds of every reader of expressions

A property of readers that is closed under the steps of which readers are made (`StepClosed`), and holds of going
one level deeper (`DeepClosed`), holds of the readers of expressions (`Expr.read_closed`). If it holds of these, it
also holds of the readers of statements that no other statement is part of.
-/

namespace Scriptlet

namespace Reader

/-- Whether a statement is given up for the fault. The two others are reported, and reading goes on. -/
def Fault.fatal : Fault → Bool
  | .unclosedBrace | .nestedFunction => false
  | _ => true

/-- A property of readers that is closed under looking at tokens and taking them, one after the other. -/
structure TokenClosed (P : ∀ α : Type, Reader α → Prop) : Prop where
  pure {α : Type} (a : α) : P α (pure a)
  bind {α β : Type} {p : Reader α} {f : α → Reader β} (hp : P α p) (hf : ∀ a, P β (f a)) : P β (p >>= f)
  peek : P Token peek
  advance : P Token advance

/-- A property of readers that is closed under the steps of which readers are made. -/
structure StepClosed (P : ∀ α : Type, Reader α → Prop) : Prop extends TokenClosed P where
  giveUp {α : Type} {f : Fault} (hf : f.fatal) (span : Span) : P α (giveUp f span)
  nested {α : Type} {p : Reader α} (hp : P α p) : P α (nested p)
  commaListUntilParen {α : Type} {p : Reader α} (hp : P α p) (hprogress : Progressive p) :
    P (List α) (commaListUntilParen p)
  finish (start : Span) (stmt : Span → Stmt) : P Stmt (do return stmt ((← get).spanFrom start))

/-- A property that also holds of going one level deeper, without a return to the level before. -/
structure DeepClosed (P : ∀ α : Type, Reader α → Prop) : Prop extends StepClosed P where
  deepen : P Unit deepen

namespace TokenClosed

variable {P : ∀ α : Type, Reader α → Prop} (hP : TokenClosed P) {α β : Type}

include hP

theorem kind : P Token.Kind kind := hP.bind hP.peek fun _ => hP.pure _

theorem at? (k : Token.Kind) : P Bool (at? k) := hP.bind hP.kind fun _ => hP.pure _

theorem eat (k : Token.Kind) : P Bool (eat k) := by
  refine hP.bind (hP.at? k) fun yes => ?_
  split
  · exact hP.bind hP.advance fun _ => hP.pure _
  · exact hP.pure _

theorem map (f : α → β) {p : Reader α} (hp : P α p) : P β (f <$> p) := by
  rw [← bind_pure_comp]
  exact hP.bind hp fun a => hP.pure (f a)

theorem commaList {p : Reader α} (hp : P α p) (more : Nat) : P (List α) (commaList p more) := by
  induction more with
  | zero => exact hP.bind hp fun _ => hP.pure _
  | succ more ih =>
    refine hP.bind hp fun first => hP.bind (hP.eat _) fun yes => ?_
    split
    · exact hP.bind ih fun _ => hP.pure _
    · exact hP.pure _

end TokenClosed

namespace StepClosed

variable {P : ∀ α : Type, Reader α → Prop} (hP : StepClosed P) {α : Type}

include hP

theorem giveUpHere {f : Token → Fault} (hf : ∀ t, (f t).fatal) : P α (giveUpHere f) :=
  hP.bind hP.peek fun t => hP.giveUp (hf t) _

theorem tooDeep : P α tooDeep := hP.giveUpHere fun _ => rfl

theorem expect (k : Token.Kind) {f : Token → Fault} (hf : ∀ t, (f t).fatal) : P Token (expect k f) := by
  refine hP.bind (hP.at? k) fun yes => ?_
  split
  · exact hP.advance
  · exact hP.giveUpHere hf

theorem expectSemicolon (context : String) : P Token (expectSemicolon context) := hP.expect _ fun _ => rfl

theorem expectClosing (opening : Token) : P Token (expectClosing opening) := hP.expect _ fun _ => rfl

omit hP in
theorem and {Q : ∀ α : Type, Reader α → Prop} (hP : StepClosed P) (hQ : StepClosed Q) :
    StepClosed fun α p => P α p ∧ Q α p where
  pure a := ⟨hP.pure a, hQ.pure a⟩
  bind hp hf := ⟨hP.bind hp.1 fun a => (hf a).1, hQ.bind hp.2 fun a => (hf a).2⟩
  peek := ⟨hP.peek, hQ.peek⟩
  advance := ⟨hP.advance, hQ.advance⟩
  giveUp hf span := ⟨hP.giveUp hf span, hQ.giveUp hf span⟩
  nested hp := ⟨hP.nested hp.1, hQ.nested hp.2⟩
  commaListUntilParen hp hprogress :=
    ⟨hP.commaListUntilParen hp.1 hprogress, hQ.commaListUntilParen hp.2 hprogress⟩
  finish start stmt := ⟨hP.finish start stmt, hQ.finish start stmt⟩

end StepClosed

end Reader

open Reader

variable {P : ∀ α : Type, Reader α → Prop}

theorem Ident.read_closed (hP : StepClosed P) (what : String) : P Ident (read what) :=
  hP.bind (hP.expect _ fun _ => rfl) fun _ => hP.pure _

theorem Param.read_closed (hP : StepClosed P) : P Param read := by
  refine hP.bind hP.kind fun k => ?_
  have hname : P Param (do return ⟨← Ident.read "a parameter name", TypeName.ofKind? k⟩) :=
    hP.bind (Ident.read_closed hP _) fun _ => hP.pure _
  dsimp only
  split
  · exact hP.bind hP.advance fun _ => hname
  · exact hname

namespace Expr

mutual

theorem read_closed (hP : DeepClosed P) : ∀ n, P Expr (read n)
  | 0 => by
    rw [read]
    exact hP.tooDeep
  | n + 1 => by
    rw [read]
    exact hP.nested (readAssignment_closed hP n)
termination_by n => (n, 0)

theorem readAssignment_closed (hP : DeepClosed P) (n : Nat) : P Expr (readAssignment n) := by
  rw [readAssignment]
  refine hP.bind (readBinary_closed hP n 1) fun target => hP.bind (hP.at? _) fun yes => ?_
  split
  · refine hP.bind hP.advance fun equal => hP.bind (read_closed hP n) fun value => ?_
    split
    · exact hP.pure _
    · exact hP.giveUp rfl _
  · exact hP.pure _
termination_by (n, 6)

theorem readBinary_closed (hP : DeepClosed P) (n least : Nat) : P Expr (readBinary n least) := by
  rw [readBinary]
  exact hP.bind (readUnary_closed hP n) fun lhs => readBinaryRest_closed hP n least lhs
termination_by (n, 5)

theorem readBinaryRest_closed (hP : DeepClosed P) (n least : Nat) (lhs : Expr) :
    P Expr (readBinaryRest n least lhs) := by
  rw [readBinaryRest]
  refine hP.bind hP.kind fun k => ?_
  split
  · exact hP.pure _
  · split
    · exact hP.pure _
    · refine hP.bind hP.advance fun _ => hP.bind hP.deepen fun _ => ?_
      cases n with
      | zero => exact hP.tooDeep
      | succ n =>
        exact hP.bind (readBinary_closed hP n _) fun rhs => readBinaryRest_closed hP n least _
termination_by (n, 4)

theorem readUnary_closed (hP : DeepClosed P) (n : Nat) : P Expr (readUnary n) := by
  rw [readUnary.eq_def]
  refine hP.bind hP.kind fun k => ?_
  split
  · exact readCall_closed hP n
  · refine hP.bind hP.advance fun start => hP.bind (hP.nested ?_) fun operand => hP.pure _
    cases n with
    | zero => exact hP.tooDeep
    | succ n => exact readUnary_closed hP n
termination_by (n, 3)

theorem readCall_closed (hP : DeepClosed P) (n : Nat) : P Expr (readCall n) := by
  rw [readCall]
  exact hP.bind (readPrimary_closed hP n) fun callee => readCallRest_closed hP n callee
termination_by (n, 2)

theorem readCallRest_closed (hP : DeepClosed P) (n : Nat) (callee : Expr) : P Expr (readCallRest n callee) := by
  rw [readCallRest]
  refine hP.bind (hP.at? _) fun yes => ?_
  split
  · refine hP.bind hP.deepen fun _ => hP.bind hP.advance fun opening => ?_
    cases n with
    | zero => exact hP.tooDeep
    | succ n =>
      refine hP.bind (hP.commaListUntilParen (read_closed hP n) (read_progressive n)) fun args => ?_
      exact hP.bind (hP.expectClosing opening) fun closing => readCallRest_closed hP n _
  · exact hP.pure _
termination_by (n, 1)

theorem readPrimary_closed (hP : DeepClosed P) (n : Nat) : P Expr (readPrimary n) := by
  rw [readPrimary]
  refine hP.bind hP.peek fun token => ?_
  split
  · exact hP.bind hP.advance fun _ => hP.pure _
  · split
    · exact hP.bind hP.advance fun _ => hP.pure _
    · split
      · refine hP.bind hP.advance fun opening => hP.bind (read_closed hP n) fun inner => ?_
        exact hP.bind (hP.expectClosing opening) fun _ => hP.pure _
      · exact hP.giveUpHere fun _ => rfl
termination_by (n, 1)

end

end Expr

namespace Stmt

variable {n : Nat}

theorem readCondition_closed (hP : StepClosed P) (hexpr : P Expr (Expr.read n)) (word : String) :
    P Expr (readCondition n word) := by
  refine hP.bind (hP.expect _ fun _ => rfl) fun opening => hP.bind hexpr fun cond => ?_
  exact hP.bind (hP.expectClosing opening) fun _ => hP.pure _

theorem readVarDecl_closed (hP : StepClosed P) (hexpr : P Expr (Expr.read n)) (start : Span)
    (type : Option TypeName) : P Stmt (readVarDecl n start type) := by
  have hrest (name : Ident) (init : Option Expr) : P Stmt (do
      let _ ← expectSemicolon "after variable declaration"
      return Stmt.varDecl name type init ((← get).spanFrom start)) :=
    hP.bind (hP.expectSemicolon _) fun _ => hP.finish start _
  refine hP.bind (Ident.read_closed hP _) fun name => hP.bind (hP.eat _) fun yes => ?_
  split
  · exact hP.bind (hP.map _ hexpr) (hrest name)
  · exact hP.bind (hP.pure _) (hrest name)

theorem readReturn_closed (hP : StepClosed P) (hexpr : P Expr (Expr.read n)) (start : Span) :
    P Stmt (readReturn n start) := by
  have hrest (value : Option Expr) : P Stmt (do
      let _ ← expectSemicolon "after return value"
      return Stmt.returnWith value ((← get).spanFrom start)) :=
    hP.bind (hP.expectSemicolon _) fun _ => hP.finish start _
  refine hP.bind hP.advance fun _ => hP.bind (hP.at? _) fun yes => ?_
  split
  · exact hP.bind (hP.pure _) hrest
  · exact hP.bind (hP.map _ hexpr) hrest

theorem readPrint_closed (hP : StepClosed P) (hexpr : P Expr (Expr.read n)) (start : Span) :
    P Stmt (readPrint n start) := by
  refine hP.bind hP.advance fun _ => hP.bind (readCondition_closed hP hexpr _) fun e => ?_
  exact hP.bind (hP.expectSemicolon _) fun _ => hP.finish start _

theorem readExpr_closed (hP : StepClosed P) (hexpr : P Expr (Expr.read n)) (start : Span) :
    P Stmt (readExpr n start) :=
  hP.bind hexpr fun _ => hP.bind (hP.expectSemicolon _) fun _ => hP.finish start _

end Stmt

end Scriptlet
