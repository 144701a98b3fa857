import Scriptlet.Proofs.ReaderSteps
import Scriptlet.Tree.OfTokens

/-!
# What every reader keeps

A property of states that the steps of a reader keep (`Stable`) holds all through the reading of a program,
where a reader succeeds and where it gives up, and so holds in the end (`Program.ofTokens_maintains`).
-/

namespace Scriptlet

namespace Reader

/-- A property of states that is kept by each step of a reader. -/
structure Stable (I : State → Prop) : Prop where
  advance {s : State} (h : I s) : I s.advance
  report {s : State} (f : Fault) (span : Span) (h : I s) : I (s.report f span)
  depth {s : State} (d : Nat) (h : I s) : I { s with depth := d }
  synchronize {s : State} (h : I s) : I s.synchronize

/-- A reader after which `I` holds if it held before, also if the reader gives up. -/
def Maintains {α : Type} (I : State → Prop) (p : Reader α) : Prop :=
  ∀ s, I s → Ends p s (fun _ s' => I s') fun _ s' => I s'

namespace Maintains

variable {α β : Type} {I : State → Prop} {p : Reader α}

theorem pure (a : α) : Maintains I (pure a : Reader α) := fun _ hs => hs

theorem bind {f : α → Reader β} (hp : Maintains I p) (hf : ∀ a, Maintains I (f a)) :
    Maintains I (p >>= f) := by
  intro s hs
  rw [ends_bind]
  exact (hp s hs).mono_ok fun a s' hs' => hf a s' hs'

theorem map (f : α → β) (hp : Maintains I p) : Maintains I (f <$> p) := by
  intro s hs
  rw [ends_map]
  exact hp s hs

/-- A first step that only looks. -/
theorem get_bind {f : State → Reader β} (h : ∀ s, Maintains I (f s)) : Maintains I (get >>= f) :=
  fun s hs => h s s hs

theorem peek_bind {f : Token → Reader β} (h : ∀ t, Maintains I (f t)) : Maintains I (peek >>= f) :=
  fun s hs => h s.peek s hs

theorem kind_bind {f : Token.Kind → Reader β} (h : ∀ k, Maintains I (f k)) : Maintains I (kind >>= f) :=
  fun s hs => h s.peek.kind s hs

theorem at_bind {k : Token.Kind} {f : Bool → Reader β} (h : ∀ yes, Maintains I (f yes)) :
    Maintains I (at? k >>= f) :=
  fun s hs => h _ s hs

section

variable (hI : Stable I)

include hI

theorem advance : Maintains I advance := fun _ hs => hI.advance hs

theorem eat (k : Token.Kind) : Maintains I (eat k) := by
  refine at_bind fun yes => ?_
  split
  · exact bind (advance hI) fun _ => pure _
  · exact pure _

theorem report (f : Fault) (span : Span) : Maintains I (report f span) := fun _ hs => hI.report f span hs

theorem giveUp (f : Fault) (span : Span) : Maintains I (giveUp f span : Reader α) :=
  fun _ hs => hI.report f span hs

theorem giveUpHere (f : Token → Fault) : Maintains I (giveUpHere f : Reader α) :=
  fun s hs => hI.report (f s.peek) s.peek.span hs

theorem tooDeep : Maintains I (tooDeep : Reader α) := giveUpHere hI _

theorem expect (k : Token.Kind) (f : Token → Fault) : Maintains I (expect k f) := by
  refine at_bind fun yes => ?_
  split
  · exact advance hI
  · exact giveUpHere hI f

theorem deepen : Maintains I deepen := by
  refine get_bind fun s => ?_
  split
  · exact tooDeep hI
  · exact fun s hs => hI.depth _ hs

theorem nested (hp : Maintains I p) : Maintains I (nested p) := by
  refine get_bind fun start => bind (deepen hI) fun _ s hs => ?_
  rw [ends_returningTo]
  exact (hp s hs).mono (fun _ _ h => hI.depth _ h) fun _ _ h => hI.depth _ h

theorem commaList (hp : Maintains I p) (more : Nat) : Maintains I (commaList p more) := by
  induction more with
  | zero => exact bind hp fun _ => pure _
  | succ more ih =>
    refine bind hp fun first => bind (eat hI _) fun yes => ?_
    split
    · exact bind ih fun _ => pure _
    · exact pure _

theorem commaListUntilParen (hp : Maintains I p) : Maintains I (commaListUntilParen p) := by
  refine at_bind fun yes => ?_
  split
  · exact pure _
  · exact get_bind fun s => commaList hI hp _

theorem recovering (hp : Maintains I p) {s : State} (hs : I s) : I (recovering p s).2 := by
  have hend := hp s hs
  unfold Reader.recovering
  unfold Ends at hend
  split <;> rename_i hps <;> rw [hps] at hend
  · exact hend
  · have hafter := hI.synchronize hend
    dsimp only
    split
    · exact hI.advance hafter
    · exact hafter

theorem many (stop : Token.Kind → Bool) (hp : Maintains I p) (most : Nat) {s : State} (hs : I s) :
    I (many stop p most s).2 := by
  induction most generalizing s with
  | zero => exact hs
  | succ most ih =>
    unfold Reader.many
    split
    · exact hs
    · exact ih (recovering hI hp hs)

end

end Maintains

/-- A reader that begins with `first` and goes on with what maintains `I`. -/
def GoesOn {α β : Type} (I : State → Prop) (first : Reader β) (p : Reader α) : Prop :=
  ∃ f : β → Reader α, p = first >>= f ∧ ∀ b, Maintains I (f b)

theorem GoesOn.maintains {α β : Type} {I : State → Prop} {first : Reader β} {p : Reader α}
    (h : GoesOn I first p) (hfirst : Maintains I first) : Maintains I p := by
  obtain ⟨f, rfl, hf⟩ := h
  exact hfirst.bind hf

end Reader

open Reader

variable {I : Reader.State → Prop}

theorem Ident.read_maintains (hI : Stable I) (what : String) : Maintains I (Ident.read what) :=
  .bind (.expect hI _ _) fun _ => .pure _

namespace Expr

mutual

theorem read_maintains (hI : Stable I) : ∀ n, Maintains I (read n)
  | 0 => by
    rw [read]
    exact .tooDeep hI
  | n + 1 => by
    rw [read]
    exact .nested hI (readAssignment_maintains hI n)
termination_by n => (n, 0)

theorem readAssignment_maintains (hI : Stable I) (n : Nat) : Maintains I (readAssignment n) :=
  (readAssignment_goesOn hI n).maintains (readBinary_maintains hI n 1)
termination_by (n, 7)

theorem readAssignment_goesOn (hI : Stable I) (n : Nat) : GoesOn I (readBinary n 1) (readAssignment n) := by
  rw [readAssignment]
  refine ⟨_, rfl, fun target => .at_bind fun yes => ?_⟩
  split
  · refine .bind (.advance hI) fun equal => .bind (read_maintains hI n) fun value => ?_
    split
    · exact .pure _
    · exact .giveUp hI _ _
  · exact .pure _
termination_by (n, 6)

theorem readBinary_maintains (hI : Stable I) (n least : Nat) : Maintains I (readBinary n least) := by
  rw [readBinary]
  exact .bind (readUnary_maintains hI n) fun lhs => readBinaryRest_maintains hI n least lhs
termination_by (n, 5)

theorem readBinaryRest_maintains (hI : Stable I) (n least : Nat) (lhs : Expr) :
    Maintains I (readBinaryRest n least lhs) := by
  rw [readBinaryRest]
  refine .kind_bind fun k => ?_
  split
  · exact .pure _
  · split
    · exact .pure _
    · refine .bind (.advance hI) fun _ => .bind (.deepen hI) fun _ => ?_
      cases n with
      | zero => exact .tooDeep hI
      | succ n => exact .bind (readBinary_maintains hI n _) fun rhs => readBinaryRest_maintains hI n least _
termination_by (n, 4)

theorem readUnary_maintains (hI : Stable I) (n : Nat) : Maintains I (readUnary n) := by
  rw [readUnary.eq_def]
  refine .kind_bind fun k => ?_
  split
  · exact readCall_maintains hI n
  · refine .bind (.advance hI) fun start => .bind (.nested hI ?_) fun operand => .pure _
    cases n with
    | zero => exact .tooDeep hI
    | succ n => exact readUnary_maintains hI n
termination_by (n, 3)

theorem readCall_maintains (hI : Stable I) (n : Nat) : Maintains I (readCall n) := by
  rw [readCall]
  exact .bind (readPrimary_maintains hI n) fun callee => readCallRest_maintains hI n callee
termination_by (n, 2)

theorem readCallRest_maintains (hI : Stable I) (n : Nat) (callee : Expr) :
    Maintains I (readCallRest n callee) := by
  rw [readCallRest]
  refine .at_bind fun yes => ?_
  split
  · refine .bind (.deepen hI) fun _ => .bind (.advance hI) fun opening => ?_
    cases n with
    | zero => exact .tooDeep hI
    | succ n =>
      refine .bind (.commaListUntilParen hI (read_maintains hI n)) fun args => ?_
      exact .bind (.expect hI _ _) fun closing => readCallRest_maintains hI n _
  · exact .pure _
termination_by (n, 1)

theorem readPrimary_maintains (hI : Stable I) (n : Nat) : Maintains I (readPrimary n) := by
  rw [readPrimary]
  refine .peek_bind fun token => ?_
  split
  · exact .bind (.advance hI) fun _ => .pure _
  · split
    · exact .bind (.advance hI) fun _ => .pure _
    · split
      · refine .bind (.advance hI) fun opening => .bind (read_maintains hI n) fun inner => ?_
        exact .bind (.expect hI _ _) fun _ => .pure _
      · exact .giveUpHere hI _
termination_by (n, 1)

end

end Expr

theorem Param.read_maintains (hI : Stable I) : Maintains I Param.read := by
  refine .kind_bind fun k => ?_
  have hname : Maintains I (do return (⟨← Ident.read "a parameter name", TypeName.ofKind? k⟩ : Param)) :=
    .bind (Ident.read_maintains hI _) fun _ => .pure _
  dsimp only
  split
  · exact .bind (.advance hI) fun _ => hname
  · exact hname

namespace Stmt

theorem readVarDecl_maintains (hI : Stable I) (n : Nat) (start : Span) (type : Option TypeName) :
    Maintains I (readVarDecl n start type) := by
  have hrest (name : Ident) (init : Option Expr) : Maintains I (do
      let _ ← expectSemicolon "after variable declaration"
      return Stmt.varDecl name type init ((← get).spanFrom start)) :=
    .bind (.expect hI _ _) fun _ => .get_bind fun _ => .pure _
  refine .bind (Ident.read_maintains hI _) fun name => .bind (.eat hI _) fun yes => ?_
  split
  · exact .bind (.map _ (Expr.read_maintains hI n)) (hrest name)
  · exact .bind (.pure _) (hrest name)

theorem readCondition_maintains (hI : Stable I) (n : Nat) (word : String) :
    Maintains I (readCondition n word) := by
  refine .bind (.expect hI _ _) fun opening => .bind (Expr.read_maintains hI n) fun cond => ?_
  exact .bind (.expect hI _ _) fun _ => .pure _

theorem readReturn_goesOn (hI : Stable I) (n : Nat) (start : Span) : GoesOn I advance (readReturn n start) := by
  have hrest (value : Option Expr) : Maintains I (do
      let _ ← expectSemicolon "after return value"
      return Stmt.returnWith value ((← get).spanFrom start)) :=
    .bind (.expect hI _ _) fun _ => .get_bind fun _ => .pure _
  refine ⟨_, rfl, fun _ => .at_bind fun yes => ?_⟩
  split
  · exact .bind (.pure _) hrest
  · exact .bind (.map _ (Expr.read_maintains hI n)) hrest

theorem readPrint_goesOn (hI : Stable I) (n : Nat) (start : Span) : GoesOn I advance (readPrint n start) := by
  refine ⟨_, rfl, fun _ => .bind (readCondition_maintains hI n _) fun e => ?_⟩
  exact .bind (.expect hI _ _) fun _ => .get_bind fun _ => .pure _

theorem readExpr_goesOn (hI : Stable I) (n : Nat) (start : Span) : GoesOn I (Expr.read n) (readExpr n start) :=
  ⟨_, rfl, fun _ => .bind (.expect hI _ _) fun _ => .get_bind fun _ => .pure _⟩

theorem readBlock_goesOn (hI : Stable I) {stmt : Reader Stmt} (hstmt : Maintains I stmt) :
    GoesOn I (expect .lbrace (.unexpected "'\x7b'")) (readBlock stmt) := by
  refine ⟨_, rfl, fun opening => ?_⟩
  have hbody : Maintains I (modifyGet (manyUntil endsBlock stmt)) :=
    fun _ hs => Maintains.many hI _ hstmt _ hs
  refine .bind hbody fun body => .at_bind fun yes => ?_
  split
  · exact .bind (.advance hI) fun _ => .pure _
  · exact .bind (.report hI _ _) fun _ => .peek_bind fun _ => .pure _

theorem readBlock_maintains (hI : Stable I) {stmt : Reader Stmt} (hstmt : Maintains I stmt) :
    Maintains I (readBlock stmt) :=
  (readBlock_goesOn hI hstmt).maintains (.expect hI _ _)

theorem readFunction_goesOn (hI : Stable I) {stmt : Reader Stmt} (hstmt : Maintains I stmt) :
    GoesOn I advance (readFunction stmt) := by
  refine ⟨_, rfl, fun start => .bind (Ident.read_maintains hI _) fun name => ?_⟩
  refine .bind (.expect hI _ _) fun opening => ?_
  refine .bind (.commaListUntilParen hI (Param.read_maintains hI)) fun params => ?_
  refine .bind (.expect hI _ _) fun _ => .bind (readBlock_maintains hI hstmt) fun block => ?_
  refine .get_bind fun s => ?_
  dsimp only
  split
  · exact .bind (.report hI _ _) fun _ => .pure _
  · exact .pure _

mutual

theorem read_maintains (hI : Stable I) : ∀ n, Maintains I (read n)
  | 0 => by
    rw [read]
    exact .tooDeep hI
  | n + 1 => by
    rw [read]
    exact .nested hI (readInner_maintains hI n)
termination_by n => (n, 0)

theorem readInner_maintains (hI : Stable I) (n : Nat) : Maintains I (readInner n) := by
  rw [readInner]
  refine .peek_bind fun token => .kind_bind fun k => ?_
  split
  · exact .bind (.advance hI) fun _ => readVarDecl_maintains hI n _ _
  · exact .bind (.advance hI) fun _ => readVarDecl_maintains hI n _ _
  · exact .bind (.advance hI) fun _ => readVarDecl_maintains hI n _ _
  · exact .bind (.advance hI) fun _ => readVarDecl_maintains hI n _ _
  · exact .bind (.advance hI) fun _ => readVarDecl_maintains hI n _ _
  · exact (readFunction_goesOn hI (read_maintains hI n)).maintains (.advance hI)
  · exact (readBranch_goesOn hI n _).maintains (.advance hI)
  · refine .bind (.advance hI) fun _ => .bind (readCondition_maintains hI n _) fun cond => ?_
    exact .bind (read_maintains hI n) fun body => .get_bind fun _ => .pure _
  · exact .bind (readBlock_maintains hI (read_maintains hI n)) fun _ => .pure _
  · exact (readReturn_goesOn hI n _).maintains (.advance hI)
  · exact (readPrint_goesOn hI n _).maintains (.advance hI)
  · exact .bind (.advance hI) fun _ => .bind (.expect hI _ _) fun _ => .get_bind fun _ => .pure _
  · exact .bind (.advance hI) fun _ => .bind (.expect hI _ _) fun _ => .get_bind fun _ => .pure _
  · exact .giveUpHere hI _
  · exact (readExpr_goesOn hI n _).maintains (Expr.read_maintains hI n)
termination_by (n, 2)

theorem readBranch_goesOn (hI : Stable I) (n : Nat) (start : Span) : GoesOn I advance (readBranch n start) := by
  rw [readBranch]
  have hrest (cond : Expr) (thenStmt : Stmt) (elseStmt : Option Stmt) :
      Maintains I (do return Stmt.branch cond thenStmt elseStmt ((← get).spanFrom start)) :=
    .get_bind fun _ => .pure _
  refine ⟨_, rfl, fun _ => .bind (readCondition_maintains hI n _) fun cond => ?_⟩
  refine .bind (read_maintains hI n) fun thenStmt => .bind (.eat hI _) fun yes => ?_
  split
  · exact .bind (.map _ (read_maintains hI n)) (hrest cond thenStmt)
  · exact .bind (.pure _) (hrest cond thenStmt)
termination_by (n, 1)

end

end Stmt

/-- What holds before the first token, and is kept by each step, holds when a program has been read. -/
theorem Program.ofTokens_maintains (hI : Stable I) {tokens : List Token} (hstart : I (.ofTokens tokens)) :
    ∃ s, I s ∧ (ofTokens tokens).diagnostics = s.diagnostics.toList :=
  ⟨_, Maintains.many hI _ (Stmt.read_maintains hI maxNesting) _ hstart, rfl⟩

end Scriptlet
