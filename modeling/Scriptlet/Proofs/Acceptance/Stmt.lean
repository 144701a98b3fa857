import Scriptlet.Proofs.Acceptance.Expr

/-!
# Statements that are read are statements of the grammar

The readers of statements, one after the other, and by induction on the bound on nesting all of them
together (`Stmt.sound`). The level of nesting decides between items and statements: a function below
the top level is read, but reported.
-/

namespace Scriptlet

open Grammar

open Reader

theorem Expr.level_read (n : Nat) (s : State) : Level s (read n) := by
  cases n with
  | zero => rw [read]; rfl
  | succ n => rw [read]; exact level_nested

theorem Ident.read_bind {α : Type} {s : State} {what : String} {f : Ident → Reader α}
    {D : List Token → α → State → Prop} (heof : s.eof.kind = .eof)
    (h : s.peek.kind = .ident → Reads AnyFault s.advance (f (nameOf s.peek)) fun us => D (s.peek :: us)) :
    Reads AnyFault s (Ident.read what >>= f) D := by
  unfold Ident.read
  rw [bind_assoc]
  exact .expect_bind heof nofun fun hk => h hk

theorem typeName_derives {wide : Bool} {t : Token} {type : TypeName}
    (h : TypeName.ofKind? t.kind = some type) : Derives wide .typeName [t] type := by
  unfold TypeName.ofKind? at h
  split at h <;> cases h
  · exact .intType ‹_›
  · exact .floatType ‹_›
  · exact .boolType ‹_›
  · exact .stringType ‹_›

theorem Param.read_sound (s : State) (heof : s.eof.kind = .eof) :
    Reads AnyFault s Param.read fun ts p _ => Derives true .param ts p := by
  unfold Param.read
  refine .kind_bind ?_
  cases htype : TypeName.ofKind? s.peek.kind with
  | none => exact Ident.read_bind heof fun hname => .pure (.plainParam hname)
  | some type =>
    refine .advance_bind heof (fun hk => by simp [hk, TypeName.ofKind?] at htype) ?_
    exact Ident.read_bind (by simpa using heof) fun hname =>
      .pure (.typedParam (typeName_derives htype) hname)

theorem Param.level_read (s : State) : Level s Param.read := by
  unfold Param.read Ident.read
  cases htype : TypeName.ofKind? s.peek.kind <;>
    simp only [Level, ends_bind, ends_kind, htype, Option.isSome] <;>
    split <;> simp [State.report]

namespace Stmt

variable {n : Nat} {s : State}

theorem level_read (n : Nat) (s : State) : Level s (read n) := by
  cases n with
  | zero => rw [read]; rfl
  | succ n => rw [read]; exact level_nested

/-- The beginning of a variable declaration: `let`, or a type. -/
inductive DeclHead : List Token → Option TypeName → Prop
  | letWord {word : Token} (h : word.kind = .letWord) : DeclHead [word] none
  | typed {ts : List Token} {type : TypeName} (h : Derives true .typeName ts type) :
      DeclHead ts (some type)

theorem DeclHead.plain {ts : List Token} {type : Option TypeName} {name semi : Token} {span : Span}
    (h : DeclHead ts type) (hname : name.kind = .ident) (hsemi : semi.kind = .semicolon) :
    Derives true .varDecl (ts ++ [name, semi]) (Stmt.varDecl (nameOf name) type none span) := by
  cases h with
  | letWord h => exact .letPlain h hname hsemi
  | typed h => exact .typedPlain h hname hsemi

theorem DeclHead.init {ts es : List Token} {type : Option TypeName} {name equal semi : Token} {e : Expr}
    {span : Span} (h : DeclHead ts type) (hname : name.kind = .ident) (hequal : equal.kind = .equal)
    (he : Derives true (.expr .assignment) es e) (hsemi : semi.kind = .semicolon) :
    Derives true .varDecl (ts ++ name :: equal :: (es ++ [semi]))
      (Stmt.varDecl (nameOf name) type (some e) span) := by
  cases h with
  | letWord h => exact .letInit h hname hequal he hsemi
  | typed h => exact .typedInit h hname hequal he hsemi

theorem varDecl_sound {start : Span} {type : Option TypeName} {ts : List Token} (h : DeclHead ts type)
    (heof : s.eof.kind = .eof) :
    Reads AnyFault s (readVarDecl n start type) fun us st _ => Derives true .varDecl (ts ++ us) st := by
  unfold readVarDecl
  refine Ident.read_bind heof fun hname => ?_
  refine .eat_bind (by simpa using heof) nofun (fun hequal => ?_) fun _ => ?_
  · refine ((Expr.sound n).read _ (by simpa using heof)).map_bind fun es e s' hr he => ?_
    refine .expect_bind (by simpa [hr.eof] using heof) nofun fun hsemi => .get_bind (.pure ?_)
    exact h.init hname hequal he hsemi
  · refine .expect_bind (by simpa using heof) nofun fun hsemi => .get_bind (.pure ?_)
    exact h.plain hname hsemi

/-- A condition in parentheses. -/
def Condition (ts : List Token) (e : Expr) : Prop :=
  ∃ lp es rp, ts = lp :: (es ++ [rp]) ∧ lp.kind = .lparen ∧
    Derives true (.expr .assignment) es e ∧ rp.kind = .rparen

theorem condition_sound {word : String} (heof : s.eof.kind = .eof) :
    Reads AnyFault s (readCondition n word) fun ts e s' => Condition ts e ∧ s'.depth = s.depth := by
  refine .expect_bind heof nofun fun hlp => ?_
  refine (((Expr.sound n).read _ (by simpa using heof)).and_level (Expr.level_read ..)).bind
    fun es e s' hr ⟨he, hd⟩ => ?_
  refine .expect_bind (by simpa [hr.eof] using heof) nofun fun hrp => .pure ?_
  exact ⟨⟨_, es, _, by simp, hlp, he, hrp⟩, by simpa using hd⟩

theorem return_sound {start : Span} (heof : s.eof.kind = .eof) (hword : s.peek.kind = .returnWord) :
    Reads AnyFault s (readReturn n start) fun ts st _ => Derives true .returnStmt ts st := by
  refine .advance_bind heof (by simp [hword]) (.at_bind ?_)
  split
  · refine .expect_bind (by simpa using heof) nofun fun hsemi => .get_bind (.pure ?_)
    exact .returnNone hword hsemi
  · refine ((Expr.sound n).read _ (by simpa using heof)).map_bind fun es e s' hr he => ?_
    refine .expect_bind (by simpa [hr.eof] using heof) nofun fun hsemi => .get_bind (.pure ?_)
    exact .returnSome hword he hsemi

theorem print_sound {start : Span} (heof : s.eof.kind = .eof) (hword : s.peek.kind = .printWord) :
    Reads AnyFault s (readPrint n start) fun ts st _ => Derives true .printStmt ts st := by
  refine .advance_bind heof (by simp [hword]) ?_
  refine (condition_sound (by simpa using heof)).bind fun ts e s' hr hc => ?_
  obtain ⟨⟨lp, es, rp, rfl, hlp, he, hrp⟩, -⟩ := hc
  refine .expect_bind (by simpa [hr.eof] using heof) nofun fun hsemi => .get_bind (.pure ?_)
  simpa using Derives.print hword hlp he hrp hsemi

theorem expr_sound {start : Span} (heof : s.eof.kind = .eof) :
    Reads AnyFault s (readExpr n start) fun ts st _ => Derives true .exprStmt ts st := by
  refine ((Expr.sound n).read s heof).bind fun es e s' hr he => ?_
  refine .expect_bind (hr.eof ▸ heof) nofun fun hsemi => .get_bind (.pure ?_)
  exact .exprStmt he hsemi

/-- A statement that is read at the level `depth`: a function only at the top. -/
def ItemAt (depth : Nat) (ts : List Token) (st : Stmt) : Prop :=
  Derives true .item ts st ∧ (1 ≤ depth → Derives true .stmt ts st)

theorem ItemAt.of_stmt {depth : Nat} {ts : List Token} {st : Stmt} (h : Derives true .stmt ts st) :
    ItemAt depth ts st :=
  ⟨.itemStmt h, fun _ => h⟩

/-- What a reader of statements reads below the top level. -/
def SoundBelow (p : Reader Stmt) : Prop :=
  ∀ s : State, s.eof.kind = .eof → 1 ≤ s.depth → MayRead AnyFault s p fun ts st _ => Derives true .stmt ts st

theorem level_readBlock {p : Reader Stmt} (hlevel : ∀ s, Level s p) (s : State) :
    Level s (readBlock p) := by
  have hdepth := many_depth endsBlock hlevel s.advance.rest.length s.advance
  rw [advance_depth] at hdepth
  rw [Level, readBlock, ends_bind, ends_expect]
  split
  · rw [ends_bind, ends_modifyGet]
    unfold manyUntil
    generalize many endsBlock p s.advance.rest.length s.advance = r at hdepth
    rw [ends_bind, ends_at, ends_ite, ends_bind, ends_advance, ends_pure, ends_bind, ends_report,
      ends_bind, ends_peek, ends_pure]
    split
    · rwa [advance_depth]
    · exact hdepth
  · rfl

theorem block_sound {p : Reader Stmt} (hp : SoundBelow p) (hlevel : ∀ s, Level s p)
    (heof : s.eof.kind = .eof) (hd : 1 ≤ s.depth) :
    MayRead AnyFault s (readBlock p) fun ts r _ => Derives true .block ts r.1 := by
  unfold readBlock
  refine .expect_bind heof nofun fun hlb => ?_
  have hrow := many_reads endsBlock (Derives true .stmts) (fun s' heof' hd' => hp s' heof' (hd' ▸ hd))
    hlevel .noStmts .moreStmts (fun h => h.ne_nil rfl) s.advance.rest.length s.advance
    (by simpa using heof) (advance_depth s)
  rw [MayRead, ends_bind, ends_modifyGet]
  unfold manyUntil
  generalize many endsBlock p s.advance.rest.length s.advance = r at hrow
  rw [ends_bind, ends_at, ends_ite, ends_bind, ends_advance, ends_pure, ends_bind, ends_report,
    ends_bind, ends_peek, ends_pure]
  split
  · next hrb =>
    have hrb := of_decide_eq_true hrb
    obtain hn | ⟨ts, hr, hrow, -⟩ := hrow
    · exact .inl (hn.trans_extends (advance_extends _))
    · have hrb' : Read r.2 [r.2.peek] r.2.advance :=
        read_advance (by simpa [hr.eof] using heof) (by simp [hrb])
      exact .inr ⟨_, hr.trans hrb', .block hlb hrow hrb⟩
  · have hext : Extends s.advance r.2 := by
      obtain hn | ⟨_, hr, _⟩ := hrow
      · exact hn.toExtends
      · exact hr.extends
    exact .inl (hext.trans_noisy (noisy_report trivial ..))

theorem params_sound (heof : s.eof.kind = .eof) :
    Reads AnyFault s (commaListUntilParen Param.read) fun ts ps s' =>
      Derives true .optParams ts ps ∧ s'.depth = s.depth :=
  .and_level (.commaListUntilParen (Derives true .params) Param.read_sound .oneParam .moreParams
    .noParams .someParams s heof) (level_commaListUntilParen Param.level_read s)

theorem grows_functionRest {c : State → Prop} [∀ s, Decidable (c s)] {span : Span} {st : Stmt} :
    Grows s (do
      if c (← get) then
        report .nestedFunction span
      return st) := by
  rw [Grows, ends_bind, ends_get]
  split
  · exact report_extends ..
  · exact .refl s

theorem function_sound {p : Reader Stmt} (hp : SoundBelow p) (hlevel : ∀ s, Level s p)
    (heof : s.eof.kind = .eof) (hd : 1 ≤ s.depth) (hword : s.peek.kind = .funcWord) :
    MayRead AnyFault s (readFunction p) fun ts st _ => Derives true .funcDecl ts st ∧ s.depth = 1 := by
  unfold readFunction Ident.read
  refine .advance_bind heof (by simp [hword]) ?_
  rw [bind_assoc]
  refine .expect_bind (by simpa using heof) nofun fun hname => ?_
  rw [pure_bind]
  refine .expect_bind (by simpa using heof) nofun fun hlp => ?_
  refine .of_reads_bind (params_sound (by simpa using heof)) fun ps params s₁ hr ⟨hps, hd₁⟩ => ?_
  have heof₁ : s₁.eof.kind = .eof := by simpa [hr.eof] using heof
  have hd₁ : s₁.depth = s.depth := by simpa using hd₁
  refine .expect_bind heof₁ nofun fun hrp => ?_
  refine .bind ((block_sound hp hlevel (by simpa using heof₁) (by simpa [hd₁] using hd)).and_level
    (level_readBlock hlevel _)) (fun bs r s₂ _ ⟨hbody, hd₂⟩ => ?_) fun r s' _ => ?_
  · have hd₂ : s₂.depth = s.depth := by simpa [hd₁] using hd₂
    dsimp only
    rw [MayRead, ends_bind, ends_get]
    split
    · exact .inl (noisy_report trivial ..)
    · refine .inr ⟨[], .refl s₂, ?_, by omega⟩
      rw [List.append_nil]
      exact .funcDecl hword hname hlp hps hrp hbody
  · exact grows_functionRest

/-- What the reader of statements with the bound `n` reads. -/
def Sound (n : Nat) : Prop :=
  ∀ s : State, s.eof.kind = .eof → MayRead AnyFault s (read n) fun ts st _ => ItemAt s.depth ts st

theorem Sound.below (h : Sound n) : SoundBelow (read n) :=
  fun s heof hd => (h s heof).mono fun _ _ _ _ hst => hst.2 hd

theorem grows_branchRest {p : Reader Stmt} (hp : ∀ s : State, s.eof.kind = .eof → Grows s p)
    (heof : s.eof.kind = .eof) {f : Option Stmt → State → Stmt} :
    Grows s (do
      let elseStmt ← if ← eat .elseWord then some <$> p else pure none
      return f elseStmt (← get)) := by
  rw [Grows, ends_bind, ends_eat]
  split
  · simp only [if_true, ends_bind, ends_map, ends_get, ends_pure]
    exact (hp s.advance (by simpa using heof)).mono
      (fun _ _ h => (advance_extends s).trans h) fun _ _ h => (advance_extends s).trans h
  · exact .refl s

theorem branch_sound {start : Span} (h : Sound n) (heof : s.eof.kind = .eof)
    (hd : 1 ≤ s.depth) (hword : s.peek.kind = .ifWord) :
    MayRead AnyFault s (readBranch n start) fun ts st _ => Derives true .ifStmt ts st := by
  rw [readBranch]
  refine .advance_bind heof (by simp [hword]) ?_
  refine .of_reads_bind (condition_sound (by simpa using heof)) fun cs e s₁ hr₁ ⟨hc, hd₁⟩ => ?_
  obtain ⟨lp, es, rp, rfl, hlp, he, hrp⟩ := hc
  have heof₁ : s₁.eof.kind = .eof := by simpa [hr₁.eof] using heof
  have hd₁ : 1 ≤ s₁.depth := by simpa [hd₁] using hd
  refine .bind ((h.below s₁ heof₁ hd₁).and_level (level_read n s₁)) (fun ts st s₂ hr₂ ⟨hst, hd₂⟩ => ?_)
    fun st s₂ hext => ?_
  · have heof₂ : s₂.eof.kind = .eof := hr₂.eof ▸ heof₁
    rw [MayRead, ends_bind, ends_eat]
    split
    · next helse =>
      have hread := (h.below s₂.advance (by simpa using heof₂) (by simpa [hd₂] using hd₁))
      simp only [if_true, ends_bind, ends_map, ends_get, ends_pure]
      refine MayRead.after (read_advance heof₂ (by simp [helse])) (hread.mono fun us st' _ _ hst' => ?_)
      simpa using Derives.ifThenElse hword hlp he hrp hst helse hst'
    · refine .inr ⟨[], .refl s₂, ?_⟩
      simpa using Derives.ifThen hword hlp he hrp hst
  · exact grows_branchRest (fun s' heof' => (h s' heof').grows) (hext.eof ▸ heof₁)

theorem loop_sound {start : Span} (h : Sound n) (heof : s.eof.kind = .eof)
    (hd : 1 ≤ s.depth) (hword : s.peek.kind = .whileWord) :
    MayRead AnyFault s (do
      let _ ← advance
      let cond ← readCondition n "while"
      let body ← read n
      return .loop cond body ((← get).spanFrom start)) fun ts st _ => Derives true .whileStmt ts st := by
  refine .advance_bind heof (by simp [hword]) ?_
  refine .of_reads_bind (condition_sound (by simpa using heof)) fun cs e s₁ hr₁ ⟨hc, hd₁⟩ => ?_
  obtain ⟨lp, es, rp, rfl, hlp, he, hrp⟩ := hc
  have heof₁ : s₁.eof.kind = .eof := by simpa [hr₁.eof] using heof
  refine .bind (h.below s₁ heof₁ (by simpa [hd₁] using hd)) (fun ts st s₂ hr₂ hst => ?_)
    fun st s₂ _ => .refl s₂
  refine .inr ⟨[], .refl s₂, ?_⟩
  simpa using Derives.whileDo hword hlp he hrp hst

theorem itemAt_of_stmt {d : Nat} {x : Reader Stmt} {D : List Token → Stmt → Prop}
    (h : MayRead AnyFault s x fun ts st _ => D ts st) (hD : ∀ {ts st}, D ts st → Derives true .stmt ts st) :
    MayRead AnyFault s x fun ts st _ => ItemAt d ts st :=
  h.mono fun _ _ _ _ hst => ⟨.itemStmt (hD hst), fun _ => hD hst⟩

theorem inner_sound (h : Sound n) (heof : s.eof.kind = .eof) (hd : 1 ≤ s.depth) :
    MayRead AnyFault s (readInner n) fun ts st _ => ItemAt (s.depth - 1) ts st := by
  have typed {start : Span} (htype : (TypeName.ofKind? s.peek.kind).isSome) : MayRead AnyFault s (do
      let type := TypeName.ofKind? (← advance).kind
      readVarDecl n start type) fun ts st _ => ItemAt (s.depth - 1) ts st := by
    obtain ⟨type, htype⟩ := Option.isSome_iff_exists.1 htype
    refine itemAt_of_stmt (Reads.mayRead (.advance_bind heof (fun hk => ?_) ?_)) .stmtVarDecl
    · rw [hk] at htype
      cases htype
    · have hhead : DeclHead [s.peek] (TypeName.ofKind? s.peek.kind) := by
        rw [htype]
        exact .typed (typeName_derives htype)
      exact varDecl_sound hhead (by simpa using heof)
  rw [readInner]
  refine .peek_bind (.kind_bind ?_)
  split
  · next hword =>
    refine itemAt_of_stmt (Reads.mayRead (.advance_bind heof (by simp [hword]) ?_)) .stmtVarDecl
    exact varDecl_sound (.letWord hword) (by simpa using heof)
  · next hword => exact typed (by rw [hword]; rfl)
  · next hword => exact typed (by rw [hword]; rfl)
  · next hword => exact typed (by rw [hword]; rfl)
  · next hword => exact typed (by rw [hword]; rfl)
  · next hword =>
    refine (function_sound h.below (level_read n) heof hd hword).mono fun ts st _ _ hfunction => ?_
    exact ⟨.itemFunc hfunction.1, by have := hfunction.2; omega⟩
  · next hword => exact itemAt_of_stmt (branch_sound h heof hd hword) .stmtIf
  · next hword => exact itemAt_of_stmt (loop_sound h heof hd hword) .stmtWhile
  · next hword =>
    refine .bind (block_sound h.below (level_read n) heof hd) (fun ts r s' _ hb => ?_)
      fun r s' _ => .refl s'
    exact .inr ⟨[], .refl s', .of_stmt ((List.append_nil ts).symm ▸ .stmtBlock hb)⟩
  · next hword => exact itemAt_of_stmt (return_sound heof hword).mayRead .stmtReturn
  · next hword => exact itemAt_of_stmt (print_sound heof hword).mayRead .stmtPrint
  · next hword =>
    refine Reads.mayRead (.advance_bind heof (by simp [hword]) ?_)
    refine .expect_bind (by simpa using heof) (by decide) fun hsemi => .get_bind (.pure ?_)
    exact .of_stmt (.stmtBreak hword hsemi)
  · next hword =>
    refine Reads.mayRead (.advance_bind heof (by simp [hword]) ?_)
    refine .expect_bind (by simpa using heof) (by decide) fun hsemi => .get_bind (.pure ?_)
    exact .of_stmt (.stmtContinue hword hsemi)
  · exact (Reads.giveUpHere trivial).mayRead
  · exact itemAt_of_stmt (expr_sound heof).mayRead .stmtExpr

theorem sound (n : Nat) : Sound n := by
  induction n with
  | zero => intro s _; rw [read]; exact (Reads.tooDeep trivial).mayRead
  | succ n ih =>
    intro s heof
    rw [read]
    exact .nested (inner_sound ih heof (Nat.le_add_left ..))

end Stmt

end Scriptlet
