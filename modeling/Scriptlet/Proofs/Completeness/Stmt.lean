import Scriptlet.Proofs.Acceptance.Stmt
import Scriptlet.Proofs.Completeness.Expr

/-!
# Statements of the grammar are read

Every statement and every item of the written grammar is read, with its own tree, if each `else` in it
belongs to the nearest `if` and none follows that an open `if` in it would take (`Closed`). A function is
read at the top only, so `ItemComplete` fixes the level of nesting.
-/

namespace Scriptlet

open Grammar Reader

/-! ### Parameters -/

namespace Param

variable {s : State} {ts us rest : List Token} {p : Param} {ps : List Param}

def Complete (ts : List Token) (p : Param) : Prop :=
  ∀ (s : State) (rest : List Token), s.rest = ts ++ rest → Takes s Param.read ts (·.erase = p.erase)

def ListComplete (ts : List Token) (ps : List Param) : Prop :=
  ∀ (more : Nat) (s : State) (rest : List Token), ts.length ≤ more → s.rest = ts ++ rest →
    next s rest = .rparen → Takes s (commaList Param.read more) ts (·.map erase = ps.map erase)

def OptComplete (ts : List Token) (ps : List Param) : Prop :=
  ∀ (s : State) (rest : List Token), s.rest = ts ++ rest → next s rest = .rparen →
    Takes s (commaListUntilParen Param.read) ts (·.map erase = ps.map erase)

theorem plain_complete {name : Token} (hname : name.kind = .ident) :
    Complete [name] ⟨nameOf name, none⟩ := by
  intro s rest hrest
  have htype : TypeName.ofKind? (next s (name :: rest)) = none := by rw [next, List.headD_cons, hname]; rfl
  unfold Param.read Ident.read
  refine .kind_bind hrest ?_
  simp only [List.cons_append, List.nil_append, htype, Option.isSome, bind_assoc, pure_bind]
  exact .expect_bind hrest hname (by decide) (.pure rfl)

theorem typed_complete {t name : Token} {type : TypeName} (htype : TypeName.ofKind? t.kind = some type)
    (hname : name.kind = .ident) : Complete [t, name] ⟨nameOf name, some type⟩ := by
  intro s rest hrest
  have ht := TypeName.kind_ne_eof htype
  have htype : TypeName.ofKind? (next s (t :: name :: rest)) = some type := htype
  unfold Param.read Ident.read
  refine .kind_bind hrest ?_
  simp only [List.cons_append, List.nil_append, htype, Option.isSome, bind_assoc, pure_bind]
  exact .advance_bind hrest ht (.expect_bind (advance_rest hrest ht) hname (by decide) (.pure rfl))

theorem list_one (h : Complete ts p) : ListComplete ts [p] := by
  intro more s rest _ hrest hnext
  refine .commaList_one (h s rest hrest) hrest (by rw [hnext]; decide) fun p' hp => ?_
  simp only [List.map_cons, hp, List.map_nil]

theorem list_more {comma : Token} (h : Complete ts p) (hcomma : comma.kind = .comma)
    (hps : ListComplete us ps) : ListComplete (ts ++ comma :: us) (p :: ps) := by
  intro more s rest hmore hrest hnext
  rw [List.append_assoc] at hrest
  cases more with
  | zero => simp at hmore
  | succ more =>
    refine .commaList_more (h s _ hrest) hrest hcomma (fun s' hr => ?_)
      (Q := (·.map erase = ps.map erase)) fun p' ps' hp hps => ?_
    · refine hps more s' rest ?_ (hr.rest_eq (by simpa using hrest)) (by rwa [hr.next_eq])
      simp only [List.length_append, List.length_cons] at hmore
      omega
    · simp only [List.map_cons, hp, hps]

end Param

/-! ### Statements -/

namespace Stmt

variable {n : Nat} {s : State} {ts us es rest : List Token} {st st' : Stmt} {e : Expr} {body : List Stmt}

/-- A statement that is open is not followed by an `else`. -/
def Closed (st : Stmt) (k : Token.Kind) : Prop := st.isOpen = true → k ≠ .elseWord

def InnerComplete (ts : List Token) (st : Stmt) : Prop :=
  ∀ (n : Nat) (s : State) (rest : List Token), s.eof.kind = .eof → s.rest = ts ++ rest →
    Closed st (next s rest) → MayTake s (readInner n) ts (·.erase = st.erase)

theorem read_mayTake (h : InnerComplete ts st) (n : Nat) (heof : s.eof.kind = .eof)
    (hrest : s.rest = ts ++ rest) (hnext : Closed st (next s rest)) :
    MayTake s (read n) ts (·.erase = st.erase) := by
  cases n with
  | zero => rw [read]; exact .tooDeep
  | succ n => rw [read]; exact .nested (h n _ rest heof hrest hnext)

theorem grows_read (n : Nat) (s : State) (heof : s.eof.kind = .eof) : Grows s (read n) :=
  (sound n s heof).grows

theorem condition_takes {lp rp : Token} {word : String} (hlp : lp.kind = .lparen)
    (he : Expr.AssignmentComplete es e) (hrp : rp.kind = .rparen)
    (hrest : s.rest = lp :: (es ++ rp :: rest)) :
    Takes s (readCondition n word) (lp :: (es ++ [rp])) (·.erase = e.erase) := by
  have hrest' : s.advance.rest = es ++ rp :: rest := advance_rest hrest (ne_eof hlp (by decide))
  unfold readCondition
  refine .expect_bind hrest hlp (by decide) ((Expr.read_takes he n hrest' ?_).bind fun e' s' hr he' => ?_)
  · rw [next, List.headD_cons, hrp]; exact Expr.ended_rparen
  · exact .expect_bind (hr.rest_eq hrest') hrp (by decide) (.pure he')

theorem ended_semicolon : Expr.Ended .semicolon := ⟨rfl, by decide, by decide⟩

/-- An expression with the semicolon after it. -/
theorem exprSemicolon_takes {semi : Token} {context : String} {f : Expr → State → Stmt}
    (he : Expr.AssignmentComplete es e) (hsemi : semi.kind = .semicolon)
    (hrest : s.rest = es ++ semi :: rest) (hf : ∀ e' s', e'.erase = e.erase → (f e' s').erase = st.erase) :
    Takes s (do
      let e ← Expr.read n
      let _ ← expectSemicolon context
      return f e (← get)) (es ++ [semi]) (·.erase = st.erase) := by
  refine (Expr.read_takes he n hrest ?_).bind fun e' s' hr he' => ?_
  · rw [next, List.headD_cons, hsemi]; exact ended_semicolon
  · exact .expect_bind (hr.rest_eq hrest) hsemi (by decide) (.get_bind (.pure (hf e' _ he')))

theorem varDecl_plain {start : Span} {type : Option TypeName} {name semi : Token} {span : Span}
    (hname : name.kind = .ident) (hsemi : semi.kind = .semicolon) (hrest : s.rest = name :: semi :: rest) :
    Takes s (readVarDecl n start type) [name, semi]
      (·.erase = (varDecl (nameOf name) type none span).erase) := by
  unfold readVarDecl Ident.read
  simp only [bind_assoc, pure_bind]
  have hrest' := advance_rest hrest (ne_eof hname (by decide))
  refine .expect_bind hrest hname (by decide) (.not_eat_bind hrest' ?_ ?_)
  · rw [next, List.headD_cons, hsemi]; decide
  · exact .expect_bind hrest' hsemi (by decide) (.get_bind (.pure rfl))

theorem varDecl_init {start : Span} {type : Option TypeName} {name equal semi : Token} {span : Span}
    (hname : name.kind = .ident) (hequal : equal.kind = .equal) (he : Expr.AssignmentComplete es e)
    (hsemi : semi.kind = .semicolon) (hrest : s.rest = name :: equal :: (es ++ semi :: rest)) :
    Takes s (readVarDecl n start type) (name :: equal :: (es ++ [semi]))
      (·.erase = (varDecl (nameOf name) type (some e) span).erase) := by
  unfold readVarDecl Ident.read
  simp only [bind_assoc, pure_bind]
  have hrest' := advance_rest hrest (ne_eof hname (by decide))
  refine .expect_bind hrest hname (by decide) (.eat_bind hrest' hequal (by decide) ?_)
  simp only [if_true, bind_map_left]
  refine exprSemicolon_takes he hsemi (advance_rest hrest' (ne_eof hequal (by decide))) fun e' s' he' => ?_
  simp only [erase, Option.map_some, he']
  rfl

theorem let_complete {word : Token} (hword : word.kind = .letWord)
    (h : ∀ (n : Nat) (s : State) (start : Span) (rest : List Token), s.rest = ts ++ rest →
      Takes s (readVarDecl n start none) ts (·.erase = st.erase)) : InnerComplete (word :: ts) st := by
  intro n s rest _ hrest _
  rw [readInner]
  refine MayRead.peek_bind (MayRead.kind_bind ?_)
  simp only [peek_cons hrest, hword]
  have hrest' := advance_rest hrest (ne_eof hword (by decide))
  exact Takes.mayTake (.advance_bind hrest (ne_eof hword (by decide)) (h n _ _ rest hrest'))

theorem typed_complete {t : Token} {type : TypeName} (htype : TypeName.ofKind? t.kind = some type)
    (h : ∀ (n : Nat) (s : State) (start : Span) (rest : List Token), s.rest = ts ++ rest →
      Takes s (readVarDecl n start (some type)) ts (·.erase = st.erase)) : InnerComplete (t :: ts) st := by
  intro n s rest _ hrest _
  have ht := TypeName.kind_ne_eof htype
  have hdecl (start : Span) : MayTake s (do
      let type := TypeName.ofKind? (← advance).kind
      readVarDecl n start type) (t :: ts) (·.erase = st.erase) := by
    refine Takes.mayTake (.advance_bind hrest ht ?_)
    dsimp only
    rw [htype]
    exact h n _ _ rest (advance_rest hrest ht)
  rw [readInner]
  refine MayRead.peek_bind (MayRead.kind_bind ?_)
  simp only [peek_cons hrest]
  cases hk : t.kind <;> simp only [hk, TypeName.ofKind?, reduceCtorEq] at htype <;> exact hdecl _

theorem break_complete {word semi : Token} {span : Span} (hword : word.kind = .breakWord)
    (hsemi : semi.kind = .semicolon) : InnerComplete [word, semi] (breakLoop span) := by
  intro n s rest _ hrest _
  rw [readInner]
  refine MayRead.peek_bind (MayRead.kind_bind ?_)
  simp only [peek_cons hrest, hword]
  have hrest' := advance_rest hrest (ne_eof hword (by decide))
  exact Takes.mayTake (.advance_bind hrest (ne_eof hword (by decide))
    (.expect_bind hrest' hsemi (by decide) (.get_bind (.pure rfl))))

theorem continue_complete {word semi : Token} {span : Span} (hword : word.kind = .continueWord)
    (hsemi : semi.kind = .semicolon) : InnerComplete [word, semi] (continueLoop span) := by
  intro n s rest _ hrest _
  rw [readInner]
  refine MayRead.peek_bind (MayRead.kind_bind ?_)
  simp only [peek_cons hrest, hword]
  have hrest' := advance_rest hrest (ne_eof hword (by decide))
  exact Takes.mayTake (.advance_bind hrest (ne_eof hword (by decide))
    (.expect_bind hrest' hsemi (by decide) (.get_bind (.pure rfl))))

theorem return_none {word semi : Token} {span : Span} (hword : word.kind = .returnWord)
    (hsemi : semi.kind = .semicolon) : InnerComplete [word, semi] (returnWith none span) := by
  intro n s rest _ hrest _
  rw [readInner]
  refine MayRead.peek_bind (MayRead.kind_bind ?_)
  simp only [peek_cons hrest, hword, readReturn]
  have hrest' := advance_rest hrest (ne_eof hword (by decide))
  refine Takes.mayTake (.advance_bind hrest (ne_eof hword (by decide)) (.at_bind hrest' ?_))
  rw [next, List.append_eq, List.cons_append, List.headD_cons, hsemi, if_pos (decide_eq_true rfl)]
  exact .expect_bind hrest' hsemi (by decide) (.get_bind (.pure rfl))

theorem return_some {word semi : Token} {span : Span} (hword : word.kind = .returnWord)
    (he : Expr.AssignmentComplete es e) (hhead : ∃ t ∈ es.head?, t.kind ≠ .semicolon)
    (hsemi : semi.kind = .semicolon) :
    InnerComplete (word :: (es ++ [semi])) (returnWith (some e) span) := by
  intro n s rest _ hrest _
  rw [readInner]
  refine MayRead.peek_bind (MayRead.kind_bind ?_)
  simp only [peek_cons hrest, hword, readReturn]
  have hrest' : s.advance.rest = es ++ semi :: rest := by simpa using advance_rest hrest (ne_eof hword (by decide))
  obtain ⟨t, ht, hk⟩ := hhead
  refine Takes.mayTake (.advance_bind hrest (ne_eof hword (by decide)) (.at_bind hrest' ?_))
  rw [next_append ht, if_neg (by simpa using hk), bind_map_left]
  refine exprSemicolon_takes he hsemi hrest' fun e' s' he' => ?_
  simp only [erase, Option.map_some, he']

theorem print_complete {word lp rp semi : Token} {span : Span} (hword : word.kind = .printWord)
    (hlp : lp.kind = .lparen) (he : Expr.AssignmentComplete es e) (hrp : rp.kind = .rparen)
    (hsemi : semi.kind = .semicolon) :
    InnerComplete (word :: lp :: (es ++ [rp, semi])) (print e span) := by
  intro n s rest _ hrest _
  rw [readInner]
  refine MayRead.peek_bind (MayRead.kind_bind ?_)
  simp only [peek_cons hrest, hword, readPrint]
  have hrest' : s.advance.rest = lp :: (es ++ rp :: semi :: rest) := by
    simpa using advance_rest hrest (ne_eof hword (by decide))
  have htokens : lp :: (es ++ [rp, semi]) = lp :: (es ++ [rp]) ++ [semi] := by simp
  refine Takes.mayTake (.advance_bind hrest (ne_eof hword (by decide)) ?_)
  rw [htokens]
  refine (condition_takes hlp he hrp hrest').bind fun e' s' hr he' => ?_
  refine .expect_bind (hr.rest_eq (by simpa using hrest')) hsemi (by decide) (.get_bind (.pure ?_))
  simp only [erase, he']

theorem expr_complete {semi : Token} {span : Span} (he : Expr.AssignmentComplete es e)
    (hsemi : semi.kind = .semicolon) (hhead : ∃ t ∈ es.head?, startsExpr t.kind = true) :
    InnerComplete (es ++ [semi]) (expr e span) := by
  intro n s rest _ hrest _
  obtain ⟨t, ht, hfirst⟩ := hhead
  have hexpr (start : Span) : MayTake s (readExpr n start) (es ++ [semi]) (·.erase = (expr e span).erase) := by
    refine Takes.mayTake (exprSemicolon_takes he hsemi (by simpa using hrest) fun e' s' he' => ?_)
    simp only [erase, he']
  have hpeek : s.peek.kind = t.kind := by
    rw [peek_kind hrest, List.append_assoc, next_append ht]
  rw [readInner]
  refine MayRead.peek_bind (MayRead.kind_bind ?_)
  simp only [hpeek]
  cases hk : t.kind <;> first
    | exact hexpr _
    | simp [hk, startsExpr, startsPrimary] at hfirst

/-- A keyword and a condition, and what follows them. -/
theorem condition_bind {word lp rp : Token} {what : String} {f : Expr → Reader Stmt} {P : Stmt → Prop}
    (hword : word.kind ≠ .eof) (hlp : lp.kind = .lparen) (he : Expr.AssignmentComplete es e)
    (hrp : rp.kind = .rparen) (hrest : s.rest = word :: lp :: (es ++ rp :: ts) ++ rest)
    (hf : ∀ e' s', Read s (word :: lp :: (es ++ [rp])) s' → s'.rest = ts ++ rest → e'.erase = e.erase →
      MayTake s' (f e') ts P) :
    MayTake s (do
      let _ ← advance
      let cond ← readCondition n what
      f cond) (word :: lp :: (es ++ rp :: ts)) P := by
  have hrest' : s.advance.rest = lp :: (es ++ rp :: (ts ++ rest)) := by simpa using advance_rest hrest hword
  have htokens : lp :: (es ++ rp :: ts) = lp :: (es ++ [rp]) ++ ts := by simp
  refine MayTake.advance_bind hrest hword ?_
  rw [htokens]
  refine .of_takes_bind (condition_takes hlp he hrp hrest') fun e' s' hr he' => ?_
  have hr' := (read_cons hrest hword).trans hr
  exact hf e' s' hr' (hr'.rest_eq (by simpa using hrest)) he'

theorem branch_complete {word lp rp : Token} {span : Span} (hword : word.kind = .ifWord)
    (hlp : lp.kind = .lparen) (he : Expr.AssignmentComplete es e) (hrp : rp.kind = .rparen)
    (hst : InnerComplete ts st) :
    InnerComplete (word :: lp :: (es ++ rp :: ts)) (branch e st none span) := by
  intro n s rest heof hrest hnext
  have helse : next s rest ≠ .elseWord := hnext rfl
  rw [readInner]
  refine MayRead.peek_bind (MayRead.kind_bind ?_)
  simp only [peek_cons hrest, hword]
  rw [readBranch]
  refine condition_bind (ne_eof hword (by decide)) hlp he hrp hrest fun e' s₁ hr₁ hrest₁ he' => ?_
  have heof₁ : s₁.eof.kind = .eof := hr₁.eof ▸ heof
  rw [← List.append_nil ts]
  refine .bind (read_mayTake hst n heof₁ hrest₁ fun _ => by rwa [hr₁.next_eq])
    (fun st' s₂ hr₂ hst' => ?_) fun st' s₂ hext => ?_
  · refine Takes.mayTake (.not_eat_bind (hr₂.rest_eq hrest₁) ?_ (.get_bind (.pure ?_)))
    · rwa [hr₂.next_eq, hr₁.next_eq]
    · simp only [erase, he', hst']
  · exact grows_branchRest (grows_read n) (hext.eof ▸ heof₁)

theorem branchElse_complete {word lp rp elseWord : Token} {span : Span} (hword : word.kind = .ifWord)
    (hlp : lp.kind = .lparen) (he : Expr.AssignmentComplete es e) (hrp : rp.kind = .rparen)
    (hst : InnerComplete ts st) (hopen : st.isOpen = false) (helse : elseWord.kind = .elseWord)
    (hst' : InnerComplete us st') :
    InnerComplete (word :: lp :: (es ++ rp :: (ts ++ elseWord :: us))) (branch e st (some st') span) := by
  intro n s rest heof hrest hnext
  rw [readInner]
  refine MayRead.peek_bind (MayRead.kind_bind ?_)
  simp only [peek_cons hrest, hword]
  rw [readBranch]
  refine condition_bind (ne_eof hword (by decide)) hlp he hrp hrest fun e' s₁ hr₁ hrest₁ he' => ?_
  have heof₁ : s₁.eof.kind = .eof := hr₁.eof ▸ heof
  rw [List.append_assoc] at hrest₁
  -- the first branch is closed, so the `else` after it is not its own
  refine .bind (read_mayTake hst n heof₁ hrest₁ fun h => by rw [hopen] at h; cases h)
    (fun thenStmt s₂ hr₂ hthen => ?_) fun _ s₂ hext => ?_
  · have hrest₂ : s₂.rest = elseWord :: (us ++ rest) := hr₂.rest_eq hrest₁
    have hr₂ := (hr₁.trans hr₂).trans (read_cons hrest₂ (ne_eof helse (by decide)))
    refine .eat_bind hrest₂ helse (by decide) ?_
    simp only [if_true, bind_map_left]
    rw [← List.append_nil us]
    refine .bind (read_mayTake hst' n (hr₂.eof ▸ heof) (advance_rest hrest₂ (ne_eof helse (by decide))) ?_)
      (fun elseStmt s₃ _ helse => ?_) fun _ s₃ _ => .refl s₃
    · rwa [hr₂.next_eq]
    · exact Takes.mayTake (.get_bind (.pure (by simp only [erase, he', hthen, helse])))
  · exact grows_branchRest (grows_read n) (hext.eof ▸ heof₁)

theorem loop_complete {word lp rp : Token} {span : Span} (hword : word.kind = .whileWord)
    (hlp : lp.kind = .lparen) (he : Expr.AssignmentComplete es e) (hrp : rp.kind = .rparen)
    (hst : InnerComplete ts st) :
    InnerComplete (word :: lp :: (es ++ rp :: ts)) (loop e st span) := by
  intro n s rest heof hrest hnext
  rw [readInner]
  refine MayRead.peek_bind (MayRead.kind_bind ?_)
  simp only [peek_cons hrest, hword]
  refine condition_bind (ne_eof hword (by decide)) hlp he hrp hrest fun e' s₁ hr₁ hrest₁ he' => ?_
  rw [← List.append_nil ts]
  refine .bind (read_mayTake hst n (hr₁.eof ▸ heof) hrest₁ (by rwa [hr₁.next_eq]))
    (fun body s₂ _ hbody => ?_) fun _ s₂ _ => .refl s₂
  exact Takes.mayTake (.get_bind (.pure (by simp only [erase, he', hbody])))

/-- Statements that stand before a closing brace. -/
def RowComplete (ts : List Token) (body : List Stmt) : Prop :=
  ∀ (n most : Nat) (s : State) (rest : List Token), s.eof.kind = .eof → ts.length ≤ most →
    s.rest = ts ++ rest → next s rest = .rbrace →
    TakesRow endsBlock (read n) most s ts (eraseAll · = eraseAll body)

def BlockComplete (ts : List Token) (body : List Stmt) : Prop :=
  ∀ (n : Nat) (s : State) (rest : List Token), s.eof.kind = .eof → s.rest = ts ++ rest →
    MayTake s (readBlock (read n)) ts fun r => eraseAll r.1 = eraseAll body

theorem block_complete {lb rb : Token} (hlb : lb.kind = .lbrace) (h : RowComplete ts body)
    (hrb : rb.kind = .rbrace) : BlockComplete (lb :: (ts ++ [rb])) body := by
  intro n s rest heof hrest
  have hrest₁ : s.advance.rest = ts ++ rb :: rest := by simpa using advance_rest hrest (ne_eof hlb (by decide))
  unfold readBlock
  refine .expect_bind hrest hlb (by decide) ?_
  have hrow := h n s.advance.rest.length s.advance (rb :: rest) (by simpa using heof)
    (by simp only [hrest₁, List.length_append]; omega) hrest₁ hrb
  rw [MayTake, MayRead, ends_bind, ends_modifyGet]
  unfold manyUntil
  unfold TakesRow at hrow
  generalize many endsBlock (read n) s.advance.rest.length s.advance = r at hrow
  rw [ends_bind, ends_at, ends_ite, ends_bind, ends_advance, ends_pure, ends_bind, ends_report,
    ends_bind, ends_peek, ends_pure]
  obtain hn | ⟨hr, hbody⟩ := hrow
  · split
    · exact .inl (hn.trans_extends (advance_extends _))
    · exact .inl (hn.trans_extends (report_extends ..))
  · have hrest₂ := hr.rest_eq hrest₁
    rw [peek_cons hrest₂, if_pos (decide_eq_true hrb)]
    exact .inr ⟨_, hr.trans (read_cons hrest₂ (ne_eof hrb (by decide))), rfl, hbody⟩

theorem blockStmt_complete {span : Span} (hlb : ∃ t ∈ ts.head?, t.kind = .lbrace)
    (h : BlockComplete ts body) : InnerComplete ts (block body span) := by
  intro n s rest heof hrest _
  obtain ⟨t, ht, hk⟩ := hlb
  have hpeek : s.peek.kind = .lbrace := by rw [peek_kind hrest, next_append ht, hk]
  rw [readInner]
  refine MayRead.peek_bind (MayRead.kind_bind ?_)
  simp only [hpeek]
  rw [← List.append_nil ts]
  refine MayTake.bind (h n s rest heof hrest) (fun r s' _ hr => ?_) fun r s' _ => .refl s'
  exact .pure (by simp only [erase, hr])

theorem next_ne_else (hfirst : ∀ a ∈ us.head?, startsItem a.kind = true)
    (hnext : next s rest ≠ .elseWord) : next s (us ++ rest) ≠ .elseWord := by
  cases us with
  | nil => exact hnext
  | cons a us =>
    have ha := hfirst a rfl
    intro hk
    rw [show a.kind = .elseWord from hk] at ha
    exact nomatch ha

theorem row_nil : RowComplete [] [] :=
  fun _ _ _ _ _ _ hrest hnext => takesRow_nil hrest (by rw [List.nil_append, hnext]; rfl) rfl

theorem row_cons (h : InnerComplete ts st) (hhead : ∃ a ∈ ts.head?, startsItem a.kind = true)
    (hrow : RowComplete us body) (hfirst : ∀ a ∈ us.head?, startsItem a.kind = true) :
    RowComplete (ts ++ us) (st :: body) := by
  intro n most s rest heof hmost hrest hnext
  obtain ⟨a, ha, hstart⟩ := hhead
  rw [List.append_assoc] at hrest
  have hclosed : next s (us ++ rest) ≠ .elseWord := next_ne_else hfirst (by rw [hnext]; decide)
  have hlen := List.length_pos_of_mem (List.mem_of_mem_head? ha)
  rw [List.length_append] at hmost
  obtain ⟨most, rfl⟩ : ∃ m, most = m + 1 := ⟨most - 1, by omega⟩
  refine takesRow_cons (read_mayTake h n heof hrest fun _ => hclosed) (level_read n s) (grows_read n) heof
    hrest ?_ (fun s' hr _ => ?_) (Q := (eraseAll · = eraseAll body)) fun st' body' hst hbody => ?_
  · rw [next_append ha]
    cases hk : a.kind <;> first | rfl | rw [hk] at hstart; exact nomatch hstart
  · exact hrow n most s' rest (hr.eof ▸ heof) (by omega) (hr.rest_eq hrest) (by rwa [hr.next_eq])
  · simp only [eraseAll, hst, hbody]

/-- A statement or a function at the top. -/
def ItemComplete (ts : List Token) (st : Stmt) : Prop :=
  ∀ (n : Nat) (s : State) (rest : List Token), s.eof.kind = .eof → s.rest = ts ++ rest → s.depth = 0 →
    Closed st (next s rest) → MayTake s (read n) ts (·.erase = st.erase)

theorem InnerComplete.item (h : InnerComplete ts st) : ItemComplete ts st :=
  fun n _ _ heof hrest _ hnext => read_mayTake h n heof hrest hnext

theorem readFunction_mayTake {func name lp rp : Token} {ps bs : List Token} {params : List Param}
    {braces span : Span} (hfunc : func.kind = .funcWord) (hname : name.kind = .ident)
    (hlp : lp.kind = .lparen) (hps : Param.OptComplete ps params) (hrp : rp.kind = .rparen)
    (hbody : BlockComplete bs body) (heof : s.eof.kind = .eof) (hdepth : s.depth = 1)
    (hrest : s.rest = func :: name :: lp :: (ps ++ rp :: (bs ++ rest))) :
    MayTake s (readFunction (read n)) (func :: name :: lp :: (ps ++ rp :: bs))
      (·.erase = (function (nameOf name) params body braces span).erase) := by
  unfold readFunction Ident.read
  simp only [bind_assoc, pure_bind]
  have hrest₁ := advance_rest hrest (ne_eof hfunc (by decide))
  have hrest₂ := advance_rest hrest₁ (ne_eof hname (by decide))
  have hrest₃ := advance_rest hrest₂ (ne_eof hlp (by decide))
  refine .advance_bind hrest (ne_eof hfunc (by decide)) (.expect_bind hrest₁ hname (by decide) ?_)
  refine .expect_bind hrest₂ hlp (by decide) ?_
  refine .of_takes_bind_level (hps _ _ hrest₃ (by rw [next, List.headD_cons, hrp]))
    (level_commaListUntilParen Param.level_read _) fun params' s₄ hr₄ hd₄ hparams => ?_
  have hrest₄ := hr₄.rest_eq hrest₃
  have heof₄ : s₄.advance.eof.kind = .eof := by simpa [hr₄.eof] using heof
  refine .expect_bind hrest₄ hrp (by decide) ?_
  rw [← List.append_nil bs]
  refine .bind_level (hbody n _ rest heof₄ (advance_rest hrest₄ (ne_eof hrp (by decide))))
    (level_readBlock (level_read n) _) (fun r s₅ hr₅ hd₅ hr => ?_) fun r s₅ _ => grows_functionRest
  have hd₅ : ¬ 1 < s₅.depth := by simp [hd₅, hd₄, hdepth]
  refine Takes.mayTake (.get_bind ?_)
  rw [if_neg hd₅]
  refine .pure ?_
  simp only [erase, hparams, hr]
  rfl

theorem function_complete {func name lp rp : Token} {ps bs : List Token} {params : List Param}
    {braces span : Span} (hfunc : func.kind = .funcWord) (hname : name.kind = .ident)
    (hlp : lp.kind = .lparen) (hps : Param.OptComplete ps params) (hrp : rp.kind = .rparen)
    (hbody : BlockComplete bs body) :
    ItemComplete (func :: name :: lp :: (ps ++ rp :: bs)) (function (nameOf name) params body braces span) := by
  intro n s rest heof hrest hdepth _
  have hrest' : s.rest = func :: name :: lp :: (ps ++ rp :: (bs ++ rest)) := by simpa using hrest
  cases n with
  | zero => rw [read]; exact .tooDeep
  | succ n =>
    rw [read]
    refine .nested ?_
    rw [readInner]
    refine MayRead.peek_bind (MayRead.kind_bind ?_)
    simp only [peek_depth, peek_cons hrest, hfunc]
    exact readFunction_mayTake hfunc hname hlp hps hrp hbody heof (congrArg (· + 1) hdepth) hrest'

/-- Items up to the end of input. -/
def ItemsComplete (ts : List Token) (items : List Stmt) : Prop :=
  ∀ (n most : Nat) (s : State), s.eof.kind = .eof → ts.length ≤ most → s.rest = ts → s.depth = 0 →
    TakesRow (· = .eof) (read n) most s ts (eraseAll · = eraseAll items)

theorem items_nil : ItemsComplete [] [] :=
  fun _ _ _ heof _ hrest _ => takesRow_nil hrest (decide_eq_true heof) rfl

theorem items_cons (h : ItemComplete ts st) (hhead : ∃ a ∈ ts.head?, a.kind ≠ .eof)
    (hitems : ItemsComplete us body) (hfirst : ∀ a ∈ us.head?, startsItem a.kind = true) :
    ItemsComplete (ts ++ us) (st :: body) := by
  intro n most s heof hmost hrest hdepth
  obtain ⟨a, ha, hk⟩ := hhead
  have hclosed : next s us ≠ .elseWord := by
    rw [← List.append_nil us]
    refine next_ne_else hfirst ?_
    rw [next, List.headD_nil, heof]
    decide
  have hlen := List.length_pos_of_mem (List.mem_of_mem_head? ha)
  rw [List.length_append] at hmost
  obtain ⟨most, rfl⟩ : ∃ m, most = m + 1 := ⟨most - 1, by omega⟩
  refine takesRow_cons (h n s us heof hrest hdepth fun _ => hclosed) (level_read n s) (grows_read n) heof
    hrest ?_ (fun s' hr hd => ?_) (Q := (eraseAll · = eraseAll body)) fun st' body' hst hbody => ?_
  · rw [next_append ha]
    exact decide_eq_false hk
  · exact hitems n most s' (hr.eof ▸ heof) (by omega) (hr.rest_eq hrest) (hd.trans hdepth)
  · simp only [eraseAll, hst, hbody]

/-- What it means that a kind of phrase is read as the grammar says. -/
def Complete : (x : Nonterminal) → List Token → x.Tree → Prop
  | .items, ts, ss => ItemsComplete ts ss
  | .item, ts, st | .funcDecl, ts, st => ItemComplete ts st
  | .optParams, ts, ps => Param.OptComplete ts ps
  | .params, ts, ps => Param.ListComplete ts ps
  | .param, ts, p => Param.Complete ts p
  | .typeName, ts, type => ∃ t, ts = [t] ∧ TypeName.ofKind? t.kind = some type
  | .stmts, ts, ss => RowComplete ts ss
  | .stmt, ts, st | .varDecl, ts, st | .ifStmt, ts, st | .whileStmt, ts, st | .returnStmt, ts, st
  | .printStmt, ts, st | .exprStmt, ts, st => InnerComplete ts st
  | .block, ts, ss => BlockComplete ts ss
  | _, _, _ => True

theorem complete {x : Nonterminal} {t : x.Tree} (h : Derives false x ts t) (hn : x.Nearest t) :
    Complete x ts t := by
  induction h with
  | noItems => exact items_nil
  | moreItems hs hss ih ih' =>
    exact items_cons (ih hn.1) (hs.head_ne rfl rfl) (ih' hn.2) hss.first
  | itemFunc _ ih => exact ih hn
  | itemStmt _ ih => exact InnerComplete.item (ih hn)
  | funcDecl hfunc hname hlp _ hrp _ ih ih' =>
    exact function_complete hfunc hname hlp (ih trivial) hrp (ih' hn)
  | noParams => exact fun _ _ hrest hnext => .noItems hrest hnext rfl
  | someParams h ih =>
    exact fun s rest hrest hnext => .someItems hrest (h.head_ne rfl rfl) fun more hmore =>
      ih trivial more s rest hmore hrest hnext
  | oneParam _ ih => exact Param.list_one (ih trivial)
  | moreParams _ hcomma _ ih ih' => exact Param.list_more (ih trivial) hcomma (ih' trivial)
  | plainParam hname => exact Param.plain_complete hname
  | typedParam _ hname ih =>
    obtain ⟨t, rfl, htype⟩ := ih trivial
    exact Param.typed_complete htype hname
  | intType h | floatType h | boolType h | stringType h => exact ⟨_, rfl, by rw [h]; rfl⟩
  | noStmts => exact row_nil
  | moreStmts hs hss ih ih' =>
    exact row_cons (ih hn.1) (hs.exists_first rfl) (ih' hn.2) hss.first
  | stmtVarDecl _ ih | stmtIf _ ih | stmtWhile _ ih | stmtReturn _ ih | stmtPrint _ ih
  | stmtExpr _ ih => exact ih hn
  | stmtBlock h ih =>
    refine blockStmt_complete ?_ (ih hn)
    cases h with
    | block hlb => exact ⟨_, rfl, hlb⟩
  | stmtBreak hword hsemi => exact break_complete hword hsemi
  | stmtContinue hword hsemi => exact continue_complete hword hsemi
  | letPlain hword hname hsemi =>
    exact let_complete hword fun _ _ _ _ hrest => varDecl_plain hname hsemi hrest
  | letInit hword hname hequal he hsemi =>
    exact let_complete hword fun _ _ _ _ hrest =>
      varDecl_init hname hequal (Expr.complete he) hsemi (by simpa using hrest)
  | typedPlain _ hname hsemi ih =>
    obtain ⟨t, rfl, htype⟩ := ih trivial
    exact typed_complete htype fun _ _ _ _ hrest => varDecl_plain hname hsemi hrest
  | typedInit _ hname hequal he hsemi ih =>
    obtain ⟨t, rfl, htype⟩ := ih trivial
    exact typed_complete htype fun _ _ _ _ hrest =>
      varDecl_init hname hequal (Expr.complete he) hsemi (by simpa using hrest)
  | ifThen hword hlp he hrp _ _ ih => exact branch_complete hword hlp (Expr.complete he) hrp (ih hn)
  | ifThenElse hword hlp he hrp _ helse _ _ ih ih' =>
    exact branchElse_complete hword hlp (Expr.complete he) hrp (ih hn.2.1) hn.1 helse (ih' hn.2.2)
  | whileDo hword hlp he hrp _ _ ih => exact loop_complete hword hlp (Expr.complete he) hrp (ih hn)
  | block hlb _ hrb ih => exact block_complete hlb (ih hn) hrb
  | returnNone hword hsemi => exact return_none hword hsemi
  | returnSome hword he hsemi =>
    exact return_some hword (Expr.complete he) (he.head_ne rfl rfl) hsemi
  | print hword hlp he hrp hsemi => exact print_complete hword hlp (Expr.complete he) hrp hsemi
  | exprStmt he hsemi => exact expr_complete (Expr.complete he) hsemi (he.exists_first rfl)
  | _ => trivial

end Stmt
end Scriptlet
