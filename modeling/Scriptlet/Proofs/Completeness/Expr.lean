import Scriptlet.Proofs.Grammar
import Scriptlet.Proofs.Takes
import Scriptlet.Proofs.TokenProgress
import Scriptlet.Tree.OfTokens

/-!
# Expressions of the grammar are read

Every expression of the written grammar is read, with its own tree, if nothing that follows could go on
with it. A chain of operators or calls is read from the left while its derivation is built up from the
left, so a phrase is said to be read if whatever the reader of the rest reads next is read after it
(`Climbs`, `CallComplete`); the left operand can then be taken out of the chain.
-/

namespace Scriptlet

open Grammar

namespace Grammar.Rung

def level : Rung → Nat
  | logicOr => 1
  | logicAnd => 2
  | equality => 3
  | relational => 4
  | additive => 5
  | mult => 6

theorem level_of_mem {r : Rung} {k : Token.Kind} {op : BinaryOp} (h : (k, op) ∈ r.operators) :
    op.level = r.level := by
  cases r <;> simp [operators] at h <;> grind [BinaryOp.level, level]

end Grammar.Rung

namespace Expr

open Reader

/-- The kinds of token that do not go on with an expression. -/
def Ended (k : Token.Kind) : Prop :=
  BinaryOp.ofKind? k = none ∧ k ≠ .lparen ∧ k ≠ .equal

/-- The kinds of token that do not go on with operands of the level `level`. -/
def EndedAt (level : Nat) (k : Token.Kind) : Prop :=
  (∀ op, BinaryOp.ofKind? k = some op → op.level ≤ level) ∧ k ≠ .lparen

variable {n : Nat} {s : State} {ts us rest : List Token} {e lhs rhs : Expr}

/-- An expression with operators of the level `level` and tighter ones: whatever is read after it with
the operators that follow is read after it. -/
def Climbs (level : Nat) (ts : List Token) (e : Expr) : Prop :=
  ∀ (n least : Nat) (s : State) (rest us : List Token) (P : Expr → Prop), least ≤ level →
    s.rest = ts ++ rest → EndedAt level (next s rest) →
    (∀ m e' s', Read s ts s' → e'.erase = e.erase → Takes s' (readBinaryRest m least e') us P) →
    Takes s (readBinary n least) (ts ++ us) P

def UnaryComplete (ts : List Token) (e : Expr) : Prop :=
  ∀ (n : Nat) (s : State) (rest : List Token), s.rest = ts ++ rest → next s rest ≠ .lparen →
    Takes s (readUnary n) ts (·.erase = e.erase)

def CallComplete (ts : List Token) (e : Expr) : Prop :=
  ∀ (n : Nat) (s : State) (rest us : List Token) (P : Expr → Prop), s.rest = ts ++ rest →
    (∀ m e' s', Read s ts s' → e'.erase = e.erase → Takes s' (readCallRest m e') us P) →
    Takes s (readCall n) (ts ++ us) P

def PrimaryComplete (ts : List Token) (e : Expr) : Prop :=
  ∀ (n : Nat) (s : State) (rest : List Token), s.rest = ts ++ rest →
    Takes s (readPrimary n) ts (·.erase = e.erase)

def AssignmentComplete (ts : List Token) (e : Expr) : Prop :=
  ∀ (n : Nat) (s : State) (rest : List Token), s.rest = ts ++ rest → Ended (next s rest) →
    Takes s (readAssignment n) ts (·.erase = e.erase)

def ArgsComplete (ts : List Token) (es : List Expr) : Prop :=
  ∀ (n more : Nat) (s : State) (rest : List Token), ts.length ≤ more → s.rest = ts ++ rest →
    next s rest = .rparen → Takes s (commaList (read n) more) ts (eraseAll · = eraseAll es)

def OptArgsComplete (ts : List Token) (es : List Expr) : Prop :=
  ∀ (n : Nat) (s : State) (rest : List Token), s.rest = ts ++ rest → next s rest = .rparen →
    Takes s (commaListUntilParen (read n)) ts (eraseAll · = eraseAll es)

theorem read_takes (h : AssignmentComplete ts e) (n : Nat) (hrest : s.rest = ts ++ rest)
    (hnext : Ended (next s rest)) : Takes s (read n) ts (·.erase = e.erase) := by
  cases n with
  | zero => rw [read]; exact .tooDeep
  | succ n => rw [read]; exact .nested (h n _ rest hrest hnext)

theorem climbs_of_unary {level : Nat} (h : UnaryComplete ts e) : Climbs level ts e := by
  intro n least s rest us P _ hrest hnext hcont
  rw [readBinary]
  exact (h n s rest hrest hnext.2).bind fun e' s' hr he => hcont n e' s' hr he

theorem Climbs.looser {level : Nat} (h : Climbs (level + 1) ts e) : Climbs level ts e := by
  intro n least s rest us P hleast hrest hnext hcont
  refine h n least s rest us P (Nat.le_succ_of_le hleast) hrest ⟨fun op hop => ?_, hnext.2⟩ hcont
  exact Nat.le_succ_of_le (hnext.1 op hop)

theorem readBinaryRest_stop {least : Nat} {P : Expr → Prop} (hrest : s.rest = rest)
    (hstop : ∀ op, BinaryOp.ofKind? (next s rest) = some op → op.level < least) (he : P e) :
    Takes s (readBinaryRest n least e) [] P := by
  rw [readBinaryRest]
  refine .kind_bind hrest ?_
  split
  · exact .pure he
  · next op hop =>
    rw [if_pos (hstop op hop)]
    exact .pure he

theorem Climbs.operator {op : BinaryOp} {level : Nat} {t : Token} {span : Span}
    (hl : Climbs level ts lhs) (hop : BinaryOp.ofKind? t.kind = some op) (hlevel : op.level = level)
    (hr : Climbs (level + 1) us rhs) : Climbs level (ts ++ t :: us) (.binary op lhs rhs span) := by
  subst hlevel
  intro n least s rest vs P hleast hrest hnext hcont
  rw [List.append_assoc] at hrest ⊢
  have ht : EndedAt op.level t.kind := by
    refine ⟨fun op' hop' => ?_, fun hk => ?_⟩
    · rw [hop] at hop'; cases hop'; exact Nat.le_refl _
    · rw [hk] at hop; exact nomatch hop
  refine hl n least s _ (t :: us ++ vs) P hleast hrest ht fun m lhs' s₁ hr₁ hlhs => ?_
  have hrest₁ := hr₁.rest_eq hrest
  rw [readBinaryRest]
  refine .kind_bind hrest₁ ?_
  simp only [next, List.cons_append, List.headD_cons, hop]
  rw [if_neg (Nat.not_lt.2 hleast)]
  have ht' := BinaryOp.kind_ne_eof hop
  refine .advance_bind hrest₁ ht' (.deepen_bind ?_)
  cases m with
  | zero => exact .tooDeep
  | succ m =>
    have hrest₂ : s₁.advance.rest = us ++ rest := advance_rest hrest₁ ht'
    have hnext₂ : next s₁.advance rest = next s rest := by rw [next, next, advance_eof, hr₁.eof]
    -- the right operand ends where the whole ends
    have hright : Takes { s₁.advance with depth := s₁.advance.depth + 1 }
        (readBinary m (op.level + 1)) us (·.erase = rhs.erase) := by
      rw [← List.append_nil us]
      refine hr m _ _ rest [] _ (Nat.le_refl _) hrest₂ ?_ fun m' rhs' s₂ hr₂ hrhs => ?_
      · exact ⟨fun op' h => Nat.le_succ_of_le (hnext.1 op' (hnext₂ ▸ h)), by rw [← hnext₂] at hnext; exact hnext.2⟩
      · refine readBinaryRest_stop (hr₂.rest_eq hrest₂) (fun op' h => ?_) hrhs
        rw [hr₂.next_eq] at h
        exact Nat.lt_succ_of_le (hnext.1 op' (hnext₂ ▸ h))
    refine hright.bind fun rhs' s₂ hr₂ hrhs => hcont m _ s₂ ?_ ?_
    · exact hr₁.trans ((read_cons hrest₁ ht').trans hr₂.of_depth)
    · simp only [Expr.erase, hlhs, hrhs]

theorem ident_complete {name : Token} (h : name.kind = .ident) :
    PrimaryComplete [name] (.ident (nameOf name)) := by
  intro n s rest hrest
  rw [readPrimary]
  refine .peek_bind hrest ?_
  simp only [Literal.ofToken?, h]
  exact .advance_bind hrest (ne_eof h (by decide)) (.pure rfl)

theorem literal_complete {t : Token} {value : Literal} {span : Span} (h : Literal.ofToken? t = some value) :
    PrimaryComplete [t] (.literal value span) := by
  intro n s rest hrest
  rw [readPrimary]
  refine .peek_bind hrest ?_
  simp only [h]
  exact .advance_bind hrest (Literal.kind_ne_eof h) (.pure rfl)

theorem ended_rparen : Ended .rparen := ⟨rfl, by decide, by decide⟩

theorem paren_complete {lp rp : Token} (hlp : lp.kind = .lparen) (h : AssignmentComplete ts e)
    (hrp : rp.kind = .rparen) : PrimaryComplete (lp :: (ts ++ [rp])) e := by
  intro n s rest hrest
  have hrest' : s.advance.rest = ts ++ rp :: rest := by simpa using advance_rest hrest (ne_eof hlp (by decide))
  rw [readPrimary]
  refine .peek_bind hrest ?_
  simp only [Literal.ofToken?, hlp, reduceCtorEq, if_false, if_true]
  refine .advance_bind hrest (ne_eof hlp (by decide)) ((read_takes h n hrest' ?_).bind fun e' s' hr he => ?_)
  · rw [next, List.headD_cons, hrp]; exact ended_rparen
  · exact .expect_bind (hr.rest_eq hrest') hrp (by decide) (.pure he)

theorem PrimaryComplete.call (h : PrimaryComplete ts e) : CallComplete ts e := by
  intro n s rest us P hrest hcont
  rw [readCall]
  exact (h n s rest hrest).bind fun e' s' hr he => hcont n e' s' hr he

theorem CallComplete.call {lp rp : Token} {args : List Expr} {span : Span} (h : CallComplete ts e)
    (hlp : lp.kind = .lparen) (hargs : OptArgsComplete us args) (hrp : rp.kind = .rparen) :
    CallComplete (ts ++ lp :: (us ++ [rp])) (.call e args span) := by
  intro n s rest vs P hrest hcont
  have hrest' : s.rest = ts ++ lp :: (us ++ rp :: rest) := by simpa using hrest
  have htokens : ts ++ lp :: (us ++ [rp]) ++ vs = ts ++ lp :: (us ++ rp :: vs) := by simp
  rw [htokens]
  refine h n s _ _ P hrest' fun m callee s₁ hr₁ hcallee => ?_
  have hrest₁ := hr₁.rest_eq hrest'
  rw [readCallRest]
  refine .at_bind hrest₁ ?_
  rw [next, List.headD_cons, hlp, if_pos (decide_eq_true rfl)]
  refine .deepen_bind (.advance_bind hrest₁ (ne_eof hlp (by decide)) ?_)
  generalize hs : ({ s₁ with depth := s₁.depth + 1 } : State) = s₁'
  have hr₁' : Read s (ts ++ [lp]) s₁'.advance := by
    subst hs
    exact hr₁.trans (Read.of_depth (d := s₁.depth + 1) (read_cons hrest₁ (ne_eof hlp (by decide))))
  cases m with
  | zero => exact .tooDeep
  | succ m =>
    have hrest₂ : s₁'.advance.rest = us ++ rp :: rest := hr₁'.rest_eq (by simpa using hrest')
    refine (hargs m _ _ hrest₂ (by rw [next, List.headD_cons, hrp])).bind fun args' s₂ hr₂ hargs => ?_
    have hrest₃ := hr₂.rest_eq hrest₂
    refine .expect_bind hrest₃ hrp (by decide) (hcont m _ _ ?_ ?_)
    · simpa using (hr₁'.trans hr₂).trans (read_cons hrest₃ (ne_eof hrp (by decide)))
    · simp only [Expr.erase, hcallee, hargs]

theorem CallComplete.unary (h : CallComplete ts e)
    (hfirst : ∀ a ∈ ts.head?, startsPrimary a.kind = true) (hne : ts ≠ []) : UnaryComplete ts e := by
  intro n s rest hrest hnext
  obtain ⟨t, ts, rfl⟩ := List.exists_cons_of_ne_nil hne
  have hop : UnaryOp.ofKind? t.kind = none := by
    have := hfirst t rfl
    cases hk : t.kind <;> rw [hk] at this <;> first | rfl | exact nomatch this
  rw [readUnary.eq_def]
  refine .kind_bind hrest ?_
  simp only [next, List.cons_append, List.headD_cons, hop]
  rw [← List.append_nil (t :: ts)]
  refine h n s rest [] _ hrest fun m e' s' hr he => ?_
  rw [readCallRest]
  refine .at_bind (hr.rest_eq hrest) ?_
  rw [hr.next_eq, decide_eq_false hnext]
  exact .pure he

theorem UnaryComplete.unary {t : Token} {op : UnaryOp} {span : Span} (h : UnaryComplete ts e)
    (hop : UnaryOp.ofKind? t.kind = some op) : UnaryComplete (t :: ts) (.unary op e span) := by
  intro n s rest hrest hnext
  rw [readUnary.eq_def]
  refine .kind_bind hrest ?_
  simp only [next, List.cons_append, List.headD_cons, hop]
  have ht := UnaryOp.kind_ne_eof hop
  refine .advance_bind hrest ht ?_
  rw [← List.append_nil ts]
  refine .bind (P := (·.erase = e.erase)) (.nested ?_) fun e' s' _ he => .pure ?_
  · cases n with
    | zero => exact .tooDeep
    | succ n => exact h n _ rest (advance_rest hrest ht) (by rwa [next_depth, (read_cons hrest ht).next_eq])
  · simp only [Expr.erase, he]

/-- An expression up to a token that is no operator. -/
theorem Climbs.binary (h : Climbs 1 ts e) (hrest : s.rest = ts ++ rest)
    (hop : BinaryOp.ofKind? (next s rest) = none) (hlp : next s rest ≠ .lparen) :
    Takes s (readBinary n 1) ts (·.erase = e.erase) := by
  rw [← List.append_nil ts]
  refine h n 1 s rest [] _ (Nat.le_refl 1) hrest ⟨by simp [hop], hlp⟩
    fun m e' s' hr he => ?_
  exact readBinaryRest_stop (hr.rest_eq hrest) (by simp [hr.next_eq, hop]) he

theorem Climbs.assignment (h : Climbs 1 ts e) : AssignmentComplete ts e := by
  intro n s rest hrest hnext
  rw [readAssignment, ← List.append_nil ts]
  refine (h.binary hrest hnext.1 hnext.2.1).bind fun e' s' hr he => .at_bind (hr.rest_eq hrest) ?_
  rw [hr.next_eq, decide_eq_false hnext.2.2]
  exact .pure he

theorem assign_complete {name equal : Token} {span : Span} (hname : name.kind = .ident)
    (hequal : equal.kind = .equal) (h : AssignmentComplete us e) :
    AssignmentComplete (name :: equal :: us) (.assign (nameOf name) e span) := by
  intro n s rest hrest hnext
  rw [List.cons_append, List.cons_append] at hrest
  have hequal' : next s (equal :: (us ++ rest)) = .equal := hequal
  have htarget : Climbs 1 [name] (.ident (nameOf name)) :=
    climbs_of_unary ((ident_complete hname).call.unary (by simp [hname, startsPrimary]) (List.cons_ne_nil _ _))
  have htokens : name :: equal :: us = [name] ++ equal :: us := rfl
  rw [readAssignment, htokens]
  refine .bind (htarget.binary hrest ?_ ?_) fun target s₁ hr₁ ht => ?_
  · rw [hequal']; rfl
  · rw [hequal']; decide
  have hrest₁ : s₁.rest = equal :: (us ++ rest) := hr₁.rest_eq hrest
  refine .at_bind hrest₁ ?_
  rw [hr₁.next_eq, hequal', if_pos (decide_eq_true rfl)]
  refine .advance_bind hrest₁ (ne_eof hequal (by decide)) ?_
  rw [← List.append_nil us]
  refine (read_takes h n (advance_rest hrest₁ (ne_eof hequal (by decide))) ?_).bind fun e' s₂ _ he => ?_
  · rwa [(read_cons hrest₁ (ne_eof hequal (by decide))).next_eq, hr₁.next_eq]
  · cases target with
    | ident name' =>
      refine .pure ?_
      simp only [Expr.erase, Expr.ident.injEq] at ht ⊢
      rw [ht, he]
    | _ => simp only [Expr.erase, reduceCtorEq] at ht

theorem args_one (h : AssignmentComplete ts e) : ArgsComplete ts [e] := by
  intro n more s rest _ hrest hnext
  refine .commaList_one (read_takes h n hrest ?_) hrest ?_ fun e' he => ?_
  · rw [hnext]; exact ended_rparen
  · rw [hnext]; decide
  · simp only [Expr.eraseAll, he]

theorem args_more {comma : Token} {es : List Expr} (h : AssignmentComplete ts e)
    (hcomma : comma.kind = .comma) (hes : ArgsComplete us es) :
    ArgsComplete (ts ++ comma :: us) (e :: es) := by
  intro n more s rest hmore hrest hnext
  rw [List.append_assoc] at hrest
  cases more with
  | zero => simp at hmore
  | succ more =>
    refine .commaList_more (read_takes h n hrest ?_) hrest hcomma (fun s' hr => ?_)
      (Q := (eraseAll · = eraseAll es)) fun e' es' he hes => ?_
    · rw [next, List.cons_append, List.headD_cons, hcomma]
      exact ⟨rfl, by decide, by decide⟩
    · refine hes n more s' rest ?_ (hr.rest_eq (by simpa using hrest)) (by rwa [hr.next_eq])
      simp only [List.length_append, List.length_cons] at hmore
      omega
    · simp only [Expr.eraseAll, he, hes]

theorem optArgs_none : OptArgsComplete [] [] :=
  fun _ _ _ hrest hnext => .noItems hrest hnext rfl

theorem optArgs_some {es : List Expr} (h : ArgsComplete ts es) (hhead : ∃ t ∈ ts.head?, t.kind ≠ .rparen) :
    OptArgsComplete ts es :=
  fun n s rest hrest hnext => .someItems hrest hhead fun more hmore => h n more s rest hmore hrest hnext

/-- What it means that a kind of expression is read as the grammar says. -/
def Complete : (x : Nonterminal) → List Token → x.Tree → Prop
  | .expr .assignment, ts, e => AssignmentComplete ts e
  | .expr (.rung r), ts, e => Climbs r.level ts e
  | .expr .unary, ts, e => UnaryComplete ts e
  | .expr .call, ts, e => CallComplete ts e
  | .expr .primary, ts, e => PrimaryComplete ts e
  | .optArgs, ts, es => OptArgsComplete ts es
  | .args, ts, es => ArgsComplete ts es
  | _, _, _ => True

theorem climbs_operand {r : Rung} (h : Complete (.expr r.operand) ts e) : Climbs (r.level + 1) ts e := by
  cases r
  case mult => exact climbs_of_unary h
  all_goals exact h

theorem complete {x : Nonterminal} {t : x.Tree} (h : Derives false x ts t) : Complete x ts t := by
  induction h with
  | assign htarget hequal _ ih =>
    cases htarget with
    | bare hname => exact assign_complete hname hequal ih
    | paren hwide => exact nomatch hwide
  | noAssign _ ih => exact Climbs.assignment ih
  | operand _ ih => exact (climbs_operand ih).looser
  | operator _ hop _ ih ih' =>
    exact Climbs.operator ih (Rung.ofKind_of_mem hop) (Rung.level_of_mem hop) (climbs_operand ih')
  | not ht _ ih => exact UnaryComplete.unary ih (by rw [ht]; rfl)
  | neg ht _ ih => exact UnaryComplete.unary ih (by rw [ht]; rfl)
  | noUnary h ih => exact CallComplete.unary ih h.first (h.ne_nil rfl)
  | noCall _ ih => exact PrimaryComplete.call ih
  | call _ hlp _ hrp ih ih' => exact CallComplete.call ih hlp ih' hrp
  | noArgs => exact optArgs_none
  | someArgs h ih => exact optArgs_some ih (h.head_ne rfl rfl)
  | oneArg _ ih => exact args_one ih
  | moreArgs _ hcomma _ ih ih' => exact args_more ih hcomma ih'
  | number h | fnumber h | str h | trueWord h | falseWord h | nilWord h =>
    exact literal_complete (by rw [Literal.ofToken?, h])
  | ident h => exact ident_complete h
  | paren hlp _ hrp ih => exact paren_complete hlp ih hrp
  | _ => trivial

end Expr
end Scriptlet
