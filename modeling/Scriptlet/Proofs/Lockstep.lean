import Scriptlet.Proofs.ReaderSteps
import Scriptlet.Proofs.Shape
import Scriptlet.Tree.OfTokens

/-!
# Reading does not depend on places

Two rows of tokens that differ only in where the tokens stand are read in the same way: the readers go
through both in lockstep, succeed or give up together, report the same codes, and build trees of the
same shape (`Program.ofTokens_alike`). `Lockstep view p q` says this of two readers, and compares their
results through `view`, which forgets spans.
-/

namespace Scriptlet

/-- A token without its place. -/
def Token.face (t : Token) : Token.Kind × String := (t.kind, t.lexeme)

theorem Token.kind_eq {t u : Token} (h : t.face = u.face) : t.kind = u.kind := congrArg Prod.fst h

theorem Token.lexeme_eq {t u : Token} (h : t.face = u.face) : t.lexeme = u.lexeme := congrArg Prod.snd h

namespace Reader

/-- The states differ in places only. -/
structure State.Alike (s t : State) : Prop where
  rest : s.rest.map Token.face = t.rest.map Token.face
  eof : s.eof.face = t.eof.face
  depth : s.depth = t.depth
  codes : s.diagnostics.toList.map (·.code) = t.diagnostics.toList.map (·.code)

namespace State.Alike

variable {s t : State}

theorem length_eq (h : s.Alike t) : s.rest.length = t.rest.length := by
  simpa using congrArg List.length h.rest

theorem peek (h : s.Alike t) : s.peek.face = t.peek.face := by
  have hrest := h.rest
  unfold State.peek
  cases hs : s.rest <;> cases ht : t.rest <;> rw [hs, ht] at hrest
  · exact h.eof
  · cases hrest
  · cases hrest
  · exact (List.cons.inj hrest).1

theorem advance (h : s.Alike t) : s.advance.Alike t.advance := by
  have hrest := h.rest
  unfold State.advance
  cases hs : s.rest <;> cases ht : t.rest <;> rw [hs, ht] at hrest
  · exact h
  · cases hrest
  · cases hrest
  · obtain ⟨hface, htail⟩ := List.cons.inj hrest
    dsimp only
    rw [Token.kind_eq hface]
    split
    · exact h
    · exact ⟨htail, h.eof, h.depth, h.codes⟩

theorem report (h : s.Alike t) {f g : Fault} (hcode : f.code = g.code) (a b : Span) :
    (s.report f a).Alike (t.report g b) := by
  refine ⟨h.rest, h.eof, h.depth, ?_⟩
  simpa [State.report, Fault.diagnostic, hcode] using h.codes

theorem set_depth (h : s.Alike t) (d : Nat) : ({ s with depth := d } : State).Alike { t with depth := d } :=
  ⟨h.rest, h.eof, rfl, h.codes⟩

theorem skipTo {ts us : List Token} (h : ts.map Token.face = us.map Token.face) (a b : Nat) :
    (State.skipTo a ts).1.map Token.face = (State.skipTo b us).1.map Token.face := by
  induction ts generalizing us a b with
  | nil =>
    obtain rfl := List.map_eq_nil_iff.1 h.symm
    rfl
  | cons t ts ih =>
    cases us with
    | nil => cases h
    | cons u us =>
      obtain ⟨hface, htail⟩ := List.cons.inj h
      simp only [State.skipTo, Token.kind_eq hface]
      split
      · exact h
      · split
        · exact htail
        · exact ih htail _ _

theorem synchronize (h : s.Alike t) : s.synchronize.Alike t.synchronize :=
  ⟨skipTo h.rest _ _, h.eof, h.depth, h.codes⟩

end State.Alike

variable {α β γ δ : Type} {view : α → γ} {view' : β → δ} {p q : Reader α}

/-- Run from states that differ in places only, both readers succeed, with results that look the same
through `view`, or both give up; and the states afterwards again differ in places only. -/
def Lockstep (view : α → γ) (p q : Reader α) : Prop :=
  ∀ s t : State, s.Alike t → match p s, q t with
    | .ok a s', .ok b t' => view a = view b ∧ s'.Alike t'
    | .error _ s', .error _ t' => s'.Alike t'
    | _, _ => False

namespace Lockstep

theorem pure {a b : α} (h : view a = view b) : Lockstep view (pure a) (pure b) :=
  fun _ _ hst => ⟨h, hst⟩

theorem bind {f g : α → Reader β} (hp : Lockstep view p q)
    (hf : ∀ a b, view a = view b → Lockstep view' (f a) (g b)) : Lockstep view' (p >>= f) (q >>= g) := by
  intro s t hst
  have hpq := hp s t hst
  simp only [Bind.bind, EStateM.bind]
  cases hps : p s <;> cases hqt : q t <;> rw [hps, hqt] at hpq
  · exact hf _ _ hpq.1 _ _ hpq.2
  · exact hpq.elim
  · exact hpq.elim
  · exact hpq

/-- The result that `p` reads, as one that need not be there. -/
theorem someOf (hp : Lockstep view p q) : Lockstep (Option.map view) (some <$> p) (some <$> q) := by
  rw [← bind_pure_comp, ← bind_pure_comp]
  exact hp.bind fun a b hab => .pure (congrArg some hab)

theorem get_bind {f g : State → Reader β} (h : ∀ s t : State, s.Alike t → Lockstep view' (f s) (g t)) :
    Lockstep view' (get >>= f) (get >>= g) :=
  fun s t hst => h s t hst s t hst

theorem modifyGet {f g : State → α × State}
    (h : ∀ s t : State, s.Alike t → view (f s).1 = view (g t).1 ∧ (f s).2.Alike (g t).2) :
    Lockstep view (modifyGet f) (modifyGet g) :=
  h

theorem peek : Lockstep Token.face peek peek := fun _ _ hst => ⟨hst.peek, hst⟩

theorem kind : Lockstep id kind kind := fun _ _ hst => ⟨Token.kind_eq hst.peek, hst⟩

theorem at_ (k : Token.Kind) : Lockstep id (at? k) (at? k) :=
  fun _ _ hst => ⟨congrArg (fun kind => decide (kind = k)) (Token.kind_eq hst.peek), hst⟩

theorem advance : Lockstep Token.face advance advance := fun _ _ hst => ⟨hst.peek, hst.advance⟩

theorem kind_bind {f g : Token.Kind → Reader β} (h : ∀ k, Lockstep view' (f k) (g k)) :
    Lockstep view' (Reader.kind >>= f) (Reader.kind >>= g) := by
  refine kind.bind fun k k' hk => ?_
  cases hk
  exact h k

/-- Both readers ask whether the next token is of kind `k` and get the same answer. -/
theorem at_bind {k : Token.Kind} {f g : Bool → Reader β} (h : ∀ yes, Lockstep view' (f yes) (g yes)) :
    Lockstep view' (at? k >>= f) (at? k >>= g) := by
  refine (at_ k).bind fun yes yes' hyes => ?_
  cases hyes
  exact h yes

theorem ite {c : Prop} [Decidable c] {p' q' : Reader α} (h : Lockstep view p p') (h' : Lockstep view q q') :
    Lockstep view (if c then p else q) (if c then p' else q') := by
  split
  · exact h
  · exact h'

theorem eat_bind {k : Token.Kind} {f g : Bool → Reader β} (h : ∀ yes, Lockstep view' (f yes) (g yes)) :
    Lockstep view' (eat k >>= f) (eat k >>= g) := by
  have heat : Lockstep id (eat k) (eat k) :=
    at_bind fun _ => ite (advance.bind fun _ _ _ => .pure rfl) (.pure rfl)
  refine heat.bind fun yes yes' hyes => ?_
  cases hyes
  exact h yes

theorem report {f g : Fault} (hcode : f.code = g.code) (a b : Span) :
    Lockstep id (report f a) (report g b) :=
  fun _ _ hst => ⟨rfl, hst.report hcode a b⟩

theorem giveUp {f g : Fault} (hcode : f.code = g.code) (a b : Span) :
    Lockstep view (giveUp f a) (giveUp g b) :=
  fun _ _ hst => hst.report hcode a b

theorem giveUpHere {f g : Token → Fault} (hcode : ∀ t u, (f t).code = (g u).code) :
    Lockstep view (giveUpHere f) (giveUpHere g) :=
  fun _ _ hst => hst.report (hcode _ _) _ _

theorem expect (k : Token.Kind) {f g : Token → Fault} (hcode : ∀ t u, (f t).code = (g u).code) :
    Lockstep Token.face (expect k f) (expect k g) :=
  at_bind fun _ => ite advance (giveUpHere hcode)

theorem expectSemicolon (context : String) :
    Lockstep Token.face (expectSemicolon context) (expectSemicolon context) :=
  expect _ fun _ _ => rfl

theorem expectClosing (t u : Token) : Lockstep Token.face (expectClosing t) (expectClosing u) :=
  expect _ fun _ _ => rfl

theorem tooDeep : Lockstep view tooDeep tooDeep := giveUpHere fun _ _ => rfl

theorem deepen : Lockstep id deepen deepen := by
  refine get_bind fun s t hst => ?_
  rw [hst.depth]
  exact ite tooDeep fun s t hst => ⟨rfl, hst.rest, hst.eof, congrArg (· + 1) hst.depth, hst.codes⟩

theorem returningTo (d : Nat) (h : Lockstep view p q) : Lockstep view (returningTo d p) (returningTo d q) := by
  intro s t hst
  have hpq := h s t hst
  unfold Reader.returningTo
  cases hps : p s <;> cases hqt : q t <;> rw [hps, hqt] at hpq
  · exact ⟨hpq.1, hpq.2.set_depth d⟩
  · exact hpq
  · exact hpq
  · exact hpq.set_depth d

theorem nested (h : Lockstep view p q) : Lockstep view (nested p) (nested q) := by
  refine get_bind fun s t hst => deepen.bind fun _ _ _ => ?_
  rw [hst.depth]
  exact h.returningTo _

theorem commaList (h : Lockstep view p q) (more : Nat) :
    Lockstep (List.map view) (commaList p more) (commaList q more) := by
  induction more with
  | zero => exact h.bind fun a b hab => .pure (by simp [hab])
  | succ more ih =>
    refine h.bind fun a b hab => eat_bind fun _ => ite ?_ (.pure (by simp [hab]))
    exact ih.bind fun as bs habs => .pure (by simp [hab, habs])

theorem commaListUntilParen (h : Lockstep view p q) :
    Lockstep (List.map view) (commaListUntilParen p) (commaListUntilParen q) := by
  refine at_bind fun _ => ite (.pure rfl) (get_bind fun s t hst => ?_)
  rw [hst.length_eq]
  exact h.commaList _

theorem recovering (h : Lockstep view p q) {s t : State} (hst : s.Alike t) :
    (recovering p s).1.map view = (recovering q t).1.map view ∧
      (recovering p s).2.Alike (recovering q t).2 := by
  have hpq := h s t hst
  unfold Reader.recovering
  cases hps : p s <;> cases hqt : q t <;> rw [hps, hqt] at hpq
  · exact ⟨congrArg some hpq.1, hpq.2⟩
  · exact hpq.elim
  · exact hpq.elim
  · have hafter := State.Alike.synchronize hpq
    dsimp only
    rw [hafter.length_eq, hst.length_eq]
    split
    · exact ⟨rfl, hafter.advance⟩
    · exact ⟨rfl, hafter⟩

theorem many (stop : Token.Kind → Bool) (h : Lockstep view p q) (most : Nat) {s t : State} (hst : s.Alike t) :
    (many stop p most s).1.map view = (many stop q most t).1.map view ∧
      (many stop p most s).2.Alike (many stop q most t).2 := by
  induction most generalizing s t with
  | zero => exact ⟨rfl, hst⟩
  | succ most ih =>
    unfold Reader.many
    rw [Token.kind_eq hst.peek]
    split
    · exact ⟨rfl, hst⟩
    · obtain ⟨hfound, hafter⟩ := h.recovering hst
      obtain ⟨hothers, hend⟩ := ih hafter
      refine ⟨?_, hend⟩
      have htoList (found : Option α) : found.toList.map view = (found.map view).toList := by
        cases found <;> rfl
      simp only [List.map_append, htoList, hfound, hothers]

theorem manyUntil (stop : Token.Kind → Bool) (h : Lockstep view p q) {s t : State} (hst : s.Alike t) :
    (manyUntil stop p s).1.map view = (manyUntil stop q t).1.map view ∧
      (manyUntil stop p s).2.Alike (manyUntil stop q t).2 := by
  unfold Reader.manyUntil
  rw [hst.length_eq]
  exact h.many stop _ hst

end Lockstep

end Reader

open Reader

/-! ### Expressions -/

theorem Ident.read_lockstep (what : String) : Lockstep erase (read what) (read what) := by
  unfold read
  refine Lockstep.bind (.expect _ fun _ _ => rfl) fun t u htu => .pure ?_
  simp [erase, Token.lexeme_eq htu]

theorem Literal.ofToken?_face {t u : Token} (h : t.face = u.face) : ofToken? t = ofToken? u := by
  rw [ofToken?, ofToken?, Token.kind_eq h, Token.lexeme_eq h]

namespace Expr

theorem eraseAll_eq_map (es : List Expr) : eraseAll es = es.map erase := by
  induction es with
  | nil => rfl
  | cons e es ih => rw [eraseAll, ih, List.map_cons]

/-- Whether an expression is a name does not depend on places. -/
theorem ident_of_erase {e : Expr} {name : Ident} (h : e.erase = (ident name).erase) :
    ∃ other, e = ident other ∧ other.erase = name.erase := by
  cases e with
  | ident other => exact ⟨other, rfl, Expr.ident.inj h⟩
  | _ => cases h

-- the recursion is that of the readers, which go down one level of nesting or to a tighter operator
mutual

theorem read_lockstep : ∀ n, Lockstep erase (read n) (read n)
  | 0 => by
    rw [read]
    exact .tooDeep
  | n + 1 => by
    rw [read]
    exact (readAssignment_lockstep n).nested
termination_by n => (n, 0)

theorem readAssignment_lockstep (n : Nat) : Lockstep erase (readAssignment n) (readAssignment n) := by
  rw [readAssignment]
  refine (readBinary_lockstep n 1).bind fun target target' htarget => ?_
  refine .at_bind fun _ => .ite ?_ (.pure htarget)
  refine Lockstep.advance.bind fun equal equal' _ => (read_lockstep n).bind fun value value' hvalue => ?_
  cases target' with
  | ident name' =>
    obtain ⟨name, rfl, hname⟩ := ident_of_erase htarget
    exact .pure (by simp only [erase, hname, hvalue])
  | _ =>
    cases target with
    | ident => cases htarget
    | _ => exact .giveUp rfl _ _
termination_by (n, 6)

theorem readBinary_lockstep (n least : Nat) : Lockstep erase (readBinary n least) (readBinary n least) := by
  rw [readBinary]
  exact (readUnary_lockstep n).bind fun lhs lhs' hlhs => readBinaryRest_lockstep n least hlhs
termination_by (n, 5)

theorem readBinaryRest_lockstep (n least : Nat) {lhs lhs' : Expr} (hlhs : lhs.erase = lhs'.erase) :
    Lockstep erase (readBinaryRest n least lhs) (readBinaryRest n least lhs') := by
  rw [readBinaryRest, readBinaryRest]
  refine .kind_bind fun k => ?_
  split
  · exact .pure hlhs
  · refine .ite (.pure hlhs) (Lockstep.advance.bind fun _ _ _ => Lockstep.deepen.bind fun _ _ _ => ?_)
    cases n with
    | zero => exact .tooDeep
    | succ n =>
      refine (readBinary_lockstep n _).bind fun rhs rhs' hrhs => readBinaryRest_lockstep n least ?_
      simp only [erase, hlhs, hrhs]
termination_by (n, 4)

theorem readUnary_lockstep (n : Nat) : Lockstep erase (readUnary n) (readUnary n) := by
  rw [readUnary.eq_def]
  refine .kind_bind fun k => ?_
  split
  · exact readCall_lockstep n
  · have hoperand : Lockstep erase (match n with | 0 => tooDeep | n + 1 => readUnary n)
        (match n with | 0 => tooDeep | n + 1 => readUnary n) := by
      cases n with
      | zero => exact .tooDeep
      | succ n => exact readUnary_lockstep n
    refine Lockstep.advance.bind fun start start' _ => hoperand.nested.bind fun operand operand' h => .pure ?_
    simp only [erase, h]
termination_by (n, 3)

theorem readCall_lockstep (n : Nat) : Lockstep erase (readCall n) (readCall n) := by
  rw [readCall]
  exact (readPrimary_lockstep n).bind fun callee callee' hcallee => readCallRest_lockstep n hcallee
termination_by (n, 2)

theorem readCallRest_lockstep (n : Nat) {callee callee' : Expr} (hcallee : callee.erase = callee'.erase) :
    Lockstep erase (readCallRest n callee) (readCallRest n callee') := by
  rw [readCallRest, readCallRest]
  refine .at_bind fun _ => .ite (Lockstep.deepen.bind fun _ _ _ => ?_) (.pure hcallee)
  refine Lockstep.advance.bind fun opening opening' _ => ?_
  cases n with
  | zero => exact .tooDeep
  | succ n =>
    refine (read_lockstep n).commaListUntilParen.bind fun args args' hargs => ?_
    refine (Lockstep.expectClosing _ _).bind fun closing closing' _ => readCallRest_lockstep n ?_
    simp only [erase, eraseAll_eq_map, hcallee, hargs]
termination_by (n, 1)

theorem readPrimary_lockstep (n : Nat) : Lockstep erase (readPrimary n) (readPrimary n) := by
  rw [readPrimary]
  refine Lockstep.peek.bind fun token token' htoken => ?_
  rw [Literal.ofToken?_face htoken, Token.kind_eq htoken]
  split
  · exact Lockstep.advance.bind fun _ _ _ => .pure (by simp only [erase])
  · refine .ite (Lockstep.advance.bind fun _ _ _ => .pure ?_) (.ite ?_ (.giveUpHere fun _ _ => rfl))
    · simp only [erase, Ident.erase, Token.lexeme_eq htoken]
    · refine Lockstep.advance.bind fun opening opening' _ => ?_
      refine (read_lockstep n).bind fun inner inner' hinner => ?_
      exact (Lockstep.expectClosing _ _).bind fun _ _ _ => .pure hinner
termination_by (n, 1)

end

end Expr

theorem Param.read_lockstep : Lockstep erase read read := by
  refine .kind_bind fun k => ?_
  have hname : Lockstep erase (do return (⟨← Ident.read "a parameter name", TypeName.ofKind? k⟩ : Param))
      (do return (⟨← Ident.read "a parameter name", TypeName.ofKind? k⟩ : Param)) :=
    (Ident.read_lockstep _).bind fun name name' hname => .pure (by simp only [erase, hname])
  dsimp only
  split
  · exact Lockstep.advance.bind fun _ _ _ => hname
  · exact hname

/-! ### Statements -/

namespace Stmt

theorem eraseAll_eq_map (ss : List Stmt) : eraseAll ss = ss.map erase := by
  induction ss with
  | nil => rfl
  | cons s ss ih => rw [eraseAll, ih, List.map_cons]

theorem readVarDecl_lockstep (n : Nat) (start start' : Span) (type : Option TypeName) :
    Lockstep erase (readVarDecl n start type) (readVarDecl n start' type) := by
  refine (Ident.read_lockstep _).bind fun name name' hname => .eat_bind fun _ => ?_
  have hrest (init init' : Option Expr) (hinit : init.map Expr.erase = init'.map Expr.erase) : Lockstep erase
      (do let _ ← expectSemicolon "after variable declaration"
          return .varDecl name type init ((← get).spanFrom start))
      (do let _ ← expectSemicolon "after variable declaration"
          return .varDecl name' type init' ((← get).spanFrom start')) :=
    (Lockstep.expectSemicolon _).bind fun _ _ _ => .get_bind fun _ _ _ =>
      .pure (by simp only [erase, hname, hinit])
  exact .ite ((Expr.read_lockstep n).someOf.bind hrest) (Lockstep.bind (.pure rfl) hrest)

theorem readCondition_lockstep (n : Nat) (word : String) :
    Lockstep Expr.erase (readCondition n word) (readCondition n word) := by
  refine Lockstep.bind (.expect _ fun _ _ => rfl) fun opening opening' _ => ?_
  refine (Expr.read_lockstep n).bind fun cond cond' hcond => ?_
  exact (Lockstep.expectClosing _ _).bind fun _ _ _ => .pure hcond

theorem readReturn_lockstep (n : Nat) (start start' : Span) :
    Lockstep erase (readReturn n start) (readReturn n start') := by
  refine Lockstep.advance.bind fun _ _ _ => .at_bind fun _ => ?_
  have hrest (value value' : Option Expr) (hvalue : value.map Expr.erase = value'.map Expr.erase) :
    Lockstep erase
      (do let _ ← expectSemicolon "after return value"
          return .returnWith value ((← get).spanFrom start))
      (do let _ ← expectSemicolon "after return value"
          return .returnWith value' ((← get).spanFrom start')) :=
    (Lockstep.expectSemicolon _).bind fun _ _ _ => .get_bind fun _ _ _ => .pure (by simp only [erase, hvalue])
  exact .ite (Lockstep.bind (.pure rfl) hrest) ((Expr.read_lockstep n).someOf.bind hrest)

theorem readPrint_lockstep (n : Nat) (start start' : Span) :
    Lockstep erase (readPrint n start) (readPrint n start') := by
  refine Lockstep.advance.bind fun _ _ _ => (readCondition_lockstep n _).bind fun e e' he => ?_
  exact (Lockstep.expectSemicolon _).bind fun _ _ _ => .get_bind fun _ _ _ => .pure (by simp only [erase, he])

theorem readExpr_lockstep (n : Nat) (start start' : Span) :
    Lockstep erase (readExpr n start) (readExpr n start') := by
  refine (Expr.read_lockstep n).bind fun e e' he => ?_
  exact (Lockstep.expectSemicolon _).bind fun _ _ _ => .get_bind fun _ _ _ => .pure (by simp only [erase, he])

theorem readBlock_lockstep {stmt : Reader Stmt} (h : Lockstep erase stmt stmt) :
    Lockstep (fun r => r.1.map erase) (readBlock stmt) (readBlock stmt) := by
  refine Lockstep.bind (.expect _ fun _ _ => rfl) fun opening opening' _ => ?_
  refine (Lockstep.modifyGet fun s t hst => h.manyUntil endsBlock hst).bind fun body body' hbody => ?_
  refine .at_bind fun _ => .ite (Lockstep.advance.bind fun _ _ _ => .pure hbody) ?_
  exact (Lockstep.report rfl _ _).bind fun _ _ _ => Lockstep.peek.bind fun _ _ _ => .pure hbody

theorem readFunction_lockstep {stmt : Reader Stmt} (h : Lockstep erase stmt stmt) :
    Lockstep erase (readFunction stmt) (readFunction stmt) := by
  refine Lockstep.advance.bind fun start start' _ => (Ident.read_lockstep _).bind fun name name' hname => ?_
  refine Lockstep.bind (.expect _ fun _ _ => rfl) fun opening opening' _ => ?_
  refine Param.read_lockstep.commaListUntilParen.bind fun params params' hparams => ?_
  refine (Lockstep.expectClosing _ _).bind fun _ _ _ => ?_
  refine (readBlock_lockstep h).bind fun block block' hblock => ?_
  refine .get_bind fun s t hst => ?_
  rw [hst.depth]
  have hend : (function name params block.1 block.2 (start.span.join block.2)).erase =
      (function name' params' block'.1 block'.2 (start'.span.join block'.2)).erase := by
    simp only [erase, eraseAll_eq_map, hname, hparams, hblock]
  exact .ite ((Lockstep.report rfl _ _).bind fun _ _ _ => .pure hend) (.pure hend)

mutual

theorem read_lockstep : ∀ n, Lockstep erase (read n) (read n)
  | 0 => by
    rw [read]
    exact .tooDeep
  | n + 1 => by
    rw [read]
    exact (readInner_lockstep n).nested
termination_by n => (n, 0)

theorem readInner_lockstep (n : Nat) : Lockstep erase (readInner n) (readInner n) := by
  rw [readInner]
  refine Lockstep.peek.bind fun token token' htoken => .kind_bind fun k => ?_
  have htyped : Lockstep erase
      (do let type := TypeName.ofKind? (← advance).kind
          readVarDecl n token.span type)
      (do let type := TypeName.ofKind? (← advance).kind
          readVarDecl n token'.span type) := by
    refine Lockstep.advance.bind fun t u htu => ?_
    rw [Token.kind_eq htu]
    exact readVarDecl_lockstep n _ _ _
  split
  · exact Lockstep.advance.bind fun _ _ _ => readVarDecl_lockstep n _ _ _
  · exact htyped
  · exact htyped
  · exact htyped
  · exact htyped
  · exact readFunction_lockstep (read_lockstep n)
  · exact readBranch_lockstep n _ _
  · refine Lockstep.advance.bind fun _ _ _ => (readCondition_lockstep n _).bind fun cond cond' hcond => ?_
    refine (read_lockstep n).bind fun body body' hbody => .get_bind fun _ _ _ => .pure ?_
    simp only [erase, hcond, hbody]
  · refine (readBlock_lockstep (read_lockstep n)).bind fun block block' hblock => .pure ?_
    simp only [erase, eraseAll_eq_map, hblock]
  · exact readReturn_lockstep n _ _
  · exact readPrint_lockstep n _ _
  · exact Lockstep.advance.bind fun _ _ _ => (Lockstep.expectSemicolon _).bind fun _ _ _ =>
      .get_bind fun _ _ _ => .pure (by simp only [erase])
  · exact Lockstep.advance.bind fun _ _ _ => (Lockstep.expectSemicolon _).bind fun _ _ _ =>
      .get_bind fun _ _ _ => .pure (by simp only [erase])
  · exact .giveUpHere fun _ _ => rfl
  · exact readExpr_lockstep n _ _
termination_by (n, 2)

theorem readBranch_lockstep (n : Nat) (start start' : Span) :
    Lockstep erase (readBranch n start) (readBranch n start') := by
  rw [readBranch, readBranch]
  refine Lockstep.advance.bind fun _ _ _ => (readCondition_lockstep n _).bind fun cond cond' hcond => ?_
  refine (read_lockstep n).bind fun thenStmt thenStmt' hthen => .eat_bind fun _ => ?_
  have hrest (elseStmt elseStmt' : Option Stmt) (helse : elseStmt.map erase = elseStmt'.map erase) :
      Lockstep erase (do return .branch cond thenStmt elseStmt ((← get).spanFrom start))
        (do return .branch cond' thenStmt' elseStmt' ((← get).spanFrom start')) := by
    refine .get_bind fun _ _ _ => .pure ?_
    cases elseStmt <;> cases elseStmt'
    · simp only [erase, hcond, hthen]
    · cases helse
    · cases helse
    · simp only [erase, hcond, hthen, Option.some.inj helse]
  exact .ite ((read_lockstep n).someOf.bind hrest) (Lockstep.bind (.pure rfl) hrest)
termination_by (n, 1)

end

end Stmt

/-! ### Programs -/

theorem Reader.State.missingEnd_face (ts : List Token) : (State.missingEnd ts).face = (.eof, "") := by
  unfold State.missingEnd
  split <;> rfl

theorem Reader.State.ofTokens_alike {ts us : List Token} (h : ts.map Token.face = us.map Token.face) :
    (State.ofTokens ts).Alike (State.ofTokens us) :=
  ⟨h, (missingEnd_face ts).trans (missingEnd_face us).symm, rfl, rfl⟩

/-- Tokens that differ in places only are read as trees of one shape, with the same codes reported. -/
theorem Program.ofTokens_alike {ts us : List Token} (h : ts.map Token.face = us.map Token.face) :
    (ofTokens ts).program.erase = (ofTokens us).program.erase ∧
      (ofTokens ts).diagnostics.map (·.code) = (ofTokens us).diagnostics.map (·.code) := by
  have hstart := Reader.State.ofTokens_alike h
  obtain ⟨hitems, hend⟩ := (Stmt.read_lockstep maxNesting).manyUntil (· = .eof) hstart
  refine ⟨?_, hend.codes⟩
  simp only [erase, ofTokens, ofState, Stmt.eraseAll_eq_map, hitems]

end Scriptlet
