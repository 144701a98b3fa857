import Scriptlet.Proofs.Grammar
import Scriptlet.Proofs.Reads
import Scriptlet.Tree.OfTokens

/-!
# Expressions that are read are expressions of the grammar

The grammar has one nonterminal for each level of operators, the reader one function for all of them.
`Grammar.formAt` is the nonterminal of a level. `readBinaryRest` goes on from a left operand that is
already a phrase of the level asked for and of the level of the operator that comes next, and stops
before an operator that binds more loosely (`Stops`), so that every tree it builds is again such a
phrase.
-/

namespace Scriptlet

namespace Grammar

/-- The form of the expressions whose operators bind at least as tightly as `level`. -/
def formAt : Nat → Form
  | 1 => .rung .logicOr
  | 2 => .rung .logicAnd
  | 3 => .rung .equality
  | 4 => .rung .relational
  | 5 => .rung .additive
  | 6 => .rung .mult
  | _ => .unary

/-- The level of an operator. -/
def Rung.of : BinaryOp → Rung
  | .or => logicOr
  | .and => logicAnd
  | .eq | .ne => equality
  | .lt | .le | .gt | .ge => relational
  | .add | .sub => additive
  | .mul | .div | .rem => mult

theorem Rung.mem_of_ofKind {k : Token.Kind} {op : BinaryOp} (h : BinaryOp.ofKind? k = some op) :
    (k, op) ∈ (Rung.of op).operators := by
  cases k <;> cases h <;> decide

theorem formAt_level (op : BinaryOp) : formAt op.level = .rung (.of op) := by
  cases op <;> rfl

theorem formAt_succ_level (op : BinaryOp) : formAt (op.level + 1) = (Rung.of op).operand := by
  cases op <;> rfl

/-- The tree is the name alone. -/
def Nonterminal.IsName : (x : Nonterminal) → x.Tree → Ident → Prop
  | expr _, e, name => e = Expr.ident name
  | _, _, _ => False

namespace Derives

variable {wide : Bool} {ts us : List Token} {e lhs rhs : Expr}

theorem looser {level : Nat} (hlevel : 1 ≤ level) (h : Derives wide (.expr (formAt (level + 1))) ts e) :
    Derives wide (.expr (formAt level)) ts e := by
  match level with
  | 1 | 2 | 3 | 4 | 5 | 6 => exact .operand h
  | _ + 7 => exact h

theorem of_le {i j : Nat} (hi : 1 ≤ i) (hij : i ≤ j) (h : Derives wide (.expr (formAt j)) ts e) :
    Derives wide (.expr (formAt i)) ts e := by
  induction hij with
  | refl => exact h
  | step hij ih => exact ih (h.looser (Nat.le_trans hi hij))

theorem of_unary {level : Nat} (hlevel : 1 ≤ level) (h : Derives wide (.expr .unary) ts e) :
    Derives wide (.expr (formAt level)) ts e :=
  of_le hlevel (Nat.le_add_right level 7) h

theorem binary {t : Token} {op : BinaryOp} {span : Span} (hop : BinaryOp.ofKind? t.kind = some op)
    (hl : Derives wide (.expr (formAt op.level)) ts lhs)
    (hr : Derives wide (.expr (formAt (op.level + 1))) us rhs) :
    Derives wide (.expr (formAt op.level)) (ts ++ t :: us) (Expr.binary op lhs rhs span) := by
  rw [formAt_level] at hl ⊢
  rw [formAt_succ_level] at hr
  exact .operator hl (Rung.mem_of_ofKind hop) hr

/-- A phrase whose tree is a name is that name, possibly in parentheses. -/
theorem target_of_isName {x : Nonterminal} {t : x.Tree} {name : Ident} (h : Derives true x ts t)
    (hname : x.IsName t name) : Target true ts name := by
  induction h with
  | ident h => cases hname; exact .bare h
  | paren hlp _ hrp ih => exact .paren rfl hlp (ih hname) hrp
  | noAssign _ ih | operand _ ih | noUnary _ ih | noCall _ ih => exact ih hname
  | _ => exact nomatch hname

end Derives
end Grammar

open Grammar

namespace Expr

open Reader

/-- The next token is no operator that binds as tightly as `least`. -/
def Stops (least : Nat) (s : State) : Prop :=
  ∀ op, BinaryOp.ofKind? s.peek.kind = some op → op.level < least

/-- What the readers of expressions with the bound `n` read. -/
structure Sound (n : Nat) : Prop where
  read : ∀ s : State, s.eof.kind = .eof →
    Reads AnyFault s (read n) fun ts e _ => Derives true (.expr .assignment) ts e
  assignment : ∀ s : State, s.eof.kind = .eof →
    Reads AnyFault s (readAssignment n) fun ts e _ => Derives true (.expr .assignment) ts e
  binary : ∀ (s : State) (least : Nat), s.eof.kind = .eof → 1 ≤ least →
    Reads AnyFault s (readBinary n least) fun ts e s' => Derives true (.expr (formAt least)) ts e ∧ Stops least s'
  binaryRest : ∀ (s : State) (least : Nat) (lhs : Expr) (ts : List Token), s.eof.kind = .eof →
    1 ≤ least → Derives true (.expr (formAt least)) ts lhs →
    (∀ op, BinaryOp.ofKind? s.peek.kind = some op → Derives true (.expr (formAt op.level)) ts lhs) →
    Reads AnyFault s (readBinaryRest n least lhs) fun us e s' =>
      Derives true (.expr (formAt least)) (ts ++ us) e ∧ Stops least s'
  unary : ∀ s : State, s.eof.kind = .eof →
    Reads AnyFault s (readUnary n) fun ts e _ => Derives true (.expr .unary) ts e
  callRest : ∀ (s : State) (callee : Expr) (ts : List Token), s.eof.kind = .eof →
    Derives true (.expr .call) ts callee →
    Reads AnyFault s (readCallRest n callee) fun us e _ => Derives true (.expr .call) (ts ++ us) e

variable {n : Nat} {s : State}

theorem one_le_level (op : BinaryOp) : 1 ≤ op.level := by
  cases op <;> decide

theorem literal_derives {t : Token} {value : Literal} {span : Span} (h : Literal.ofToken? t = some value) :
    Derives true (.expr .primary) [t] (Expr.literal value span) := by
  unfold Literal.ofToken? at h
  split at h <;> cases h
  · exact .number ‹_›
  · exact .fnumber ‹_›
  · exact .str ‹_›
  · exact .trueWord ‹_›
  · exact .falseWord ‹_›
  · exact .nilWord ‹_›

theorem ofToken_ne_eof {t : Token} {value : Literal} (h : Literal.ofToken? t = some value) :
    t.kind ≠ .eof := by
  intro hk
  simp [Literal.ofToken?, hk] at h

theorem primary_sound
    (hread : ∀ s : State, s.eof.kind = .eof →
      Reads AnyFault s (read n) fun ts e _ => Derives true (.expr .assignment) ts e)
    (heof : s.eof.kind = .eof) :
    Reads AnyFault s (readPrimary n) fun ts e _ => Derives true (.expr .primary) ts e := by
  rw [readPrimary]
  refine .peek_bind ?_
  split
  · next value h => exact .advance_bind heof (ofToken_ne_eof h) (.pure (literal_derives h))
  · split
    · next h => exact .advance_bind heof (by simp [h]) (.pure (.ident h))
    · split
      · next h =>
        refine .advance_bind heof (by simp [h]) ?_
        refine (hread s.advance (by simpa using heof)).bind fun ts e s' hr he => ?_
        exact .expect_bind (by simpa [hr.eof] using heof) (by decide) fun hrp =>
          .pure (.paren h he hrp)
      · exact .giveUpHere

theorem args_sound (h : Sound n) (heof : s.eof.kind = .eof) :
    Reads AnyFault s (commaListUntilParen (read n)) fun ts args _ => Derives true .optArgs ts args :=
  .commaListUntilParen (Derives true .args) h.read .oneArg .moreArgs .noArgs .someArgs s heof

theorem callRest_sound (prev : ∀ m, n = m + 1 → Sound m) {callee : Expr} {ts : List Token}
    (heof : s.eof.kind = .eof) (hcallee : Derives true (.expr .call) ts callee) :
    Reads AnyFault s (readCallRest n callee) fun us e _ => Derives true (.expr .call) (ts ++ us) e := by
  rw [readCallRest]
  refine .at_bind ?_
  split
  · next hlp =>
    have hlp := of_decide_eq_true hlp
    refine .deepen_bind (.advance_bind heof (by simp [hlp]) ?_)
    cases n with
    | zero => exact .tooDeep
    | succ m =>
      have hm := prev m rfl
      refine (args_sound hm (by simpa using heof)).bind fun us args s' hr hargs => ?_
      have heof' : s'.eof.kind = .eof := by simpa [hr.eof] using heof
      refine .expect_bind heof' nofun fun hrp => ?_
      refine (hm.callRest _ _ _ (by simpa using heof') (.call hcallee hlp hargs hrp)).mono
        fun vs e _ _ he => ?_
      simpa using he
  · exact .pure (by simpa using hcallee)

theorem unary_sound (prev : ∀ m, n = m + 1 → Sound m)
    (hread : ∀ s : State, s.eof.kind = .eof →
      Reads AnyFault s (read n) fun ts e _ => Derives true (.expr .assignment) ts e)
    (heof : s.eof.kind = .eof) :
    Reads AnyFault s (readUnary n) fun ts e _ => Derives true (.expr .unary) ts e := by
  rw [readUnary.eq_def]
  refine .kind_bind ?_
  split
  · rw [readCall]
    refine (primary_sound hread heof).bind fun ts e s' hr he => ?_
    exact (callRest_sound prev (hr.eof ▸ heof) (.noCall he)).mono fun us e' _ _ he' => .noUnary he'
  · next op hop =>
    have hne : s.peek.kind ≠ .eof := by
      intro hk
      rw [hk] at hop
      cases hop
    refine .advance_bind heof hne ?_
    refine .bind (D := fun ts e _ => Derives true (.expr .unary) ts e) (.nested ?_) fun ts e s' _ he =>
      .pure ?_
    · cases n with
      | zero => exact .tooDeep
      | succ m => exact (prev m rfl).unary _ (by simpa using heof)
    · rw [List.append_nil]
      unfold UnaryOp.ofKind? at hop
      split at hop <;> cases hop
      · exact .neg ‹_› he
      · exact .not ‹_› he

theorem binaryRest_sound (prev : ∀ m, n = m + 1 → Sound m) {least : Nat} {lhs : Expr}
    {ts : List Token} (heof : s.eof.kind = .eof) (hleast : 1 ≤ least)
    (hlhs : Derives true (.expr (formAt least)) ts lhs)
    (hnext : ∀ op, BinaryOp.ofKind? s.peek.kind = some op →
      Derives true (.expr (formAt op.level)) ts lhs) :
    Reads AnyFault s (readBinaryRest n least lhs) fun us e s' =>
      Derives true (.expr (formAt least)) (ts ++ us) e ∧ Stops least s' := by
  rw [readBinaryRest]
  refine .kind_bind ?_
  split
  · next hop => exact .pure ⟨by simpa using hlhs, fun op h => by rw [hop] at h; cases h⟩
  · next op hop =>
    split
    · next hlt =>
      refine .pure ⟨by simpa using hlhs, fun op' h => ?_⟩
      rw [hop] at h
      cases h
      exact hlt
    · next hge =>
      have hne : s.peek.kind ≠ .eof := by
        intro hk
        rw [hk] at hop
        cases hop
      refine .advance_bind heof hne (.deepen_bind ?_)
      cases n with
      | zero => exact .tooDeep
      | succ m =>
        have hm := prev m rfl
        refine (hm.binary _ _ (by simpa using heof) (Nat.le_add_left ..)).bind
          fun us rhs s' hr hboth => ?_
        obtain ⟨hrhs, hstop⟩ := hboth
        have heof' : s'.eof.kind = .eof := by simpa [hr.eof] using heof
        -- whatever operator comes next binds no tighter than `op`
        have hbin (span : Span) : Derives true (.expr (formAt op.level)) (ts ++ s.peek :: us)
            (Expr.binary op lhs rhs span) := .binary hop (hnext op hop) hrhs
        refine (hm.binaryRest s' least _ _ heof' hleast
          ((hbin _).of_le hleast (Nat.le_of_not_lt hge)) fun op' hop' => ?_).mono
            fun vs e _ _ he => by simpa using he
        exact (hbin _).of_le (one_le_level op') (Nat.le_of_lt_succ (hstop op' hop'))

theorem binary_sound (prev : ∀ m, n = m + 1 → Sound m)
    (hread : ∀ s : State, s.eof.kind = .eof →
      Reads AnyFault s (read n) fun ts e _ => Derives true (.expr .assignment) ts e)
    {least : Nat} (heof : s.eof.kind = .eof) (hleast : 1 ≤ least) :
    Reads AnyFault s (readBinary n least) fun ts e s' =>
      Derives true (.expr (formAt least)) ts e ∧ Stops least s' := by
  rw [readBinary]
  refine (unary_sound prev hread heof).bind fun ts e s' hr he => ?_
  exact binaryRest_sound prev (hr.eof ▸ heof) hleast (he.of_unary hleast)
    fun op _ => he.of_unary (one_le_level op)

theorem assignment_sound (prev : ∀ m, n = m + 1 → Sound m)
    (hread : ∀ s : State, s.eof.kind = .eof →
      Reads AnyFault s (read n) fun ts e _ => Derives true (.expr .assignment) ts e)
    (heof : s.eof.kind = .eof) :
    Reads AnyFault s (readAssignment n) fun ts e _ => Derives true (.expr .assignment) ts e := by
  rw [readAssignment]
  refine (binary_sound prev hread heof (Nat.le_refl 1)).bind fun ts target s' hr ⟨htarget, _⟩ => ?_
  have heof' : s'.eof.kind = .eof := hr.eof ▸ heof
  refine .at_bind ?_
  split
  · next hequal =>
    have hequal := of_decide_eq_true hequal
    refine .advance_bind heof' (by simp [hequal]) ?_
    refine (hread _ (by simpa using heof')).bind fun us value s'' _ hvalue => ?_
    split
    · have := Derives.target_of_isName htarget rfl
      exact .pure (by simpa using Derives.assign this hequal hvalue)
    · exact .giveUp
  · exact .pure (by simpa using Derives.noAssign htarget)

theorem sound (n : Nat) : Sound n := by
  induction n using Nat.strongRecOn with
  | ind n ih =>
    have prev : ∀ m, n = m + 1 → Sound m := fun m hm => ih m (hm ▸ Nat.lt_succ_self m)
    have hread : ∀ s : State, s.eof.kind = .eof →
        Reads AnyFault s (read n) fun ts e _ => Derives true (.expr .assignment) ts e := by
      intro s heof
      cases n with
      | zero => rw [read]; exact .tooDeep
      | succ m => rw [read]; exact .nested ((prev m rfl).assignment _ heof)
    exact {
      read := hread
      assignment := fun _ heof => assignment_sound prev hread heof
      binary := fun _ _ heof hleast => binary_sound prev hread heof hleast
      binaryRest := fun _ _ _ _ heof hleast hlhs hnext =>
        binaryRest_sound prev heof hleast hlhs hnext
      unary := fun _ heof => unary_sound prev hread heof
      callRest := fun _ _ _ heof hcallee => callRest_sound prev heof hcallee }

end Expr
end Scriptlet
