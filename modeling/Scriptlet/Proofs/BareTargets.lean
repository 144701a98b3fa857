import Mathlib.Data.List.Chain
import Scriptlet.Proofs.Grammar

/-!
# Names on the left of `=`

The written grammar and the wide one, in which a name on the left of `=` may stand in parentheses, agree
on the tokens in which no closing parenthesis stands right before `=`, and on no others: `separate` and
`narrow`.
-/

namespace Scriptlet.Grammar

/-- Nowhere does a closing parenthesis stand right before `=`. -/
def BareTargets (ts : List Token) : Prop :=
  ts.IsChain fun a b => a.kind = .rparen → b.kind ≠ .equal

instance (ts : List Token) : Decidable (BareTargets ts) :=
  inferInstanceAs (Decidable (ts.IsChain _))

/-- Besides, the tokens do not begin with `=`, so that anything may come before them. -/
def Separate (ts : List Token) : Prop :=
  BareTargets ts ∧ ∀ b ∈ ts.head?, b.kind ≠ .equal

namespace Separate

variable {ts us : List Token} {a b : Token}

theorem nil : Separate [] := ⟨List.isChain_nil, by simp⟩

theorem cons (ha : a.kind ≠ .equal) (h : Separate ts) : Separate (a :: ts) :=
  ⟨List.isChain_cons.2 ⟨fun b hb _ => h.2 b hb, h.1⟩, by simpa using ha⟩

theorem append (h : Separate ts) (h' : Separate us) : Separate (ts ++ us) := by
  refine ⟨List.isChain_append.2 ⟨h.1, h'.1, fun _ _ b hb _ => h'.2 b hb⟩, ?_⟩
  cases ts with
  | nil => exact h'.2
  | cons => exact h.2

/-- A name may come before `=`. -/
theorem equal (ha : a.kind = .ident) (h : Separate ts) : Separate (a :: b :: ts) := by
  refine ⟨List.isChain_cons.2 ⟨?_, List.isChain_cons.2 ⟨fun b hb _ => h.2 b hb, h.1⟩⟩, ?_⟩
  · simp [ha]
  · simp [ha]

theorem single (ha : a.kind ≠ .equal) : Separate [a] := cons ha nil

end Separate

namespace Derives

variable {wide : Bool} {x : Nonterminal} {ts us : List Token} {t : x.Tree}

open Separate in
/-- In a phrase of the written grammar every `=` comes right after a name. -/
theorem separate (h : Derives false x ts t) : Separate ts := by
  induction h with
  | noItems | noParams | noStmts | noArgs => exact nil
  | itemFunc _ ih | itemStmt _ ih | someParams _ ih | oneParam _ ih | stmtVarDecl _ ih | stmtIf _ ih
  | stmtWhile _ ih | stmtBlock _ ih | stmtReturn _ ih | stmtPrint _ ih | stmtExpr _ ih
  | noAssign _ ih | operand _ ih | noUnary _ ih | noCall _ ih | someArgs _ ih | oneArg _ ih => exact ih
  | moreItems _ _ ih ih' | moreStmts _ _ ih ih' => exact ih.append ih'
  | moreParams _ h _ ih ih' | moreArgs _ h _ ih ih' => exact ih.append (cons (by simp [h]) ih')
  | program _ h ih | exprStmt _ h ih => exact ih.append (single (by simp [h]))
  | plainParam h | intType h | floatType h | boolType h | stringType h | number h
  | fnumber h | str h | trueWord h | falseWord h | nilWord h | ident h => exact single (by simp [h])
  | typedParam _ h ih => exact ih.append (single (by simp [h]))
  | stmtBreak h h' | stmtContinue h h' | returnNone h h' =>
    exact cons (by simp [h]) (single (by simp [h']))
  | not h _ ih | neg h _ ih => exact cons (by simp [h]) ih
  | assign htarget _ _ ih =>
    cases htarget with
    | bare hname => exact equal hname ih
    | paren h => exact nomatch h
  | operator _ hop _ ih ih' =>
    refine ih.append (cons (fun hk => ?_) ih')
    have := Rung.ofKind_of_mem hop
    rw [hk] at this
    exact nomatch this
  | call _ hlp _ hrp ih ih' =>
    exact ih.append (cons (by simp [hlp]) (ih'.append (single (by simp [hrp]))))
  | paren hlp _ hrp ih | block hlp _ hrp ih =>
    exact cons (by simp [hlp]) (ih.append (single (by simp [hrp])))
  | funcDecl hfunc hname hlp _ hrp _ ih ih' =>
    exact cons (by simp [hfunc]) (cons (by simp [hname]) (cons (by simp [hlp])
      (ih.append (cons (by simp [hrp]) ih'))))
  | letPlain hword hname hsemi =>
    exact cons (by simp [hword]) (cons (by simp [hname]) (single (by simp [hsemi])))
  | letInit hword hname hequal _ hsemi ih =>
    exact cons (by simp [hword]) (equal hname (ih.append (single (by simp [hsemi]))))
  | typedPlain _ hname hsemi ih =>
    exact ih.append (cons (by simp [hname]) (single (by simp [hsemi])))
  | typedInit _ hname _ _ hsemi ih ih' =>
    exact ih.append (equal hname (ih'.append (single (by simp [hsemi]))))
  | ifThen hword hlp _ hrp _ ih ih' | whileDo hword hlp _ hrp _ ih ih' =>
    exact cons (by simp [hword]) (cons (by simp [hlp]) (ih.append (cons (by simp [hrp]) ih')))
  | ifThenElse hword hlp _ hrp _ helse _ ih ih' ih'' =>
    exact cons (by simp [hword]) (cons (by simp [hlp]) (ih.append (cons (by simp [hrp])
      (ih'.append (cons (by simp [helse]) ih'')))))
  | returnSome hword _ hsemi ih => exact cons (by simp [hword]) (ih.append (single (by simp [hsemi])))
  | print hword hlp _ hrp hsemi ih =>
    exact cons (by simp [hword]) (cons (by simp [hlp]) (ih.append (cons (by simp [hrp])
      (single (by simp [hsemi])))))

/-- A phrase in which every `=` comes right after a name belongs to the written grammar. -/
theorem narrow (h : Derives true x ts t) (hb : BareTargets ts) : Derives false x ts t := by
  induction h with
  | program _ h ih => exact .program (ih hb.left_of_append) h
  | moreItems _ _ ih ih' => exact .moreItems (ih hb.left_of_append) (ih' hb.right_of_append)
  | itemFunc _ ih => exact .itemFunc (ih hb)
  | itemStmt _ ih => exact .itemStmt (ih hb)
  | funcDecl hfunc hname hlp _ hrp _ ih ih' =>
    have hb := hb.tail.tail.tail
    exact .funcDecl hfunc hname hlp (ih hb.left_of_append) hrp (ih' hb.right_of_append.tail)
  | someParams _ ih => exact .someParams (ih hb)
  | oneParam _ ih => exact .oneParam (ih hb)
  | moreParams _ h _ ih ih' =>
    exact .moreParams (ih hb.left_of_append) h (ih' hb.right_of_append.tail)
  | typedParam _ h ih => exact .typedParam (ih hb.left_of_append) h
  | moreStmts _ _ ih ih' => exact .moreStmts (ih hb.left_of_append) (ih' hb.right_of_append)
  | stmtVarDecl _ ih => exact .stmtVarDecl (ih hb)
  | stmtIf _ ih => exact .stmtIf (ih hb)
  | stmtWhile _ ih => exact .stmtWhile (ih hb)
  | stmtBlock _ ih => exact .stmtBlock (ih hb)
  | stmtReturn _ ih => exact .stmtReturn (ih hb)
  | stmtPrint _ ih => exact .stmtPrint (ih hb)
  | stmtExpr _ ih => exact .stmtExpr (ih hb)
  | letInit hword hname hequal _ hsemi ih =>
    exact .letInit hword hname hequal (ih hb.tail.tail.tail.left_of_append) hsemi
  | typedPlain _ hname hsemi ih => exact .typedPlain (ih hb.left_of_append) hname hsemi
  | typedInit _ hname hequal _ hsemi ih ih' =>
    exact .typedInit (ih hb.left_of_append) hname hequal
      (ih' hb.right_of_append.tail.tail.left_of_append) hsemi
  | ifThen hword hlp _ hrp _ ih ih' =>
    have hb := hb.tail.tail
    exact .ifThen hword hlp (ih hb.left_of_append) hrp (ih' hb.right_of_append.tail)
  | ifThenElse hword hlp _ hrp _ helse _ ih ih' ih'' =>
    have hb := hb.tail.tail
    have hb' := hb.right_of_append.tail
    exact .ifThenElse hword hlp (ih hb.left_of_append) hrp (ih' hb'.left_of_append) helse
      (ih'' hb'.right_of_append.tail)
  | whileDo hword hlp _ hrp _ ih ih' =>
    have hb := hb.tail.tail
    exact .whileDo hword hlp (ih hb.left_of_append) hrp (ih' hb.right_of_append.tail)
  | block hlb _ hrb ih => exact .block hlb (ih hb.tail.left_of_append) hrb
  | returnSome hword _ hsemi ih => exact .returnSome hword (ih hb.tail.left_of_append) hsemi
  | print hword hlp _ hrp hsemi ih =>
    exact .print hword hlp (ih hb.tail.tail.left_of_append) hrp hsemi
  | exprStmt _ hsemi ih => exact .exprStmt (ih hb.left_of_append) hsemi
  | assign htarget hequal _ ih =>
    cases htarget with
    | bare hname => exact .assign (.bare hname) hequal (ih hb.tail.tail)
    | @paren lp rp us _ _ _ _ hrp =>
      -- the parenthesis that closes the target would stand right before `=`
      have hlast : (lp :: (us ++ [rp])).getLast? = some rp := by
        rw [← List.cons_append, List.getLast?_append]; rfl
      exact absurd hequal ((List.isChain_append.1 hb).2.2 rp hlast _ rfl hrp)
  | noAssign _ ih => exact .noAssign (ih hb)
  | operand _ ih => exact .operand (ih hb)
  | operator _ hop _ ih ih' => exact .operator (ih hb.left_of_append) hop (ih' hb.right_of_append.tail)
  | not h _ ih => exact .not h (ih hb.tail)
  | neg h _ ih => exact .neg h (ih hb.tail)
  | noUnary _ ih => exact .noUnary (ih hb)
  | noCall _ ih => exact .noCall (ih hb)
  | call _ hlp _ hrp ih ih' =>
    exact .call (ih hb.left_of_append) hlp (ih' hb.right_of_append.tail.left_of_append) hrp
  | someArgs _ ih => exact .someArgs (ih hb)
  | oneArg _ ih => exact .oneArg (ih hb)
  | moreArgs _ h _ ih ih' => exact .moreArgs (ih hb.left_of_append) h (ih' hb.right_of_append.tail)
  | paren hlp _ hrp ih => exact .paren hlp (ih hb.tail.left_of_append) hrp
  | noItems => exact .noItems
  | noParams => exact .noParams
  | plainParam h => exact .plainParam h
  | intType h => exact .intType h
  | floatType h => exact .floatType h
  | boolType h => exact .boolType h
  | stringType h => exact .stringType h
  | noStmts => exact .noStmts
  | stmtBreak h h' => exact .stmtBreak h h'
  | stmtContinue h h' => exact .stmtContinue h h'
  | letPlain h h' h'' => exact .letPlain h h' h''
  | returnNone h h' => exact .returnNone h h'
  | noArgs => exact .noArgs
  | number h => exact .number h
  | fnumber h => exact .fnumber h
  | str h => exact .str h
  | trueWord h => exact .trueWord h
  | falseWord h => exact .falseWord h
  | nilWord h => exact .nilWord h
  | ident h => exact .ident h

end Derives

end Scriptlet.Grammar
