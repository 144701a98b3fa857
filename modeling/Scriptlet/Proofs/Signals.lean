import Scriptlet.Piece
import Scriptlet.Proofs.FunctionValues
import Scriptlet.Proofs.Passes
import Scriptlet.Proofs.Progress
import Scriptlet.Tree.OfTokens

/-!
# Control flow stays where it belongs

`Stmt.Confined` says of a statement that its `return`s stand in a function and its `break`s and
`continue`s in a loop of the same function. The check lets nothing else pass (`confined_of_passes`), and
a statement that is confined ends with no signal that has no place around it (`exec_confined`). So what
stands at the top level ends normally, and the body of a function ends normally or returns.
-/

namespace Scriptlet

open Check Run

mutual

/-- A `return` in the statement stands in a function, a `break` or `continue` in a loop. The arguments
say whether the statement itself does. -/
def Stmt.Confined (inFunction inLoop : Bool) : Stmt → Prop
  | .varDecl .. | .expr .. | .print .. => True
  | .block body _ => Stmt.ConfinedAll inFunction inLoop body
  | .branch _ thenStmt none _ => thenStmt.Confined inFunction inLoop
  | .branch _ thenStmt (some elseStmt) _ =>
    thenStmt.Confined inFunction inLoop ∧ elseStmt.Confined inFunction inLoop
  | .loop _ body _ => body.Confined inFunction true
  -- a loop around the declaration of a function is none around its body
  | .function _ _ body _ _ => Stmt.ConfinedAll true false body
  | .returnWith .. => inFunction = true
  | .breakLoop _ | .continueLoop _ => inLoop = true

def Stmt.ConfinedAll (inFunction inLoop : Bool) : List Stmt → Prop
  | [] => True
  | stmt :: stmts => stmt.Confined inFunction inLoop ∧ Stmt.ConfinedAll inFunction inLoop stmts

end

theorem Stmt.ConfinedAll.mem {inFunction inLoop : Bool} {stmts : List Stmt}
    (h : ConfinedAll inFunction inLoop stmts) : ∀ stmt ∈ stmts, stmt.Confined inFunction inLoop := by
  induction stmts with
  | nil => nofun
  | cons stmt stmts ih => exact List.forall_mem_cons.2 ⟨h.1, ih h.2⟩

/-! ### What passes the check -/

section

variable {strict : Bool} {log : List (Ident × Lookup)}

mutual

theorem confined_of_passes : ∀ (stmt : Stmt) {c : Context} {tree : ScopeTree},
    (checkStmt c tree stmt).Passes strict log → stmt.Confined c.inFunction c.inLoop
  | .varDecl .., _, _, _ | .expr .., _, _, _ | .print .., _, _, _ => trivial
  | .block body _, c, tree, h => by
    simp only [checkStmt, Checked.passes_bind] at h
    exact confinedAll_of_passes body (c := { c with scope := tree.size }) h.1
  | .branch _ thenStmt none _, c, tree, h => by
    have hthen := confined_of_passes thenStmt (branch_passes h).2.1
    rwa [branchContext_inFunction, branchContext_inLoop] at hthen
  | .branch _ thenStmt (some elseStmt) _, c, tree, h => by
    obtain ⟨-, hthen, helse⟩ := branch_passes h
    have hthen := confined_of_passes thenStmt hthen
    have helse := confined_of_passes elseStmt (helse _ rfl)
    rw [branchContext_inFunction, branchContext_inLoop] at hthen helse
    exact ⟨hthen, helse⟩
  | .loop _ body _, c, tree, h => by
    simp only [checkStmt, Checked.passes_bind] at h
    have hbody := confined_of_passes body h.2.1
    rwa [branchContext_inFunction, branchContext_inLoop] at hbody
  | .function _ _ body _ _, c, tree, h => by
    obtain ⟨scope, opened, hbody⟩ := function_passes h
    exact confinedAll_of_passes body (c := ⟨scope, true, false⟩) hbody
  | .returnWith .., c, tree, h => by
    show c.inFunction = true
    cases hin : c.inFunction with
    | true => rfl
    | false => simp [checkStmt, hin, Check.Fault.code, Code.isWarning] at h
  | .breakLoop _, c, tree, h | .continueLoop _, c, tree, h => by
    show c.inLoop = true
    cases hin : c.inLoop with
    | true => rfl
    | false => simp [checkStmt, hin, Check.Fault.code, Code.isWarning] at h

theorem confinedAll_of_passes : ∀ (stmts : List Stmt) {c : Context} {tree : ScopeTree} {warned : Bool},
    (checkStmts c tree warned stmts).Passes strict log → Stmt.ConfinedAll c.inFunction c.inLoop stmts
  | [], _, _, _, _ => trivial
  | stmt :: stmts, _, _, _, h =>
    have ⟨hstmt, hstmts⟩ := stmts_passes h
    ⟨confined_of_passes stmt hstmt, confinedAll_of_passes stmts hstmts⟩

end

end

theorem Program.confined_of_check {p : Program}
    (hclean : ∀ d ∈ p.check.diagnostics, d.severity ≠ .error) : Stmt.ConfinedAll false false p.items := by
  have hpasses : (declareGlobals p.items >>= fun tree => checkStmts .top tree false p.items).Passes
      false p.check.lookups := ⟨fun d hd => ⟨rfl, hclean d hd⟩, fun _ h => h⟩
  rw [Checked.passes_bind] at hpasses
  exact confinedAll_of_passes (c := .top) p.items hpasses.2

namespace Run

/-! ### What a run ends with -/

/-- There is a place for the signal around a statement that stands in a function or in a loop. -/
def Signal.Confined (inFunction inLoop : Bool) : Signal → Prop
  | .normal => True
  | .returned _ => inFunction = true
  | .broke | .continued => inLoop = true

theorem Signal.Confined.eq_normal {signal : Signal} (h : signal.Confined false false) : signal = .normal := by
  cases signal with
  | normal => rfl
  | returned | broke | continued => cases h

theorem Signal.Confined.normal_or_returned {signal : Signal} (h : signal.Confined true false) :
    signal = .normal ∨ ∃ value, signal = .returned value := by
  cases signal with
  | normal => exact .inl rfl
  | returned value => exact .inr ⟨value, rfl⟩
  | broke | continued => cases h

/-- If the computation gives a result, it satisfies `P`. -/
abbrev Gives {α : Type} (P : α → Prop) (p : Run α) : Prop :=
  Preserves (fun _ => True) (fun _ => True) P p

namespace Gives

variable {α β : Type} {P : α → Prop} {Q : β → Prop} {p : Run α} {f : α → Run β}

theorem of_ok {s s' : State} {a : α} (h : Gives P p) (hp : p s = .ok a s') : P a :=
  ((ends_of_ok hp).1 (h s trivial)).1

theorem any (p : Run α) : Gives (fun _ => True) p := by
  intro s _
  unfold Ends
  split
  · exact ⟨trivial, trivial⟩
  · trivial

/-- The result is that of the last step. -/
theorem last (h : ∀ a, Gives Q (f a)) : Gives Q (p >>= f) :=
  .bind (any p) fun a _ => h a

theorem between (h : Gives P p) (enter leave : State → State) : Gives P (between enter leave p) := by
  intro s _
  rw [ends_between]
  exact h (enter s) trivial

end Gives

variable {b : Bounds} {call : Caller} {inFunction inLoop : Bool}

theorem asBranch_confined {stmt : Stmt} {body : Run Signal} (h : Gives (Signal.Confined inFunction inLoop) body) :
    Gives (Signal.Confined inFunction inLoop) (asBranch b stmt body) := by
  unfold asBranch
  split
  · exact h
  · exact .between (.last fun _ => h) _ _

mutual

theorem exec_confined : ∀ (path : TreePath) (stmt : Stmt) {inFunction inLoop : Bool},
    stmt.Confined inFunction inLoop → Gives (Signal.Confined inFunction inLoop) (exec b call path stmt)
  | _, .varDecl .., _, _, _ => by
    unfold exec
    refine .last fun _ => .last fun s => ?_
    split <;> exact .last fun _ => .pure trivial
  | _, .expr .., _, _, _ => .last fun _ => .pure trivial
  | _, .print .., _, _, _ => .last fun _ => .last fun _ => .pure trivial
  | _, .block body _, _, _, h => .between (execAll_confined _ body h) _ _
  | _, .branch _ thenStmt none _, _, _, h => by
    unfold exec
    refine .last fun holds => ?_
    split
    · exact asBranch_confined (exec_confined _ thenStmt h)
    · exact .pure trivial
  | _, .branch _ thenStmt (some elseStmt) _, _, _, h => by
    unfold exec
    refine .last fun holds => ?_
    split
    · exact asBranch_confined (exec_confined _ thenStmt h.1)
    · exact asBranch_confined (exec_confined _ elseStmt h.2)
  | path, .loop _ body _, inFunction, inLoop, h => by
    unfold exec
    -- a `break` or `continue` of the body is one of this loop, and what is returned goes on
    have hbody : Gives (Signal.Confined inFunction true) (asBranch b body (exec b call path.inside body)) :=
      asBranch_confined (exec_confined _ body h)
    have hreturned (value : Value) (h : (Signal.returned value).Confined inFunction true) :
        (Signal.returned value).Confined inFunction inLoop := h
    exact .last fun s => .loop (Gives.any _) (Gives.any _) hbody trivial hreturned _
  | _, .function .., _, _, _ => by
    unfold exec
    refine .last fun s => ?_
    split
    · exact .last fun _ => .pure trivial
    · exact .pure trivial
  | _, .returnWith .., _, _, h => .last fun _ => .pure h
  | _, .breakLoop _, _, _, h | _, .continueLoop _, _, _, h => .pure h

theorem execAll_confined : ∀ (path : TreePath) (stmts : List Stmt) {inFunction inLoop : Bool},
    Stmt.ConfinedAll inFunction inLoop stmts →
    Gives (Signal.Confined inFunction inLoop) (execAll b call path stmts)
  | _, [], _, _, _ => .pure trivial
  | _, stmt :: stmts, _, _, h => by
    unfold execAll
    refine .last fun _ => .bind (exec_confined _ stmt h.1) fun signal hsignal => ?_
    split
    · exact execAll_confined _ stmts h.2
    · exact .pure hsignal

end

/-! ### The functions that are called -/

/-- The body of the function is confined. -/
def ConfinedBody (f : FuncDecl) : Prop := Stmt.ConfinedAll true false f.body

mutual

theorem functions_confined : ∀ (stmt : Stmt) {inFunction inLoop : Bool}, stmt.Confined inFunction inLoop →
    ∀ f ∈ stmt.functions, ConfinedBody f
  | .block body _, _, _, h => functionsAll_confined body h
  | .branch _ thenStmt none _, _, _, h => functions_confined thenStmt h
  | .branch _ thenStmt (some elseStmt) _, _, _, h =>
    List.forall_mem_append.2 ⟨functions_confined thenStmt h.1, functions_confined elseStmt h.2⟩
  | .loop _ body _, _, _, h => functions_confined body h
  | .function .., _, _, h => by
    intro f hf
    obtain rfl := List.mem_singleton.1 hf
    exact h
  | .varDecl .., _, _, _ | .expr .., _, _, _ | .print .., _, _, _ | .returnWith .., _, _, _
  | .breakLoop _, _, _, _ | .continueLoop _, _, _, _ => nofun

theorem functionsAll_confined : ∀ (stmts : List Stmt) {inFunction inLoop : Bool},
    Stmt.ConfinedAll inFunction inLoop stmts → ∀ f ∈ Stmt.functionsAll stmts, ConfinedBody f
  | [], _, _, _ => nofun
  | stmt :: stmts, _, _, h =>
    List.forall_mem_append.2 ⟨functions_confined stmt h.1, functionsAll_confined stmts h.2⟩

end

end Run

mutual

theorem Expr.constants_among {Q : FuncDecl → Prop} : ∀ e : Expr, ∀ v ∈ e.constants, v.Among Q
  | .literal value _ => by
    intro v hv
    obtain rfl := List.mem_singleton.1 hv
    exact ofLiteral_among value
  | .ident _ => nofun
  | .assign _ value _ => Expr.constants_among value
  | .binary _ lhs rhs _ => List.forall_mem_append.2 ⟨Expr.constants_among lhs, Expr.constants_among rhs⟩
  | .unary _ operand _ => Expr.constants_among operand
  | .call callee args _ =>
    List.forall_mem_append.2 ⟨Expr.constants_among callee, Expr.constantsAll_among args⟩

theorem Expr.constantsAll_among {Q : FuncDecl → Prop} :
    ∀ es : List Expr, ∀ v ∈ Expr.constantsAll es, v.Among Q
  | [] => nofun
  | e :: es => List.forall_mem_append.2 ⟨Expr.constants_among e, Expr.constantsAll_among es⟩

end

theorem Expr.constantsOption_among {Q : FuncDecl → Prop} (e : Option Expr) :
    ∀ v ∈ Expr.constantsOption e, v.Among Q := by
  cases e with
  | none => nofun
  | some e => exact e.constants_among

mutual

theorem Stmt.constants_among {Q : FuncDecl → Prop} : ∀ (path : TreePath) (stmt : Stmt),
    (∀ f ∈ stmt.functions, Q f) → ∀ v ∈ Stmt.constants path stmt, v.Among Q
  | _, .varDecl _ _ init _, _ => Expr.constantsOption_among init
  | _, .expr e _, _ | _, .print e _, _ => e.constants_among
  | _, .block body _, h => Stmt.constantsAll_among _ body h
  | _, .branch cond thenStmt none _, h =>
    List.forall_mem_append.2 ⟨cond.constants_among, Stmt.constants_among _ thenStmt h⟩
  | _, .branch cond thenStmt (some elseStmt) _, h => by
    obtain ⟨hthen, helse⟩ := List.forall_mem_append.1 h
    exact List.forall_mem_append.2 ⟨cond.constants_among, List.forall_mem_append.2
      ⟨Stmt.constants_among _ thenStmt hthen, Stmt.constants_among _ elseStmt helse⟩⟩
  | _, .loop cond body _, h =>
    List.forall_mem_append.2 ⟨cond.constants_among, Stmt.constants_among _ body h⟩
  | _, .function .., h => by
    intro v hv f hf
    obtain rfl := List.mem_singleton.1 hv
    cases hf
    exact h _ List.mem_cons_self
  | _, .returnWith value _, _ => Expr.constantsOption_among value
  | _, .breakLoop _, _ | _, .continueLoop _, _ => nofun

theorem Stmt.constantsAll_among {Q : FuncDecl → Prop} : ∀ (path : TreePath) (stmts : List Stmt),
    (∀ f ∈ Stmt.functionsAll stmts, Q f) → ∀ v ∈ Stmt.constantsAll path stmts, v.Among Q
  | _, [], _ => nofun
  | _, stmt :: stmts, h => by
    obtain ⟨hstmt, hstmts⟩ := List.forall_mem_append.1 h
    exact List.forall_mem_append.2 ⟨Stmt.constants_among _ stmt hstmt, Stmt.constantsAll_among _ stmts hstmts⟩

end

namespace Run

/-- Among the values of a run there are only functions whose body is confined. -/
def confinement (b : Bounds) : ValueLaw b where
  Holds := Value.Among ConfinedBody
  nil := nofun
  bool _ := nofun
  float _ := nofun
  strict := applyStrict_among
  unary := applyUnary_among
  body hf := Stmt.constantsAll_among _ _ (functionsAll_confined _ (hf _ rfl))

/-- The statements have been run, one after the other, and each one has ended normally. -/
inductive Completes (b : Bounds) (d : Nat) : TreePath → List Stmt → State → State → Prop
  | nil {path : TreePath} {s : State} : Completes b d path [] s s
  | cons {path : TreePath} {stmt : Stmt} {stmts : List Stmt} {s s₁ s₂ s' : State}
      (htick : tick b stmt.span s = .ok () s₁) (hstmt : exec b (invoke b d) path stmt s₁ = .ok .normal s₂)
      (hstmts : Completes b d path.next stmts s₂ s') : Completes b d path (stmt :: stmts) s s'

theorem completes_of_normal {b : Bounds} {d : Nat} {path : TreePath} {stmts : List Stmt} {s s' : State}
    (h : execAll b (invoke b d) path stmts s = .ok .normal s') : Completes b d path stmts s s' := by
  induction stmts generalizing path s with
  | nil =>
    cases h
    exact .nil
  | cons stmt stmts ih =>
    obtain ⟨_, s₁, htick, h⟩ := of_bind_ok h
    obtain ⟨signal, s₂, hstmt, h⟩ := of_bind_ok h
    cases signal with
    | normal => exact .cons htick hstmt (ih h)
    | returned | broke | continued => cases h

end Run

namespace Program

theorem start_confined {p : Program} (hitems : Stmt.ConfinedAll false false p.items) (b : Bounds) :
    (p.start b).Held (confinement b) := by
  have hconstants : ∀ v ∈ Stmt.constantsAll .first p.items, v.Among ConfinedBody :=
    Stmt.constantsAll_among _ _ (functionsAll_confined _ hitems)
  exact ⟨hconstants, ⟨(confinement b).hoist hconstants .empty, nofun⟩, nofun⟩

/-- A run that succeeds has completed all that stands at the top level. -/
theorem completes_of_ok {p : Program} {b : Bounds} (hitems : Stmt.ConfinedAll false false p.items)
    (h : (p.execute b).status = .ok) :
    ∃ s, Completes b b.limits.maxCallDepth .first p.items (initial b p.items) s ∧
      (p.execute b).output = s.sink.text ∧ (p.execute b).steps = s.steps := by
  unfold execute at h ⊢
  split at h
  · next signal s hrun =>
    have hsignal := (execAll_confined _ p.items hitems).of_ok hrun
    rw [hsignal.eq_normal] at hrun
    exact ⟨s, completes_of_normal hrun, rfl, rfl⟩
  · next failure s hrun =>
    unfold Failure.status at h
    split at h <;> cases h

/-- No signal escapes from where it belongs in a program that has been checked without an error. What
stands at the top level ends normally, or fails, from whatever state it is run; so if a run succeeds,
all of it has been run. The body of a function that is called ends normally, returns, or fails. -/
theorem signals_confined (p : Program) (hclean : ∀ d ∈ p.check.diagnostics, d.severity ≠ .error)
    (b : Bounds) :
    (∀ item ∈ p.items, ∀ depth path s signal s', exec b (invoke b depth) path item s = .ok signal s' →
      signal = .normal) ∧
    ((p.execute b).status = .ok →
      ∃ s, Completes b b.limits.maxCallDepth .first p.items (initial b p.items) s ∧
        (p.execute b).output = s.sink.text ∧ (p.execute b).steps = s.steps) ∧
    ∀ point f args span s, Reaches b (p.start b) point → Calls b point f args span s →
      ∀ depth path s₁ signal s', execAll b (invoke b depth) path f.body s₁ = .ok signal s' →
        signal = .normal ∨ ∃ value, signal = .returned value := by
  have hitems := confined_of_check hclean
  refine ⟨?_, completes_of_ok hitems, ?_⟩
  · intro item hitem depth path s signal s' hrun
    exact ((exec_confined path item (hitems.mem item hitem)).of_ok hrun).eq_normal
  · intro point f args span s hreaches hcalls depth path s₁ signal s' hrun
    have hpoint := (hreaches.follows (start_confined hitems b)).1
    have hbody : ConfinedBody f.toFuncDecl := hcalls.held hpoint f rfl
    exact ((execAll_confined path f.body hbody).of_ok hrun).normal_or_returned

/-- A function that returns from a loop, called in a loop that is left by a `break`. -/
def nestedLoops : String :=
  "func f(n) \x7b while (true) \x7b if (n > 0) return n; n = 1; continue; \x7d \x7d while (f(0) > 0) break; print(1);"

theorem signals_confined_nestedLoops :
    let p := (ofTokens (Tokens.ofText nestedLoops).tokens).program
    ((ofTokens (Tokens.ofText nestedLoops).tokens).diagnostics = [] ∧ p.check.diagnostics = [] ∧
        (p.execute {}).status = .ok) ∧
      (∀ item ∈ p.items, ∀ depth path s signal s', exec {} (invoke {} depth) path item s = .ok signal s' →
        signal = .normal) ∧
      (∃ s, Completes {} 200 .first p.items (initial {} p.items) s ∧
        (p.execute {}).output = s.sink.text ∧ (p.execute {}).steps = s.steps) ∧
      ∀ point f args span s, Reaches {} (p.start {}) point → Calls {} point f args span s →
        ∀ depth path s₁ signal s', execAll {} (invoke {} depth) path f.body s₁ = .ok signal s' →
          signal = .normal ∨ ∃ value, signal = .returned value := by
  have h : (ofTokens (Tokens.ofText nestedLoops).tokens).diagnostics = [] ∧
      (ofTokens (Tokens.ofText nestedLoops).tokens).program.check.diagnostics = [] ∧
      ((ofTokens (Tokens.ofText nestedLoops).tokens).program.execute {}).status = .ok := by
    decide +kernel
  obtain ⟨hitems, hcompletes, hbodies⟩ :=
    signals_confined _ (by rw [h.2.1]; exact List.forall_mem_nil _) {}
  exact ⟨h, hitems, hcompletes h.2.2, hbodies⟩

end Program

end Scriptlet
