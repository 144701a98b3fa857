import Scriptlet.Proofs.Agreement
import Scriptlet.Proofs.Bounded
import Scriptlet.Proofs.Signals

/-!
# Functions are known by where they are declared

Two functions are compared by their paths (`Value.equals`). This is the comparison of their declarations: in every
run, a function is declared in the program at its path (`Program.functions_declared`), and two functions with one path
are the same (`Program.equal_functions`). It holds for all trees, also if two declarations have their names at one
place of a text.
-/

namespace Scriptlet

open Run

/-- The statements that stand directly in a statement. -/
def Stmt.parts : Stmt → List Stmt
  | .block body _ => body
  | .branch _ thenStmt none _ => [thenStmt]
  | .branch _ thenStmt (some elseStmt) _ => [thenStmt, elseStmt]
  | .loop _ body _ => [body]
  | .function _ _ body _ _ => body
  | _ => []

/-- The statements inside those with the indices `around`, from the innermost. -/
def Program.within (p : Program) : List Nat → List Stmt
  | [] => p.items
  | i :: around => ((p.within around)[i]?.map Stmt.parts).getD []

/-- The statement at a path. -/
def Program.stmt? (p : Program) (path : TreePath) : Option Stmt := (p.within path.around)[path.index]?

/-- If the value is a function, then it is declared at its path. -/
def Value.DeclaredIn (p : Program) (v : Value) : Prop :=
  ∀ f, v = .function f → ∃ braces span, p.stmt? f.path = some (.function f.name f.params f.body braces span)

variable {p : Program} {path : TreePath} {stmt : Stmt} {stmts : List Stmt} {v : Value}

/-- The statements stand one after the other, the first at the path. -/
def Program.Row (p : Program) (path : TreePath) (stmts : List Stmt) : Prop :=
  ∀ i stmt, stmts[i]? = some stmt → p.stmt? (path.skip i) = some stmt

theorem Program.row_items (p : Program) : p.Row .first p.items := by
  intro i stmt hstmt
  rwa [stmt?, TreePath.skip, TreePath.first, Nat.zero_add]

theorem Program.row_parts (h : p.stmt? path = some stmt) : p.Row path.inside stmt.parts := by
  intro i part hpart
  have hwithin : p.within (path.index :: path.around) = stmt.parts := by
    rw [within]
    exact congrArg (fun found => (found.map Stmt.parts).getD []) h
  rwa [stmt?, TreePath.skip, TreePath.inside, hwithin, Nat.zero_add]

namespace Program.Row

theorem head (h : p.Row path (stmt :: stmts)) : p.stmt? path = some stmt := h 0 stmt rfl

theorem tail (h : p.Row path (stmt :: stmts)) : p.Row path.next stmts := by
  intro i stmt' hstmt
  rw [TreePath.next_skip]
  exact h (i + 1) stmt' hstmt

end Program.Row

/-! ### What the statements of a program bring in -/

theorem Value.Among.declaredIn (h : v.Among fun _ => False) : v.DeclaredIn p := fun f hf => (h f hf).elim

theorem Expr.constants_declaredIn (e : Expr) : ∀ v ∈ e.constants, v.DeclaredIn p := fun v hv =>
  (e.constants_among v hv).declaredIn

theorem Expr.constantsOption_declaredIn (e : Option Expr) : ∀ v ∈ Expr.constantsOption e, v.DeclaredIn p :=
  fun v hv => (Expr.constantsOption_among e v hv).declaredIn

mutual

theorem Stmt.constants_declaredIn : ∀ (path : TreePath) (stmt : Stmt), p.stmt? path = some stmt →
    ∀ v ∈ Stmt.constants path stmt, v.DeclaredIn p
  | _, .varDecl _ _ init _, _ => Expr.constantsOption_declaredIn init
  | _, .expr e _, _ | _, .print e _, _ => e.constants_declaredIn
  | path, .block body _, h => Stmt.constantsAll_declaredIn path.inside body (Program.row_parts h)
  | path, .branch cond thenStmt none _, h => by
    have hparts := Program.row_parts h
    exact List.forall_mem_append.2 ⟨cond.constants_declaredIn,
      Stmt.constants_declaredIn path.inside thenStmt hparts.head⟩
  | path, .branch cond thenStmt (some elseStmt) _, h => by
    have hparts := Program.row_parts h
    exact List.forall_mem_append.2 ⟨cond.constants_declaredIn, List.forall_mem_append.2
      ⟨Stmt.constants_declaredIn path.inside thenStmt hparts.head,
        Stmt.constants_declaredIn path.inside.next elseStmt hparts.tail.head⟩⟩
  | path, .loop cond body _, h => by
    have hparts := Program.row_parts h
    exact List.forall_mem_append.2 ⟨cond.constants_declaredIn,
      Stmt.constants_declaredIn path.inside body hparts.head⟩
  | path, .function name params body braces span, h => by
    intro v hv f hf
    obtain rfl := List.mem_singleton.1 hv
    cases hf
    exact ⟨braces, span, h⟩
  | _, .returnWith value _, _ => Expr.constantsOption_declaredIn value
  | _, .breakLoop _, _ | _, .continueLoop _, _ => nofun

theorem Stmt.constantsAll_declaredIn : ∀ (path : TreePath) (stmts : List Stmt), p.Row path stmts →
    ∀ v ∈ Stmt.constantsAll path stmts, v.DeclaredIn p
  | _, [], _ => nofun
  | path, stmt :: stmts, h => List.forall_mem_append.2
    ⟨Stmt.constants_declaredIn path stmt h.head, Stmt.constantsAll_declaredIn path.next stmts h.tail⟩

end

/-! ### Runs -/

/-- Among the values of a run there are only functions of the program, with their paths. -/
def Run.declaring (b : Bounds) (p : Program) : ValueLaw b where
  Holds := Value.DeclaredIn p
  nil := nofun
  bool _ := nofun
  float _ := nofun
  strict h := (applyStrict_among h).declaredIn
  unary h := (applyUnary_among h).declaredIn
  body {f} hf := by
    obtain ⟨braces, span, hstmt⟩ := hf f rfl
    exact Stmt.constantsAll_declaredIn _ _ (Program.row_parts hstmt)

namespace Program

theorem start_declared (b : Bounds) (p : Program) : (p.start b).Held (declaring b p) := by
  have hconstants := Stmt.constantsAll_declaredIn _ _ p.row_items
  exact ⟨hconstants, ⟨(declaring b p).hoist hconstants .empty, nofun⟩, nofun⟩

/-- A function is declared at its path, whether it is the value of a variable or of an expression. -/
theorem functions_declared (b : Bounds) (p : Program) :
    (∀ s, Occurs b (p.start b) s → s.All (·.value.DeclaredIn p)) ∧
      ∀ d e s v s', Reaches b (p.start b) ⟨d, .expr e, s⟩ → eval b (invoke b d) e s = .ok v s' →
        v.DeclaredIn p := by
  have hstart := start_declared b p
  refine ⟨fun s hs => (hs.follows hstart).1, fun d e s v s' hreaches hv => ?_⟩
  have hheld := (hreaches.follows hstart).1
  exact ((eval_follows (invoke_follows _ (progress b) d) e hheld.constants).of_ok hheld.vars hv).1

/-- Functions of one program with one path are the same. -/
theorem eq_of_path {f g : Func} (hf : (Value.function f).DeclaredIn p) (hg : (Value.function g).DeclaredIn p)
    (h : f.path = g.path) : f = g := by
  obtain ⟨braces, span, hf⟩ := hf f rfl
  obtain ⟨braces', span', hg⟩ := hg g rfl
  obtain ⟨⟨name, params, body⟩, path⟩ := f
  obtain ⟨⟨name', params', body'⟩, path'⟩ := g
  subst h
  cases hf.symm.trans hg
  rfl

/-- Two functions that a program compares are equal if they are one, and this is so only if one declaration has made
them. -/
theorem equal_functions {b : Bounds} {d : Nat} {lhs rhs : Expr} {span : Span} {s s₁ s₂ : State} {f g : Func}
    (h : Reaches b (p.start b) ⟨d, .expr (.binary .eq lhs rhs span), s⟩)
    (hlhs : eval b (invoke b d) lhs s = .ok (.function f) s₁)
    (hrhs : eval b (invoke b d) rhs s₁ = .ok (.function g) s₂) :
    ∃ same, eval b (invoke b d) (.binary .eq lhs rhs span) s = .ok (.bool same) s₂ ∧ (same = true ↔ f = g) := by
  have hvalue := (functions_declared b p).2
  have hf := hvalue d lhs s _ s₁ (h.tail .left) hlhs
  have hg := hvalue d rhs s₁ _ s₂ (h.tail (.right hlhs nofun)) hrhs
  refine ⟨(Value.function f).equals (.function g) != false, ?_, ?_⟩
  · exact (bind_of_ok hlhs).trans (bind_of_ok hrhs)
  · rw [Bool.bne_false, Value.equals, decide_eq_true_iff]
    exact ⟨eq_of_path hf hg, congrArg Func.path⟩

end Program

end Scriptlet
