import Scriptlet.Proofs.Cutoff
import Scriptlet.Proofs.Mirror
import Scriptlet.Proofs.Resolution

/-!
# Appending to a program

The declarations of the top level are made before the first statement is run, so a program that is followed by another
one starts with variables that it does not have on its own. It cannot tell: a name that the check lets pass is declared
once, so the new variables stand behind its own, and it looks for no other (`Program.safe_of_clean`). Hence it does what
it does on its own, and the program behind it goes on from there (`Program.execute_append`).
-/

namespace Scriptlet

open Check Run

/-- The items of one program, and then those of another. -/
def Program.append (p q : Program) : Program := ⟨p.items ++ q.items, p.span.join q.span⟩

/-- Exchanging bodies for themselves changes nothing. -/
theorem Stmt.withBodies_id (stmt : Stmt) : stmt.withBodies id = stmt := by
  fun_induction withBodies id stmt with
  | case2 cond thenStmt span ih => rw [ih]
  | case3 cond thenStmt elseStmt span ih ih' => rw [ih, ih']
  | case4 cond stmt span ih => rw [ih]
  | _ => rfl

theorem Stmt.map_withBodies_id (stmts : List Stmt) : stmts.map (Stmt.withBodies id) = stmts := by
  have hid : Stmt.withBodies id = id := funext Stmt.withBodies_id
  rw [hid, List.map_id]

namespace Run

variable {b : Bounds} {call : Caller}

/-! ### Declarations ahead of the run -/

theorem hoist_append (path : TreePath) (items more : List Stmt) (vars : Vars) :
    hoist path (items ++ more) vars = hoist (path.skip items.length) more (hoist path items vars) := by
  induction items generalizing path vars with
  | nil => rfl
  | cons item items ih =>
    rw [List.length_cons, ← TreePath.next_skip]
    exact ih path.next _

/-- Declarations that pass the check add to the variables of the top level, and change none of them. -/
theorem hoist_extends {path : TreePath} {items : List Stmt} {tree : ScopeTree} {vars : Vars} {strict : Bool}
    {log : List (Ident × Lookup)} (h : Agree (fun _ _ => True) 0 tree [vars.get?])
    (hpasses : (declareItems items tree).Passes strict log) :
    ∃ extra, hoist path items vars = ⟨vars.entries ++ extra⟩ := by
  induction items generalizing path tree vars with
  | nil => exact ⟨[], by rw [List.append_nil]; rfl⟩
  | cons item items ih =>
    obtain ⟨symbol, made, -, -, hcheck, hrun⟩ | ⟨-, hcheck, hrun⟩ := declareItems_cons path item items
    · rw [hcheck, Checked.passes_bind] at hpasses
      obtain ⟨extra, hextra⟩ := ih (declare_global h hpasses.1 (b := made) trivial).1 hpasses.2
      refine ⟨(symbol.name, made) :: extra, ?_⟩
      rw [hrun, hextra, Table.insert_of_fresh (declare_fresh h hpasses.1)]
      simp
    · rw [hcheck] at hpasses
      rw [hrun]
      exact ih h hpasses

theorem declareItems_append {items more : List Stmt} {tree : ScopeTree} {strict : Bool} {log : List (Ident × Lookup)} :
    (declareItems (items ++ more) tree).Passes strict log ↔
      (declareItems items tree).Passes strict log ∧
        (declareItems more (declareItems items tree).value).Passes strict log := by
  induction items generalizing tree with
  | nil => exact ⟨fun h => ⟨Checked.passes_pure tree, h⟩, fun h => h.2⟩
  | cons item items ih =>
    cases item with
    | function | varDecl =>
      simp only [List.cons_append, declareItems, Checked.passes_bind, Checked.value_bind, ih, and_assoc]
    | _ => exact ih

/-! ### The appended program starts where the first one ends -/

/-- Goes on with `more`, unless what stands before has not ended normally. -/
def goOn (b : Bounds) (call : Caller) (path : TreePath) (more : List Stmt) : Signal → Run Signal
  | .normal => execAll b call path more
  | signal => return signal

theorem execAll_append (path : TreePath) (stmts more : List Stmt) :
    execAll b call path (stmts ++ more) =
      execAll b call path stmts >>= goOn b call (path.skip stmts.length) more := by
  induction stmts generalizing path with
  | nil => rfl
  | cons stmt stmts ih =>
    simp only [List.cons_append, execAll, bind_assoc]
    refine congrArg _ (funext fun _ => congrArg _ (funext fun signal => ?_))
    cases signal with
    | normal => exact (ih path.next).trans (by rw [TreePath.next_skip, List.length_cons])
    | broke | continued | returned => rfl

theorem goOn_grows (b : Bounds) (depth : Nat) (path : TreePath) (more : List Stmt) (signal : Signal) :
    Grows b (goOn b (invoke b depth) path more signal) := by
  cases signal with
  | normal =>
    intro s hs
    have hmore := execAll_follows (invoke_follows (anyValue b) (progress b) depth) path more (fun _ _ => trivial)
      s hs
    exact hmore.mono_ok fun _ _ h => ⟨trivial, h.2⟩
  | broke | continued | returned => exact .pure trivial

/-- The same run with further variables at the top level. -/
def adding (extra : List (String × Binding)) : Mirror where
  body := id
  extra := extra
  execAll_body _ _ _ stmts := by rw [Stmt.map_withBodies_id]; rfl

theorem execAll_adding (extra : List (String × Binding)) (depth : Nat) (path : TreePath) (stmts : List Stmt) :
    Mirrored (adding extra) (adding extra).signal (execAll b (invoke b depth) path stmts)
      (execAll b (invoke b depth) path stmts) := by
  have h := execAll_mirrored (b := b) (invoke_mirrored b (adding extra) depth) path stmts
  have hsame : stmts.map (Stmt.withBodies (adding extra).body) = stmts := Stmt.map_withBodies_id stmts
  rw [hsame] at h
  exact h

theorem binding_adding (extra : List (String × Binding)) (x : Binding) : (adding extra).binding x = x := by
  obtain ⟨value, declared, declaredAt⟩ := x
  cases value <;> rfl

theorem vars_adding (extra : List (String × Binding)) (vars : Vars) :
    (adding extra).vars extra vars = ⟨vars.entries ++ extra⟩ := by
  have hid : (fun entry : String × Binding => (entry.1, (adding extra).binding entry.2)) = id :=
    funext fun entry => congrArg (Prod.mk entry.1) (binding_adding extra entry.2)
  rw [Mirror.vars, hid, List.map_id]

/-- A program, followed by another one, starts as on its own with further variables at the top level. -/
theorem initial_append {p q : Program} (hclean : ∀ d ∈ (p.append q).check.diagnostics, d.severity ≠ .error)
    (b : Bounds) : ∃ extra, initial b (p.append q).items = (adding extra).state (initial b p.items) := by
  have hpasses := (Program.passes_of_clean hclean).1
  simp only [declareGlobals, Checked.passes_bind] at hpasses
  obtain ⟨hitems, hmore⟩ := declareItems_append.1 hpasses.1
  have hagree := (declareItems_hoisted (R := fun _ _ => True) .first .new hitems fun _ _ _ _ _ _ => trivial).agree
  obtain ⟨extra, hextra⟩ := hoist_extends hagree hmore
  refine ⟨extra, ?_⟩
  refine initial_mirrored (adding extra) ?_ b
  show hoist .first (p.items ++ q.items) .empty = (adding extra).vars extra (hoist .first p.items .empty)
  rw [vars_adding, hoist_append, hextra]

end Run

namespace Program

variable {p q : Program}

/-- When a program is followed by another one, then the run comes at least as far as on its own, and it fails where and
as it does on its own. -/
theorem ending_append (hflat : ∀ item ∈ p.items, item.Flat)
    (hclean : ∀ d ∈ p.check.diagnostics, d.severity ≠ .error)
    (hwhole : ∀ d ∈ (p.append q).check.diagnostics, d.severity ≠ .error) (b : Bounds) :
    (∃ signal s, p.ending b = .ok signal s ∧ s.Before (endState ((p.append q).ending b))) ∨
      ∃ failure s s', p.ending b = .error failure s ∧ (p.append q).ending b = .error failure s' ∧
        s'.sink = s.sink ∧ s'.steps = s.steps := by
  obtain ⟨extra, hinitial⟩ := initial_append hwhole b
  have hrun : Reflects _ _ (p.ending b) _ := execAll_adding extra b.limits.maxCallDepth .first p.items (initial b p.items)
  have hboth : (p.append q).ending b = andThen
      (goOn b (invoke b b.limits.maxCallDepth) (TreePath.first.skip p.items.length) q.items)
      (execAll b (invoke b b.limits.maxCallDepth) .first p.items ((adding extra).state (initial b p.items))) := by
    rw [ending, hinitial, append, execAll_append, bind_apply]
  generalize hown : p.ending b = r at hrun ⊢
  generalize execAll b (invoke b b.limits.maxCallDepth) .first p.items ((adding extra).state (initial b p.items)) = r'
    at hrun hboth
  cases hrun with
  | @ok signal s =>
    left
    have hbefore := (goOn_grows b b.limits.maxCallDepth (TreePath.first.skip p.items.length) q.items
      ((adding extra).signal signal)).before ((adding extra).state s)
    refine ⟨signal, s, rfl, ?_⟩
    rw [hboth]
    exact ⟨hbefore.steps, hbefore.output⟩
  | @error failure s =>
    right
    exact ⟨failure, s, (adding extra).state s, rfl, hboth, rfl, rfl⟩
  | @escaped name span s =>
    -- the first program would have missed a variable on its own
    exact absurd rfl (not_undefined (safe_of_clean hflat hclean b) hown name)

theorem status_ne_ok (failure : Failure) : failure.status ≠ .ok := by
  unfold Failure.status
  split <;> nofun

/-- **Appending.** A program that has been checked without an error, and is followed by another one such that the whole
has been checked without an error, does what it does on its own, within all bounds. If it ends well on its own, then
its output is the beginning of that of the whole, which takes at least as many steps; and if it fails, the whole
has the same outcome. -/
theorem execute_append (p q : Program) (hflat : ∀ item ∈ p.items, item.Flat)
    (hclean : ∀ d ∈ p.check.diagnostics, d.severity ≠ .error)
    (hwhole : ∀ d ∈ (p.append q).check.diagnostics, d.severity ≠ .error) (b : Bounds) :
    ((p.execute b).status = .ok →
      (∃ more, ((p.append q).execute b).output = (p.execute b).output ++ more) ∧
        (p.execute b).steps ≤ ((p.append q).execute b).steps) ∧
      ((p.execute b).status ≠ .ok → (p.append q).execute b = p.execute b) := by
  rcases ending_append hflat hclean hwhole b with
    ⟨signal, s, hend, hbefore⟩ | ⟨failure, s, s', hend, hend', hsink, hsteps⟩
  · obtain ⟨hsteps, houtput⟩ := execute_endState b (p.append q)
    rw [execute_of_ok hend, hsteps, houtput]
    exact ⟨fun _ => ⟨hbefore.output, hbefore.steps⟩, fun hstatus => absurd rfl hstatus⟩
  · rw [execute_of_error hend, execute_of_error hend', hsink, hsteps]
    exact ⟨fun hstatus => absurd hstatus (status_ne_ok failure), fun _ => rfl⟩

/-- Names that are local here are those of functions and variables in `laterNames`. -/
def ownNames : String :=
  "int a = 1; func f(b) \x7b let c = a + b; return c; \x7d \x7b let d = f(2); print(d); \x7d"

def laterNames : String :=
  "int c = a; func d() \x7b return f(c); \x7d print(d());"

theorem execute_append_laterNames :
    let p := (ofTokens (Tokens.ofText ownNames).tokens).program
    let q := (ofTokens (Tokens.ofText laterNames).tokens).program
    (p.check.diagnostics = [] ∧ (p.append q).check.diagnostics = []) ∧
      ((p.execute {}).status = .ok →
        (∃ more, ((p.append q).execute {}).output = (p.execute {}).output ++ more) ∧
          (p.execute {}).steps ≤ ((p.append q).execute {}).steps) ∧
      ((p.execute {}).status ≠ .ok → (p.append q).execute {} = p.execute {}) := by
  intro p q
  have hquiet : (ofTokens (Tokens.ofText ownNames).tokens).diagnostics = [] ∧ p.check.diagnostics = [] ∧
      (p.append q).check.diagnostics = [] := by
    unfold p q
    decide +kernel
  have hflat := (ofTokens_sound (Tokens.ofText_ended ownNames) hquiet.1).flat
  exact ⟨hquiet.2, execute_append p q hflat (by rw [hquiet.2.1]; exact List.forall_mem_nil _)
    (by rw [hquiet.2.2]; exact List.forall_mem_nil _) {}⟩

end Program

end Scriptlet
