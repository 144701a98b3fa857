import Scriptlet.Proofs.Cutoff
import Scriptlet.Proofs.Mirror

/-!
# Code that is never run

A statement that diverges ends the list of statements in which it stands, so those that follow it there are never
reached. Without them, in all blocks and functions (`Stmt.pruned`), a program does the same
(`Program.execute_pruned`): their absence shows in no value that the program computes with, since a function is
printed by its name, compared by where it stands, and called for its effect.
-/

namespace Scriptlet

open Run

mutual

/-- The statement without what is never reached in its blocks and functions. -/
def Stmt.pruned : Stmt → Stmt
  | .block stmts span => .block (Stmt.prunedAll stmts) span
  | .branch cond thenStmt none span => .branch cond thenStmt.pruned none span
  | .branch cond thenStmt (some elseStmt) span => .branch cond thenStmt.pruned (some elseStmt.pruned) span
  | .loop cond stmt span => .loop cond stmt.pruned span
  | .function name params stmts braces span => .function name params (Stmt.prunedAll stmts) braces span
  | .varDecl name type init span => .varDecl name type init span
  | .expr e span => .expr e span
  | .print e span => .print e span
  | .returnWith value span => .returnWith value span
  | .breakLoop span => .breakLoop span
  | .continueLoop span => .continueLoop span

/-- The statements up to the first one that diverges, each of them pruned. -/
def Stmt.prunedAll : List Stmt → List Stmt
  | [] => []
  | stmt :: stmts => if stmt.diverges then [stmt.pruned] else stmt.pruned :: Stmt.prunedAll stmts

end

/-- The top level is not cut, since its declarations hold for the whole program. -/
def Program.pruned (p : Program) : Program := { p with items := p.items.map Stmt.pruned }

mutual

/-- In its blocks and functions, a statement that diverges is the last one. -/
def Stmt.Tight : Stmt → Prop
  | .block stmts _ | .function _ _ stmts _ _ => Stmt.TightAll stmts
  | .branch _ thenStmt none _ => thenStmt.Tight
  | .branch _ thenStmt (some elseStmt) _ => thenStmt.Tight ∧ elseStmt.Tight
  | .loop _ stmt _ => stmt.Tight
  | _ => True

def Stmt.TightAll : List Stmt → Prop
  | [] => True
  | stmt :: stmts => stmt.Tight ∧ (stmt.diverges = true → stmts = []) ∧ Stmt.TightAll stmts

end

namespace Stmt

theorem diverges_pruned (stmt : Stmt) : stmt.pruned.diverges = stmt.diverges := by
  cases stmt with
  | branch cond thenStmt elseStmt span => cases elseStmt <;> rfl
  | _ => rfl

mutual

theorem tight_pruned : ∀ stmt : Stmt, stmt.pruned.Tight
  | .block stmts _ | .function _ _ stmts _ _ => tightAll_prunedAll stmts
  | .branch _ thenStmt none _ => tight_pruned thenStmt
  | .branch _ thenStmt (some elseStmt) _ => ⟨tight_pruned thenStmt, tight_pruned elseStmt⟩
  | .loop _ stmt _ => tight_pruned stmt
  | .varDecl .. | .expr .. | .print .. | .returnWith .. | .breakLoop _ | .continueLoop _ => trivial

theorem tightAll_prunedAll : ∀ stmts : List Stmt, TightAll (prunedAll stmts)
  | [] => trivial
  | stmt :: stmts => by
    have hstmt := tight_pruned stmt
    have hrest := tightAll_prunedAll stmts
    unfold prunedAll
    split
    · exact ⟨hstmt, fun _ => rfl, trivial⟩
    · next hgoes =>
      refine ⟨hstmt, fun hdiverges => ?_, hrest⟩
      rw [diverges_pruned] at hdiverges
      exact absurd hdiverges hgoes

end

mutual

theorem pruned_of_tight : ∀ stmt : Stmt, stmt.Tight → stmt.pruned = stmt
  | .block stmts _, h | .function _ _ stmts _ _, h => by
    simp only [pruned, prunedAll_of_tight stmts h]
  | .branch _ thenStmt none _, h => by
    simp only [pruned, pruned_of_tight thenStmt h]
  | .branch _ thenStmt (some elseStmt) _, h => by
    simp only [pruned, pruned_of_tight thenStmt h.1, pruned_of_tight elseStmt h.2]
  | .loop _ stmt _, h => by
    simp only [pruned, pruned_of_tight stmt h]
  | .varDecl .., _ | .expr .., _ | .print .., _ | .returnWith .., _ | .breakLoop _, _ | .continueLoop _, _ => rfl

theorem prunedAll_of_tight : ∀ stmts : List Stmt, TightAll stmts → prunedAll stmts = stmts
  | [], _ => rfl
  | stmt :: stmts, ⟨hstmt, hlast, hrest⟩ => by
    simp only [prunedAll, pruned_of_tight stmt hstmt]
    split
    · next hdiverges => rw [hlast hdiverges]
    · rw [prunedAll_of_tight stmts hrest]

end

/-- Pruning a statement is pruning its bodies. -/
theorem withBodies_prunedAll : ∀ stmt : Stmt, stmt.withBodies prunedAll = stmt.pruned
  | .block .. | .function .. => rfl
  | .branch _ thenStmt none _ => by
    simp only [pruned, withBodies, withBodies_prunedAll thenStmt]
  | .branch _ thenStmt (some elseStmt) _ => by
    simp only [pruned, withBodies, withBodies_prunedAll thenStmt, withBodies_prunedAll elseStmt]
  | .loop _ stmt _ => by
    simp only [pruned, withBodies, withBodies_prunedAll stmt]
  | .varDecl .. | .expr .. | .print .. | .returnWith .. | .breakLoop _ | .continueLoop _ => rfl

end Stmt

namespace Run

variable {b : Bounds} {call : Caller}

/-- Nothing that follows a statement that diverges is run. -/
theorem execAll_of_diverges {path : TreePath} {stmt : Stmt} (h : stmt.diverges = true) (stmts : List Stmt) :
    execAll b call path (stmt :: stmts) = execAll b call path [stmt] := by
  cases stmt with
  | returnWith value span => simp only [execAll, exec, bind_assoc, pure_bind]
  | breakLoop span | continueLoop span => simp only [execAll, exec, pure_bind]
  | _ => cases h

theorem execAll_prunedAll (b : Bounds) (call : Caller) (path : TreePath) (stmts : List Stmt) :
    execAll b call path (Stmt.prunedAll stmts) =
      execAll b call path (stmts.map (Stmt.withBodies Stmt.prunedAll)) := by
  induction stmts generalizing path with
  | nil => rfl
  | cons stmt stmts ih =>
    rw [List.map_cons, Stmt.withBodies_prunedAll]
    unfold Stmt.prunedAll
    split
    · next hdiverges => rw [execAll_of_diverges (stmt.diverges_pruned.trans hdiverges) (stmts.map _)]
    · simp only [execAll, ih]

/-- The run of the pruned program, as a mirror of the other one. -/
def pruning : Mirror where
  body := Stmt.prunedAll
  extra := []
  execAll_body := execAll_prunedAll

theorem map_pruned (items : List Stmt) : items.map (Stmt.withBodies pruning.body) = items.map Stmt.pruned :=
  List.map_congr_left fun stmt _ => stmt.withBodies_prunedAll

theorem execAll_pruned (b : Bounds) (depth : Nat) (path : TreePath) (stmts : List Stmt) :
    Mirrored pruning pruning.signal (execAll b (invoke b depth) path stmts)
      (execAll b (invoke b depth) path (stmts.map Stmt.pruned)) := by
  rw [← map_pruned]
  exact execAll_mirrored (invoke_mirrored b pruning depth) path stmts

theorem initial_pruned (b : Bounds) (items : List Stmt) :
    initial b (items.map Stmt.pruned) = pruning.state (initial b items) := by
  refine initial_mirrored pruning ?_ b
  rw [← map_pruned]
  exact hoist_withBodies pruning .first items .empty

end Run

namespace Program

theorem ending_pruned (b : Bounds) (p : Program) :
    Reflects pruning pruning.signal (p.ending b) (p.pruned.ending b) := by
  unfold ending pruned
  rw [initial_pruned]
  exact execAll_pruned b b.limits.maxCallDepth .first p.items (initial b p.items)

/-- **Code that is never run.** Without the statements that follow one that diverges, in all blocks and functions at
any depth, a program has the same outcome within all bounds. What is left has no such statements, and a program
without them is left as it is. -/
theorem execute_pruned (b : Bounds) (p : Program) :
    p.pruned.execute b = p.execute b ∧ (∀ item ∈ p.pruned.items, item.Tight) ∧
      ((∀ item ∈ p.items, item.Tight) → p.pruned = p) := by
  refine ⟨?_, ?_, fun h => ?_⟩
  · have hend := ending_pruned b p
    generalize hp : p.ending b = r at hend
    generalize hq : p.pruned.ending b = r' at hend
    cases hend with
    | ok =>
      rw [execute_of_ok hp, execute_of_ok hq]
      rfl
    | error =>
      rw [execute_of_error hp, execute_of_error hq]
      rfl
    | escaped h => exact absurd rfl h
  · intro item hitem
    obtain ⟨original, -, rfl⟩ := List.mem_map.1 hitem
    exact original.tight_pruned
  · have hitems : p.items.map Stmt.pruned = p.items.map id :=
      List.map_congr_left fun item hitem => item.pruned_of_tight (h item hitem)
    rw [List.map_id] at hitems
    exact congrArg (fun items => { p with items }) hitems

end Program

end Scriptlet
