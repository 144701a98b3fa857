import Scriptlet.Proofs.Echoes
import Scriptlet.Proofs.GlobalSymbols
import Scriptlet.Proofs.Occurrences

/-!
# Lexical scoping

What a name means can be read off the program: an occurrence of it is surrounded by scopes, and the innermost
one that introduces the name decides (`nameFault`). A check keeps a tree of scopes instead, in which names are
announced, declared and looked up. The two agree: at every occurrence the chain of scopes of the check tells
the same as the surroundings (`Stands`), so a check reports just the occurrences that are at fault
(`Program.name_reports_lexical`).
-/

namespace Scriptlet

/-! ### Occurrences and what surrounds them -/

/-- A scope around an occurrence of a name. -/
inductive Surrounding where
  /-- the top level with its statements -/
  | top (items : List Stmt)
  /-- The body of a function with its parameters, or a block, which has none. The statements of `before`
  come before the one with the occurrence. -/
  | body (params : List Param) (stmts before : List Stmt)
  /-- a branch or the body of a loop that brings no braces -/
  | unbraced

namespace Surrounding

/-- The names that the scope introduces. -/
def introduced : Surrounding → List String
  | top items => Stmt.declaredNames items
  | body params stmts _ => params.map (·.name.name) ++ Stmt.declaredNames stmts
  | unbraced => []

/-- The names that may be used where the occurrence stands: all names of the top level, parameters, and
variables of a body if a declaration of them is complete. -/
def usable : Surrounding → List String
  | top items => Stmt.declaredNames items
  | body params _ before => params.map (·.name.name) ++ Stmt.declaredNames before
  | unbraced => []

end Surrounding

/-- What is wrong with a name. The innermost scope that introduces it counts. -/
def nameFault (around : List Surrounding) (name : String) : Option Code :=
  match around.find? (name ∈ ·.introduced) with
  | none => some .undeclaredIdentifier
  | some scope => if name ∈ scope.usable then none else some .useBeforeDeclaration

/-- What surrounds a branch. -/
def Stmt.branchAround (around : List Surrounding) (stmt : Stmt) : List Surrounding :=
  if Check.needsScope stmt then .unbraced :: around else around

mutual

/-- The occurrences of names in a statement, each with what surrounds it, innermost first. -/
def Stmt.occurrences (around : List Surrounding) : Stmt → List (Ident × List Surrounding)
  | .varDecl _ _ init _ => (Expr.usesOption init).map (·, around)
  | .expr e _ | .print e _ => e.uses.map (·, around)
  | .block body _ => Stmt.occurrencesIn (.body [] body) around [] body
  | .branch cond thenStmt none _ =>
    cond.uses.map (·, around) ++ thenStmt.occurrences (thenStmt.branchAround around)
  | .branch cond thenStmt (some elseStmt) _ =>
    cond.uses.map (·, around) ++ (thenStmt.occurrences (thenStmt.branchAround around) ++
      elseStmt.occurrences (elseStmt.branchAround around))
  | .loop cond body _ => cond.uses.map (·, around) ++ body.occurrences (body.branchAround around)
  | .function _ params body _ _ => Stmt.occurrencesIn (.body params body) around [] body
  | .returnWith value _ => (Expr.usesOption value).map (·, around)
  | .breakLoop _ | .continueLoop _ => []

/-- The occurrences in a row of statements in one scope, of which `before` has been passed. -/
def Stmt.occurrencesIn (scope : List Stmt → Surrounding) (around : List Surrounding) (before : List Stmt) :
    List Stmt → List (Ident × List Surrounding)
  | [] => []
  | s :: ss => s.occurrences (scope before :: around) ++ Stmt.occurrencesIn scope around (before ++ [s]) ss

end

def Program.occurrences (p : Program) : List (Ident × List Surrounding) :=
  Stmt.occurrencesIn (fun _ => .top p.items) [] [] p.items

theorem names_around (names : List Ident) (around : List Surrounding) :
    (names.map (·, around)).map (·.1) = names := by
  rw [List.map_map]
  exact List.map_id names

mutual

/-- These are the names in use, in the order of the text. -/
theorem Stmt.occurrences_names (around : List Surrounding) : ∀ s : Stmt, (s.occurrences around).map (·.1) = s.uses
  | .varDecl _ _ _ _ | .returnWith _ _ | .expr _ _ | .print _ _ => names_around _ around
  | .block body _ | .function _ _ body _ _ => occurrencesIn_names _ around [] body
  | .branch cond thenStmt none _ => by
    rw [occurrences, uses, List.map_append, names_around, occurrences_names _ thenStmt]
  | .branch cond thenStmt (some elseStmt) _ => by
    rw [occurrences, uses, List.map_append, List.map_append, names_around, occurrences_names _ thenStmt,
      occurrences_names _ elseStmt]
  | .loop cond body _ => by
    rw [occurrences, uses, List.map_append, names_around, occurrences_names _ body]
  | .breakLoop _ | .continueLoop _ => rfl

theorem Stmt.occurrencesIn_names (scope : List Stmt → Surrounding) (around : List Surrounding)
    (before : List Stmt) : ∀ ss : List Stmt, (occurrencesIn scope around before ss).map (·.1) = usesAll ss
  | [] => rfl
  | s :: ss => by
    rw [occurrencesIn, usesAll, List.map_append, occurrences_names _ s, occurrencesIn_names scope around _ ss]

end

/-! ### What scopes tell about names -/

/-- What is wrong with a name that has been looked up. -/
def Lookup.fault : Lookup → Option Code
  | .found _ => none
  | .notYetDeclared _ => some .useBeforeDeclaration
  | .missing => some .undeclaredIdentifier

/-- What the scope tells about a name that it introduces. -/
def Surrounding.tells (a : Surrounding) (name : String) : Option (Option Code) :=
  if name ∈ a.introduced then some (if name ∈ a.usable then none else some .useBeforeDeclaration) else none

namespace Surrounding

variable {a a' : Surrounding} {y : String}

theorem tells_of_usable (h : y ∈ a.introduced) (husable : y ∈ a.usable) : a.tells y = some none := by
  rw [tells, if_pos h, if_pos husable]

theorem tells_of_early (h : y ∈ a.introduced) (husable : y ∉ a.usable) :
    a.tells y = some (some .useBeforeDeclaration) := by
  rw [tells, if_pos h, if_neg husable]

theorem tells_of_unknown (h : y ∉ a.introduced) : a.tells y = none := if_neg h

theorem tells_congr (h : y ∈ a'.introduced ↔ y ∈ a.introduced) (husable : y ∈ a'.usable ↔ y ∈ a.usable) :
    a'.tells y = a.tells y := by
  unfold tells
  simp only [h, husable]

end Surrounding

theorem Scope.fault_local? (s : Scope) (name : String) : (s.local? name).map Lookup.fault =
    if (s.symbols.get? name).isSome then some none
    else if (s.pending.get? name).isSome then some (some .useBeforeDeclaration) else none := by
  unfold Scope.local?
  cases s.symbols.get? name with
  | some symbol => rfl
  | none => cases s.pending.get? name <;> rfl

/-- A scope of the check tells what a scope of the program tells. -/
def Scope.Tells (s : Scope) (a : Surrounding) : Prop :=
  ∀ name, (s.local? name).map Lookup.fault = a.tells name

theorem nameFault_cons (a : Surrounding) (around : List Surrounding) (name : String) :
    nameFault (a :: around) name = (a.tells name).getD (nameFault around name) := by
  unfold nameFault Surrounding.tells
  by_cases hname : name ∈ a.introduced
  · rw [List.find?_cons, decide_eq_true hname, if_pos hname]
    rfl
  · rw [List.find?_cons, decide_eq_false hname, if_neg hname]
    rfl

/-- Scopes of a check that tell the same as those around an occurrence find the same fault. -/
theorem fault_lookup {t : ScopeTree} {id : Nat} {around : List Surrounding}
    (h : List.Forall₂ Scope.Tells (t.chain id) around) (name : String) :
    (t.lookup id name).fault = nameFault around name := by
  fun_induction t.lookup id name generalizing around with
  | case1 id result hlocal =>
    rw [t.chain_eq_cons id] at h
    cases h with
    | cons hhead htail =>
      have hname := hhead name
      rw [hlocal, Option.map_some] at hname
      rw [nameFault_cons, ← hname]
      rfl
  | case2 id hlocal parent hparent hlt ih =>
    rw [ScopeTree.chain_of_parent hparent hlt] at h
    cases h with
    | cons hhead htail =>
      have hname := hhead name
      rw [hlocal, Option.map_none] at hname
      rw [nameFault_cons, ← hname]
      exact ih htail
  | case3 id hlocal parent hparent hlt =>
    rw [ScopeTree.chain, hparent] at h
    simp only [if_neg hlt, List.forall₂_cons_left_iff, List.forall₂_nil_left_iff] at h
    obtain ⟨a, around, hhead, rfl, rfl⟩ := h
    have hname := hhead name
    rw [hlocal, Option.map_none] at hname
    rw [nameFault_cons, ← hname]
    rfl
  | case4 id hlocal hparent =>
    rw [ScopeTree.chain, hparent] at h
    simp only [List.forall₂_cons_left_iff, List.forall₂_nil_left_iff] at h
    obtain ⟨a, around, hhead, rfl, rfl⟩ := h
    have hname := hhead name
    rw [hlocal, Option.map_none] at hname
    rw [nameFault_cons, ← hname]
    rfl

theorem Stmt.declaredNames_concat (stmts : List Stmt) (s : Stmt) :
    declaredNames (stmts ++ [s]) = declaredNames stmts ++ (s.declared?.map (·.name)).toList := by
  unfold declaredNames
  rw [List.filterMap_append, List.map_append]
  cases hname : s.declared? with
  | none => rw [List.filterMap_cons_none hname]; rfl
  | some name => rw [List.filterMap_cons_some hname]; rfl

theorem Stmt.mem_declaredNames {stmts : List Stmt} {s : Stmt} {name : Ident} (h : s ∈ stmts)
    (hname : s.declared? = some name) : name.name ∈ declaredNames stmts :=
  List.mem_map.2 ⟨name, List.mem_filterMap.2 ⟨s, h, hname⟩, rfl⟩

/-! ### Changes of the innermost scope -/

/-- The scopes of a check tell the same as those around an occurrence. -/
structure Stands (tree : ScopeTree) (scope : Nat) (around : List Surrounding) : Prop where
  inside : scope < tree.size
  tells : List.Forall₂ Scope.Tells (tree.chain scope) around

namespace Stands

variable {tree : ScopeTree} {scope : Nat} {a a' : Surrounding} {around : List Surrounding}

theorem head (h : Stands tree scope (a :: around)) : (tree.scope scope).Tells a := by
  have htells := h.tells
  rw [tree.chain_eq_cons] at htells
  cases htells with
  | cons hhead => exact hhead

/-- A new scope, in which no name is known. -/
theorem push (h : Stands tree scope around) (ha : a.introduced = []) :
    Stands (tree.push scope) tree.size (a :: around) := by
  refine ⟨by rw [ScopeTree.size_push]; exact Nat.lt_succ_self _, ?_⟩
  rw [ScopeTree.chain_push h.inside]
  refine .cons (fun name => ?_) h.tells
  rw [Surrounding.tells, ha, if_neg List.not_mem_nil]
  rfl

theorem congr (h : Stands tree scope (a :: around)) (ha : ∀ y, a'.tells y = a.tells y) :
    Stands tree scope (a' :: around) := by
  refine ⟨h.inside, ?_⟩
  have htells := h.tells
  rw [tree.chain_eq_cons] at htells ⊢
  cases htells with
  | cons hhead htail => exact .cons (fun y => (hhead y).trans (ha y).symm) htail

theorem modify {f : Scope → Scope} (h : Stands tree scope (a :: around)) (hparent : ∀ s, (f s).parent = s.parent)
    (hhead : (f (tree.scope scope)).Tells a') : Stands (tree.modify scope f) scope (a' :: around) := by
  refine ⟨by rw [ScopeTree.size_modify]; exact h.inside, ?_⟩
  rw [ScopeTree.chain_modify hparent h.inside]
  have htells := h.tells
  rw [tree.chain_eq_cons] at htells
  cases htells with
  | cons _ htail => exact .cons hhead htail

/-- A name that is announced is introduced, if it has not been so far, and may not be used yet. -/
theorem announceName {name : String} (span : Span) (h : Stands tree scope (a :: around))
    (ha : ∀ y, a'.tells y = (a.tells y).or (if y = name then some (some .useBeforeDeclaration) else none)) :
    Stands (tree.announce scope name span) scope (a' :: around) := by
  refine h.modify (fun s => by split <;> rfl) fun y => ?_
  rw [ha, ← h.head y]
  generalize tree.scope scope = s
  rw [Scope.fault_local?, Scope.fault_local?]
  by_cases hy : y = name
  · subst hy
    by_cases hcontains : s.pending.contains y = true
    · have hpending : (s.pending.get? y).isSome = true := hcontains
      rw [if_pos hcontains, hpending]
      split <;> rfl
    · have hpending : ¬(s.pending.get? y).isSome = true := hcontains
      rw [if_neg hcontains, if_neg hpending, Table.get?_insert_self, if_pos (rfl : y = y)]
      dsimp only
      split <;> rfl
  · rw [if_neg hy, Option.or_none]
    split
    · rfl
    · rw [Table.get?_insert_of_ne hy]

/-- A name that is declared may be used, whether it has been declared before or not. -/
theorem declare {symbol : Symbol} (h : Stands tree scope (a :: around))
    (ha : ∀ y, a'.tells y = if y = symbol.name then some none else a.tells y) :
    Stands (Check.declare tree scope symbol).value scope (a' :: around) := by
  unfold Check.declare ScopeTree.declare
  cases htaken : tree.lookupLocal scope symbol.name with
  | some existing =>
    refine h.congr fun y => ?_
    rw [ha]
    split
    · next hy =>
      subst hy
      have hsymbol : (tree.scope scope).symbols.get? symbol.name = some existing := htaken
      rw [← h.head symbol.name, Scope.local?, hsymbol]
      rfl
    · rfl
  | none =>
    refine h.modify (fun _ => rfl) fun y => ?_
    rw [ha, ← h.head y, Scope.fault_local?, Scope.fault_local?, Table.get?_insert, Table.get?_erase]
    split <;> rfl

theorem updateGlobal (h : Stands tree 0 (a :: around)) (name : Ident) (f : Symbol → Symbol) :
    Stands (Check.updateGlobal tree name f) 0 (a :: around) := by
  unfold Check.updateGlobal ScopeTree.updateLocal
  split
  · next symbol hsymbol =>
    refine h.modify (fun _ => rfl) fun y => ?_
    rw [← h.head y, Scope.fault_local?, Scope.fault_local?, Table.get?_insert]
    have hfound : ((tree.scope 0).symbols.get? name.name).isSome = true := Option.isSome_of_eq_some hsymbol
    split
    · next hy =>
      rw [hy, hfound]
      rfl
    · rfl
  · exact h

theorem branch {c : Check.Context} (h : Stands tree c.scope around) (s : Stmt) :
    Stands (Check.branchTree c tree s) (Check.branchContext c tree s).scope (s.branchAround around) := by
  unfold Check.branchTree Check.branchContext Stmt.branchAround
  split
  · exact h.push rfl
  · exact h

/-! ### Bodies -/

variable {params : List Param} {stmts before : List Stmt} {s : Stmt}

theorem declareParams (h : Stands tree scope (.body [] [] [] :: around)) (params : List Param) :
    Stands (Check.declareParams scope params tree).value scope (.body params [] [] :: around) := by
  -- the parameters declared so far come first
  suffices hall : ∀ pre, Stands tree scope (.body pre [] [] :: around) →
      Stands (Check.declareParams scope params tree).value scope (.body (pre ++ params) [] [] :: around) from
    hall [] h
  clear h
  induction params generalizing tree with
  | nil =>
    intro pre h
    rw [List.append_nil]
    exact h
  | cons param params ih =>
    intro pre h
    rw [List.append_cons]
    refine ih (pre ++ [param]) (h.declare fun y => ?_)
    split
    · next hy =>
      have hmem : y ∈ (pre ++ [param]).map (·.name.name) := by
        rw [hy, List.map_append]
        exact List.mem_append_right _ List.mem_cons_self
      exact Surrounding.tells_of_usable (List.mem_append_left _ hmem) (List.mem_append_left _ hmem)
    · next hy =>
      have hne : y ≠ param.name.name := hy
      apply Surrounding.tells_congr <;> simp [Surrounding.introduced, Surrounding.usable, hne]

theorem announce (h : Stands tree scope (.body params [] [] :: around)) (stmts : List Stmt) :
    Stands (Check.announce scope stmts tree) scope (.body params stmts [] :: around) := by
  -- what has been announced so far comes first
  suffices hall : ∀ pre, Stands tree scope (.body params pre [] :: around) →
      Stands (Check.announce scope stmts tree) scope (.body params (pre ++ stmts) [] :: around) from
    hall [] h
  clear h
  induction stmts generalizing tree with
  | nil =>
    intro pre h
    rw [List.append_nil]
    exact h
  | cons s stmts ih =>
    intro pre h
    rw [List.append_cons, Check.announce_cons]
    refine ih (pre ++ [s]) ?_
    cases hname : s.declared? with
    | none =>
      refine h.congr fun y => Surrounding.tells_congr ?_ Iff.rfl
      simp only [Surrounding.introduced, Stmt.declaredNames_concat, hname, Option.map_none, Option.toList_none,
        List.append_nil]
    | some name =>
      refine h.announceName name.span fun y => ?_
      have hintroduced : y ∈ (Surrounding.body params (pre ++ [s]) []).introduced ↔
          y ∈ (Surrounding.body params pre []).introduced ∨ y = name.name := by
        simp only [Surrounding.introduced, Stmt.declaredNames_concat, hname, Option.map_some, Option.toList_some,
          List.mem_append, List.mem_singleton, or_assoc]
      by_cases hold : y ∈ (Surrounding.body params pre []).introduced
      · have hsame : (Surrounding.body params (pre ++ [s]) []).tells y = (Surrounding.body params pre []).tells y :=
          Surrounding.tells_congr (iff_of_true (hintroduced.2 (.inl hold)) hold) Iff.rfl
        rw [hsame, Surrounding.tells, if_pos hold]
        rfl
      · rw [Surrounding.tells_of_unknown hold, Option.none_or]
        split
        · next hy =>
          refine Surrounding.tells_of_early (hintroduced.2 (.inr hy)) fun husable => hold ?_
          have hparam : y ∈ params.map (·.name.name) := by
            simpa [Surrounding.usable, Stmt.declaredNames] using husable
          exact List.mem_append_left _ hparam
        · next hy => exact Surrounding.tells_of_unknown fun hnew => (hintroduced.1 hnew).elim hold hy

/-- Checking a statement completes its declaration. -/
theorem checkStmt {c : Check.Context} (h : Stands tree c.scope (.body params stmts before :: around))
    (hscope : c.scope ≠ 0) (hmem : s ∈ stmts) (hflat : s.functions = []) :
    Stands (Check.checkStmt c tree s).value c.scope (.body params stmts (before ++ [s]) :: around) := by
  have hkept (hname : s.declared? = none) :
      Stands tree c.scope (.body params stmts (before ++ [s]) :: around) := by
    refine h.congr fun y => Surrounding.tells_congr Iff.rfl ?_
    simp only [Surrounding.usable, Stmt.declaredNames_concat, hname, Option.map_none, Option.toList_none,
      List.append_nil]
  cases s with
  | varDecl name type init span =>
    simp only [Check.checkStmt, Checked.value_bind, Check.declareVariable, if_neg hscope]
    refine h.declare fun y => ?_
    have husable : y ∈ (Surrounding.body params stmts (before ++ [.varDecl name type init span])).usable ↔
        y ∈ (Surrounding.body params stmts before).usable ∨ y = name.name := by
      simp only [Surrounding.usable, Stmt.declaredNames_concat, Stmt.declared?, Option.map_some,
        Option.toList_some, List.mem_append, List.mem_singleton, or_assoc]
    split
    · next hy =>
      refine Surrounding.tells_of_usable (List.mem_append_right _ ?_) (husable.2 (.inr hy))
      rw [hy]
      exact Stmt.mem_declaredNames hmem rfl
    · next hy => exact Surrounding.tells_congr Iff.rfl (husable.trans (or_iff_left hy))
  | function => cases hflat
  | branch cond thenStmt elseStmt span => cases elseStmt <;> exact hkept rfl
  | returnWith value span =>
    simp only [Check.checkStmt]
    split <;> exact hkept rfl
  | breakLoop span | continueLoop span =>
    simp only [Check.checkStmt]
    split <;> exact hkept rfl
  | _ => exact hkept rfl

end Stands

/-! ### Reports about names -/

/-- Whether a report says that a name is not declared, or not yet. -/
def Code.concernsName (code : Code) : Bool := code = .undeclaredIdentifier ∨ code = .useBeforeDeclaration

/-- The reports of this kind, by their codes and places. -/
def nameReports (diagnostics : List Diagnostic) : List (Code × Span) :=
  (diagnostics.filter (·.code.concernsName)).map fun d => (d.code, d.span)

/-- The fault of an occurrence, with its place. -/
def occurrenceFault (occurrence : Ident × List Surrounding) : Option (Code × Span) :=
  (nameFault occurrence.2 occurrence.1.name).map (·, occurrence.1.span)

namespace Checked

variable {α β : Type} {fault : String → Option Code} {x : Checked α}

/-- The check reports the names that it has looked up and that are at fault, and no others. -/
def Blames (fault : String → Option Code) (x : Checked α) : Prop :=
  nameReports x.diagnostics = x.names.filterMap fun name => (fault name.name).map (·, name.span)

theorem nameReports_append (ds ds' : List Diagnostic) :
    nameReports (ds ++ ds') = nameReports ds ++ nameReports ds' := by
  rw [nameReports, List.filter_append, List.map_append]
  rfl

namespace Blames

theorem pure (a : α) : Blames fault (pure a) := rfl

theorem bind {f : α → Checked β} (hx : Blames fault x) (hf : Blames fault (f x.value)) :
    Blames fault (x >>= f) := by
  rw [Blames, diagnostics_bind, nameReports_append, names_bind, List.filterMap_append, hx, hf]

/-- Another fault. -/
theorem report {f : Check.Fault} (span : Span) (hcode : f.code.concernsName = false) :
    Blames fault (report f span) := by
  have hfilter : (f.diagnostic span).code.concernsName = false := hcode
  simp only [Blames, Checked.report, nameReports, List.filter_cons, hfilter]
  rfl

theorem ite {c : Prop} [Decidable c] {y : Checked α} (hx : Blames fault x) (hy : Blames fault y) :
    Blames fault (if c then x else y) := by
  split
  · exact hx
  · exact hy

end Blames

end Checked

namespace Check

open Checked (Blames)

/-! ### Expressions -/

/-- What is wrong with a name where an expression stands. -/
def View.fault (v : View) (name : String) : Option Code := (v.tree.lookup v.scope name).fault

theorem symbol_blames (v : View) (name : Ident) : Blames v.fault (v.symbol name) := by
  have hfault : v.fault name.name = (v.tree.lookup v.scope name.name).fault := rfl
  rw [Blames, names_symbol, List.filterMap_cons, hfault, View.symbol]
  cases v.tree.lookup v.scope name.name <;> rfl

theorem readSymbol_blames (v : View) (name : Ident) : Blames v.fault (v.readSymbol name) := by
  refine .bind (symbol_blames v name) ?_
  split
  · exact .pure _
  · exact .ite (.bind (.report _ rfl) (.pure _)) (.pure _)

section

variable {fault : String → Option Code}

theorem checkArgTypes_blames (name : String) (index : Nat) (params : List Ty) (args : List (Ty × Span)) :
    Blames fault (checkArgTypes name index params args) := by
  induction params generalizing index args with
  | nil => exact .pure _
  | cons expected params ih =>
    cases args with
    | nil => exact .pure _
    | cons arg args => exact .ite (.bind (.report _ rfl) (ih _ _)) (ih _ _)

theorem checkKnownCall_blames (name : String) (params : List Ty) (args : List (Ty × Span)) (span : Span) :
    Blames fault (checkKnownCall name params args span) :=
  .ite (checkArgTypes_blames _ _ _ _) (.report _ rfl)

theorem checkCallable_blames (name : String) (type : Ty) (span : Span) :
    Blames fault (checkCallable name type span) := .ite (.pure _) (.report _ rfl)

theorem checkNamedCall_blames (name : Ident) (symbol : Option Symbol) (args : List (Ty × Span)) (span : Span) :
    Blames fault (checkNamedCall name symbol args span) := by
  cases symbol with
  | none => exact .pure _
  | some symbol =>
    simp only [checkNamedCall]
    split
    · exact .bind (checkKnownCall_blames _ _ _ _) (.pure _)
    · exact .ite (.bind (checkCallable_blames _ _ _) (.pure _)) (.pure _)

theorem checkAssign_blames (target : Ident) (symbol : Option Symbol) (found : Ty) (span : Span) :
    Blames fault (checkAssign target symbol found span) := by
  cases symbol with
  | none => exact .pure _
  | some symbol => exact .ite (.report _ rfl) (.ite (.pure _) (.report _ rfl))

end

mutual

/-- Checking an expression reports the names in it that are at fault. -/
theorem checkExpr_blames (v : View) : ∀ e : Expr, Blames v.fault (checkExpr v e)
  | .literal .. => .pure _
  | .ident name => .bind (readSymbol_blames v name) (.pure _)
  | .assign target value _ =>
    .bind (checkExpr_blames v value) (.bind (symbol_blames v target) (.bind (checkAssign_blames _ _ _ _) (.pure _)))
  | .binary op lhs rhs span => by
    unfold checkExpr
    refine .bind (checkExpr_blames v lhs) (.bind (checkExpr_blames v rhs) ?_)
    split
    · exact .pure _
    · exact .bind (.report _ rfl) (.pure _)
  | .unary op operand span => by
    unfold checkExpr
    refine .bind (checkExpr_blames v operand) ?_
    split
    · exact .pure _
    · exact .bind (.report _ rfl) (.pure _)
  | .call callee args span => by
    have hargs := checkArgs_blames v args
    have hcallee := checkExpr_blames v callee
    by_cases hident : ∃ name, callee = .ident name
    · obtain ⟨name, rfl⟩ := hident
      rw [checkExpr_call_ident]
      exact .bind hargs (.bind (readSymbol_blames v name) (checkNamedCall_blames _ _ _ _))
    · rw [checkExpr_call_of_ne_ident fun name heq => hident ⟨name, heq⟩]
      exact .bind hargs (.bind hcallee (.bind (checkCallable_blames _ _ _) (.pure _)))

theorem checkArgs_blames (v : View) : ∀ es : List Expr, Blames v.fault (checkArgs v es)
  | [] => .pure _
  | e :: es => .bind (checkExpr_blames v e) (.bind (checkArgs_blames v es) (.pure _))

end

theorem checkOption_blames (v : View) : ∀ e : Option Expr, Blames v.fault (checkOption v e)
  | none => .pure _
  | some e => .bind (checkExpr_blames v e) (.pure _)

theorem checkInit_blames (v : View) (name : Ident) (type : Option TypeName) (init : Option Expr) :
    Blames v.fault (checkInit v name type init) := by
  refine .bind (checkOption_blames v init) ?_
  split
  · exact .ite (.bind (.report _ rfl) (.pure _)) (.pure _)
  all_goals exact .pure _

theorem checkCondition_blames (v : View) (word : String) (cond : Expr) :
    Blames v.fault (checkCondition v word cond) :=
  .bind (checkExpr_blames v cond) (.ite (.report _ rfl) (.pure _))

/-! ### Statements -/

/-- The reports of a check about names are those that the occurrences call for. -/
def Answers {α : Type} (occurrences : List (Ident × List Surrounding)) (x : Checked α) : Prop :=
  (nameReports x.diagnostics).Perm (occurrences.filterMap occurrenceFault)

namespace Answers

variable {α β : Type} {os os' : List (Ident × List Surrounding)} {x y : Checked α} {f : α → Checked β}
  {around : List Surrounding}

theorem pure (a : α) : Answers [] (pure a) := .nil

theorem report {f : Fault} (span : Span) (hcode : f.code.concernsName = false) :
    Answers [] (Checked.report f span) := by
  have hblames : Blames (fun _ => none) (Checked.report f span) := .report span hcode
  exact .of_eq hblames

theorem bind (hx : Answers os x) (hf : Answers os' (f x.value)) : Answers (os ++ os') (x >>= f) := by
  rw [Answers, Checked.diagnostics_bind, Checked.nameReports_append, List.filterMap_append]
  exact List.Perm.append hx hf

theorem bind_quiet (hx : Answers os x) (hf : Answers [] (f x.value)) : Answers os (x >>= f) := by
  have hboth := hx.bind hf
  rwa [List.append_nil] at hboth

theorem quiet_bind (hx : Answers [] x) (hf : Answers os (f x.value)) : Answers os (x >>= f) := hx.bind hf

theorem ite {c : Prop} [Decidable c] (hx : Answers os x) (hy : Answers os y) :
    Answers os (if c then x else y) := by
  split
  · exact hx
  · exact hy

/-- What an expression reports is right where it stands. -/
theorem of_blames {v : View} {uses : List Ident} (h : Stands v.tree v.scope around) (hx : Blames v.fault x)
    (hnames : x.names.Perm uses) : Answers (uses.map (·, around)) x := by
  have hfault : v.fault = nameFault around := funext fun name => fault_lookup h.tells name
  rw [Answers, hx, List.filterMap_map, hfault]
  exact hnames.filterMap _

end Answers

theorem declare_answers (tree : ScopeTree) (scope : Nat) (symbol : Symbol) :
    Answers [] (declare tree scope symbol) := by
  unfold declare
  split
  · exact .pure _
  · exact .quiet_bind (.report _ rfl) (.pure _)

theorem declareParams_answers (scope : Nat) (params : List Param) (tree : ScopeTree) :
    Answers [] (declareParams scope params tree) := by
  induction params generalizing tree with
  | nil => exact .pure _
  | cons param params ih => exact .quiet_bind (declare_answers _ _ _) (ih _)

theorem checkReachable_answers (diverged : Bool) (stmts : List Stmt) :
    Answers [] (checkReachable diverged stmts) := by
  cases stmts with
  | nil => exact .pure _
  | cons => exact .ite (.report _ rfl) (.pure _)

section

variable {c : Context} {tree : ScopeTree} {around : List Surrounding}

theorem checkExpr_answers (h : Stands tree c.scope around) (e : Expr) :
    Answers (e.uses.map (·, around)) (checkExpr (c.view tree) e) :=
  .of_blames h (checkExpr_blames _ e) (names_checkExpr _ e)

theorem checkOption_answers (h : Stands tree c.scope around) (e : Option Expr) :
    Answers ((Expr.usesOption e).map (·, around)) (checkOption (c.view tree) e) :=
  .of_blames h (checkOption_blames _ e) (names_checkOption _ e)

theorem checkCondition_answers (h : Stands tree c.scope around) (word : String) (cond : Expr) :
    Answers (cond.uses.map (·, around)) (checkCondition (c.view tree) word cond) :=
  .of_blames h (checkCondition_blames _ word cond) (names_checkCondition _ word cond)

theorem checkVarDecl_answers (h : Stands tree c.scope around) (name : Ident) (type : Option TypeName)
    (init : Option Expr) (span : Span) :
    Answers ((Expr.usesOption init).map (·, around)) (checkStmt c tree (.varDecl name type init span)) :=
  .bind_quiet (.of_blames h (checkInit_blames _ name type init) (names_checkInit _ name type init))
    (.ite (.pure _) (declare_answers _ _ _))

end

mutual

/-- A statement that declares no function reports the occurrences in it that are at fault. -/
theorem checkStmt_answers : ∀ (s : Stmt) {c : Context} {tree : ScopeTree} {around : List Surrounding},
    Stands tree c.scope around → s.functions = [] → Answers (s.occurrences around) (checkStmt c tree s)
  | .varDecl name type init span, _, _, _, h, _ => checkVarDecl_answers h name type init span
  | .expr e _, _, _, _, h, _ | .print e _, _, _, _, h, _ => .bind_quiet (checkExpr_answers h e) (.pure _)
  | .block body _, c, tree, around, h, hflat => by
    have hopened : Stands (tree.push c.scope) tree.size (.body [] [] [] :: around) := h.push rfl
    have hsize : tree.size ≠ 0 := Nat.ne_of_gt (Nat.lt_of_le_of_lt (Nat.zero_le _) h.inside)
    exact .bind_quiet (checkStmts_answers body rfl hflat hsize (hopened.announce body)) (.pure _)
  | .branch cond thenStmt none _, c, tree, around, h, hflat =>
    .bind (checkCondition_answers h _ cond)
      (.bind_quiet (checkStmt_answers thenStmt (h.branch thenStmt) hflat) (.pure _))
  | .branch cond thenStmt (some elseStmt) _, c, tree, around, h, hflat => by
    obtain ⟨hthen, helse⟩ := List.append_eq_nil_iff.1 hflat
    exact .bind (checkCondition_answers h _ cond) (.bind (checkStmt_answers thenStmt (h.branch thenStmt) hthen)
      (.bind_quiet (checkStmt_answers elseStmt (h.branch elseStmt) helse) (.pure _)))
  | .loop cond body _, c, tree, around, h, hflat => by
    refine .bind (checkCondition_answers h _ cond) (.bind_quiet (checkStmt_answers body ?_ hflat) (.pure _))
    have hlooping : Stands tree ({ c with inLoop := true } : Context).scope around := h
    exact hlooping.branch body
  | .function .., _, _, _, _, hflat => nomatch hflat
  | .returnWith value span, c, tree, around, h, _ => by
    have hvalue := Answers.bind_quiet (f := fun _ => pure tree) (checkOption_answers h value) (.pure _)
    unfold checkStmt
    exact .ite (.quiet_bind (.report _ rfl) hvalue) hvalue
  | .breakLoop _, _, _, _, _, _ | .continueLoop _, _, _, _, _, _ => by
    unfold checkStmt
    exact .ite (.quiet_bind (.report _ rfl) (.pure _)) (.pure _)

/-- So do the statements of a body. -/
theorem checkStmts_answers : ∀ (rest : List Stmt) {c : Context} {tree : ScopeTree} {around : List Surrounding}
    {params : List Param} {stmts before : List Stmt} {warned : Bool}, stmts = before ++ rest →
    Stmt.functionsAll rest = [] → c.scope ≠ 0 → Stands tree c.scope (.body params stmts before :: around) →
    Answers (Stmt.occurrencesIn (.body params stmts) around before rest) (checkStmts c tree warned rest)
  | [], _, _, _, _, _, _, _, _, _, _, _ => .pure _
  | s :: rest, c, tree, around, params, stmts, before, warned, hstmts, hflat, hscope, h => by
    obtain ⟨hs, hrest⟩ := List.append_eq_nil_iff.1 hflat
    have hmem : s ∈ stmts := by
      rw [hstmts]
      exact List.mem_append_right _ List.mem_cons_self
    have hnext := h.checkStmt hscope hmem hs
    refine .bind (checkStmt_answers s h hs) (.quiet_bind (checkReachable_answers _ _) ?_)
    exact checkStmts_answers rest (by rw [hstmts, List.append_cons]) hrest hscope hnext

end

/-! ### Programs -/

theorem declareItems_answers (items : List Stmt) (tree : ScopeTree) : Answers [] (declareItems items tree) := by
  induction items generalizing tree with
  | nil => exact .pure _
  | cons item items ih =>
    cases hsymbol : symbol? item with
    | none =>
      rw [declareItems_cons_of_none hsymbol]
      exact ih tree
    | some symbol =>
      rw [declareItems_cons_of_some hsymbol]
      exact .quiet_bind (declare_answers _ _ _) (ih _)

/-- Before anything is checked, the top level tells which names the program declares. -/
theorem stands_globals (items : List Stmt) : Stands (declareGlobals items).value 0 [.top items] := by
  have hseen : Seen items items (declareGlobals items).value := .start items
  refine ⟨hseen.top.size_pos, ?_⟩
  rw [ScopeTree.chain, hseen.top.parent]
  refine .cons (fun y => ?_) .nil
  have hsymbol : (((declareGlobals items).value.scope 0).symbols.get? y).isSome =
      decide (y ∈ Stmt.declaredNames items) := by
    have hident := congrArg Option.isSome (hseen.ident y)
    rw [Option.isSome_map, ScopeTree.lookupLocal] at hident
    rw [hident, Bool.eq_iff_iff, List.find?_isSome, decide_eq_true_iff, Stmt.declaredNames, List.mem_map]
    simp only [decide_eq_true_iff]
  rw [Scope.fault_local?, hsymbol, hseen.top.pending]
  by_cases hy : y ∈ Stmt.declaredNames items
  · rw [Surrounding.tells_of_usable hy hy, if_pos (decide_eq_true hy)]
  · rw [Surrounding.tells_of_unknown hy, if_neg (by simpa using hy)]
    rfl

variable {tree : ScopeTree} {items : List Stmt} {item : Stmt}

/-- An item of the top level. A function that stands there opens a scope for its parameters and its body. -/
theorem checkItem_answers (h : Stands tree 0 [.top items]) (hflat : item.Flat) :
    Answers (item.occurrences [.top items]) (checkStmt .top tree item) := by
  rcases hflat with hflat | ⟨name, params, body, braces, span, rfl, hflat⟩
  · exact checkStmt_answers item (c := .top) h hflat
  · have hopened : Stands (tree.push 0) tree.size [.body [] [] [], .top items] := h.push rfl
    have hbody := (hopened.declareParams params).announce body
    have hsize : tree.size ≠ 0 := Nat.ne_of_gt h.inside
    exact .quiet_bind (.pure _) <| .quiet_bind (declareParams_answers _ _ _)
      (.bind_quiet (checkStmts_answers body (c := ⟨tree.size, true, false⟩) rfl hflat hsize hbody) (.pure _))

theorem stands_checkStmt_top (h : Stands tree 0 [.top items]) (item : Stmt) :
    Stands (checkStmt .top tree item).value 0 [.top items] := by
  cases hvar : item.var? with
  | none =>
    rw [value_checkStmt_top hvar]
    exact h
  | some name =>
    cases item with
    | varDecl => exact h.updateGlobal _ _
    | _ => cases hvar

theorem checkItems_answers (h : Stands tree 0 [.top items]) (rest : List Stmt) (hflat : ∀ item ∈ rest, item.Flat)
    (warned : Bool) (before : List Stmt) :
    Answers (Stmt.occurrencesIn (fun _ => .top items) [] before rest) (checkStmts .top tree warned rest) := by
  induction rest generalizing tree warned before with
  | nil => exact .pure _
  | cons item rest ih =>
    obtain ⟨hitem, hrest⟩ := List.forall_mem_cons.1 hflat
    have hnext := stands_checkStmt_top h item
    exact .bind (checkItem_answers h hitem) (.quiet_bind (checkReachable_answers _ _) (ih hnext hrest _ _))

end Check

/-- The reports about names are those of lexical scoping. In a program whose functions stand at the top level,
take each occurrence of a name that is read, called or assigned to, with the scopes around it. If none of them
introduces the name, it is reported as undeclared. If the innermost one that does is a block or the body of a
function, and the name is not a parameter, and no declaration of it there is complete, it is reported as used
too early. Nothing else is reported about names, and each occurrence at most once. -/
theorem Program.name_reports_lexical (p : Program) (hflat : ∀ item ∈ p.items, item.Flat) :
    p.occurrences.map (·.1) = Stmt.usesAll p.items ∧
      (nameReports p.check.diagnostics).Perm (p.occurrences.filterMap fun (name, around) =>
        (nameFault around name.name).map (·, name.span)) := by
  refine ⟨Stmt.occurrencesIn_names _ _ _ _, ?_⟩
  have hglobals : Check.Answers [] (Check.declareGlobals p.items) :=
    .quiet_bind (Check.declareItems_answers _ _) (.pure _)
  have hchecked : Check.Answers p.occurrences (Check.declareGlobals p.items >>= fun tree =>
      Check.checkStmts .top tree false p.items) :=
    hglobals.quiet_bind (Check.checkItems_answers (Check.stands_globals p.items) p.items hflat false [])
  exact hchecked

/-- Whether functions stand at the top only. -/
def Stmt.isFlat : Stmt → Bool
  | .function _ _ body _ _ => (functionsAll body).isEmpty
  | s => s.functions.isEmpty

theorem Stmt.Flat.of_isFlat {s : Stmt} (h : s.isFlat = true) : s.Flat := by
  cases s with
  | function name params body braces span => exact .inr ⟨_, _, _, _, _, rfl, List.isEmpty_iff.1 h⟩
  | _ => exact .inl (List.isEmpty_iff.1 h)

/-- A parameter and a variable of its name, uses before, in and after declarations, a branch without braces. -/
def Program.manyScopes : String :=
  "func f(a) \x7b let a = a; \x7b b = c; let b = b; let b = b; \x7d if (a) let c = c; \x7d let c = f(d);"

theorem Program.name_reports_lexical_manyScopes :
    let p := (ofTokens (Tokens.ofText manyScopes).tokens).program
    p.items.all Stmt.isFlat = true ∧
      p.occurrences.map (·.1) = Stmt.usesAll p.items ∧
      (nameReports p.check.diagnostics).Perm
        [(.useBeforeDeclaration, inFirstLine 25 26), (.useBeforeDeclaration, inFirstLine 40 41),
          (.undeclaredIdentifier, inFirstLine 86 87)] := by
  intro p
  obtain ⟨hflat, hfaults⟩ : p.items.all Stmt.isFlat = true ∧
      (p.occurrences.filterMap fun (name, around) => (nameFault around name.name).map (·, name.span)) =
        [(.useBeforeDeclaration, inFirstLine 25 26), (.useBeforeDeclaration, inFirstLine 40 41),
          (.undeclaredIdentifier, inFirstLine 86 87)] := by
    unfold p
    decide +kernel
  obtain ⟨hnames, hreports⟩ := name_reports_lexical _ fun item hitem =>
    .of_isFlat (List.all_eq_true.1 hflat item hitem)
  rw [hfaults] at hreports
  exact ⟨hflat, hnames, hreports⟩

end Scriptlet
