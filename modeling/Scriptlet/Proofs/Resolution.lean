import Scriptlet.Proofs.Acceptance
import Scriptlet.Proofs.Agreement
import Scriptlet.Proofs.Occurrences
import Scriptlet.Proofs.Reaches

/-!
# Names mean the same to the check and to the run

The check resolves the names of a program in a tree of scopes; the run resolves them in frames that come
and go. `Sound` says of a part of the program that is about to be run that it has passed the check in
scopes that hold the same declarations as those the run sees, and that so have the bodies of all
functions that the run can come to call. A step into a part of what is run keeps this (`Sound.step`), so
it holds wherever a run arrives (`Program.names_agree`).
-/

namespace Scriptlet

open Check Run

/-- A variable that the run sees: in a block or a call, or at the top level, with the binding that was made
for it before the run. -/
inductive Site where
  | inner (slot : Slot)
  | top (made : Binding)

def Site.slot : Site → Slot
  | inner slot => slot
  | top made => made.slot

def innerSites (slots : Slots) : Names Site := fun name => (slots name).map .inner

def topSites (globals : Vars) : Names Site := fun name => (globals.get? name).map .top

/-- What is made for a declaration of this kind at the top level. -/
def SymbolKind.Makes : SymbolKind → Value → Prop
  | .function params, value => ∃ f, value = .function f ∧ f.params.length = params.length
  | _, value => value = .nil

theorem SymbolKind.Makes.eq_nil {kind : SymbolKind} {value : Value} (h : kind.Makes value)
    (hkind : kind.isFunction = false) : value = .nil := by
  cases kind with
  | function params => cases hkind
  | var | param => exact h

/-- A symbol and a variable that come from one declaration. Functions are declared at the top level. -/
def SameDeclaration (symbol : Symbol) : Site → Prop
  | .inner slot => slot.declaredAt = symbol.declaredAt ∧ symbol.kind.isFunction = false
  | .top made => made.declaredAt = symbol.declaredAt ∧ symbol.kind.Makes made.value

theorem SameDeclaration.declaredAt {symbol : Symbol} {site : Site} (h : SameDeclaration symbol site) :
    site.slot.declaredAt = symbol.declaredAt := by
  cases site <;> exact h.1

namespace Run.Layout

variable {l : Layout} {globals : Vars}

/-- The scopes that a name is looked up in, when those of the top level were made as `globals` says. -/
def sites (l : Layout) (globals : Vars) : List (Names Site) := l.inner.map innerSites ++ [topSites globals]

theorem sites_push : l.push.sites globals = .none :: l.sites globals := by
  simp only [sites, push, inner_mapInner, List.map_cons, List.cons_append]
  rfl

theorem atTop_iff_sites : l.atTop = true ↔ (l.sites globals).length = 1 := by
  simp [atTop, sites]

theorem sites_of_atTop (h : l.atTop = true) : l.sites globals = [topSites globals] := by
  rw [sites, List.isEmpty_iff.1 h, List.map_nil, List.nil_append]

theorem sites_declare (h : l.atTop = false) (name : String) (slot : Slot) :
    (l.declare name slot).sites globals = (l.sites globals).modifyHead (·.add name (.inner slot)) := by
  obtain ⟨slots, rest, hinner⟩ := List.exists_cons_of_ne_nil (List.isEmpty_eq_false_iff.1 h)
  have hadd : innerSites (slots.add name slot) = (innerSites slots).add name (.inner slot) := by
    funext other
    simp only [innerSites, Names.add]
    split <;> rfl
  simp [sites, declare, hinner, hadd]

theorem find_innerSites (scopes : List Slots) (name : String) :
    (scopes.map innerSites).findSome? (· name) = (scopes.findSome? (· name)).map .inner := by
  induction scopes with
  | nil => rfl
  | cons slots rest ih => cases h : slots name <;> simp_all [innerSites]

/-- What is found at a site is what the run finds. -/
theorem find_visible (h : l.base = slotsOf globals) (name : String) :
    l.visible.findSome? (· name) = ((l.sites globals).findSome? (· name)).map Site.slot := by
  simp only [visible, sites, List.findSome?_append, find_innerSites, Option.map_or, Option.map_map, h]
  cases hname : globals.get? name <;> simp [slotsOf, topSites, hname, Site.slot, Function.comp_def]

/-- A name is found in an inner scope, or else at the top level. -/
theorem find_sites {name : String} {site : Site} (h : (l.sites globals).findSome? (· name) = some site) :
    (∃ slot, site = .inner slot ∧ l.inner.findSome? (· name) = some slot) ∨
      ∃ made, site = .top made ∧ l.inner.findSome? (· name) = none ∧ globals.get? name = some made := by
  rw [sites, List.findSome?_append, find_innerSites] at h
  cases hinner : l.inner.findSome? (· name) with
  | some slot =>
    rw [hinner] at h
    exact .inl ⟨slot, (Option.some.inj h).symm, rfl⟩
  | none =>
    rw [hinner] at h
    obtain ⟨made, hmade, rfl⟩ : ∃ made, globals.get? name = some made ∧ Site.top made = site := by
      simpa [topSites] using h
    exact .inr ⟨made, rfl, rfl, hmade⟩

end Run.Layout

namespace Agree

variable {scope : Nat} {tree : ScopeTree} {l : Layout} {globals : Vars} {strict : Bool}
  {log : List (Ident × Lookup)}

theorem atTop_iff (h : Agree SameDeclaration scope tree (l.sites globals)) : l.atTop = true ↔ scope = 0 :=
  Layout.atTop_iff_sites.trans h.top.symm

theorem declare_layout {symbol : Symbol} {slot : Slot}
    (h : Agree SameDeclaration scope tree (l.sites globals)) (hscope : scope ≠ 0)
    (hpasses : (Check.declare tree scope symbol).Passes strict log)
    (hsame : SameDeclaration symbol (.inner slot)) :
    Agree SameDeclaration scope (Check.declare tree scope symbol).value
      ((l.declare symbol.name slot).sites globals) := by
  rw [Layout.sites_declare (Bool.eq_false_iff.2 (mt h.atTop_iff.1 hscope))]
  exact h.declare hpasses hsame

/-- A variable declaration that passes. At the top level the variable is known already. -/
theorem declareVariable {name : Ident} {type : Ty} {declared : Option Ty}
    (h : Agree SameDeclaration scope tree (l.sites globals))
    (hpasses : (declareVariable tree scope name type).Passes strict log) :
    Agree SameDeclaration scope (Check.declareVariable tree scope name type).value
      ((if l.atTop then l else l.declare name.name ⟨declared, name.span⟩).sites globals) := by
  unfold Check.declareVariable at hpasses ⊢
  split
  · next hscope =>
    subst hscope
    have htop := h.atTop_iff.2 rfl
    rw [if_pos htop]
    rw [Layout.sites_of_atTop htop] at h ⊢
    exact h.updateGlobal fun symbol site _ hsame => by cases site <;> exact hsame
  · next hscope =>
    rw [if_neg hscope] at hpasses
    rw [if_neg (mt h.atTop_iff.1 hscope)]
    exact h.declare_layout hscope hpasses ⟨rfl, rfl⟩

/-- What a statement declares for the check, it declares for the run. -/
theorem checkStmt {c : Context} {stmt : Stmt} (h : Agree SameDeclaration c.scope tree (l.sites globals))
    (htop : ∀ name params body braces span, stmt = .function name params body braces span → c.scope = 0)
    (hpasses : (checkStmt c tree stmt).Passes strict log) :
    Agree SameDeclaration c.scope (Check.checkStmt c tree stmt).value ((extend stmt l).sites globals) := by
  cases stmt with
  | varDecl name type init span =>
    simp only [Check.checkStmt, Checked.passes_bind] at hpasses
    exact h.declareVariable hpasses.2
  | function name params body braces span =>
    have hscope := htop _ _ _ _ _ rfl
    simp only [Check.checkStmt, extend, if_pos hscope, if_pos (h.atTop_iff.2 hscope)]
    exact h
  | branch cond thenStmt elseStmt span => cases elseStmt <;> exact h
  | expr | print | block | loop => exact h
  | returnWith | breakLoop | continueLoop =>
    simp only [Check.checkStmt]
    split <;> exact h

/-- The parameters of a call: the arguments that are bound, one for each. -/
theorem declareParams {params : List Param} {args : List (Value × Span)} {vars vars' : Vars}
    (h : Agree SameDeclaration scope tree ((l.enter (slotsOf vars)).sites globals)) (hscope : scope ≠ 0)
    (hpasses : (declareParams scope params tree).Passes strict log)
    (harity : args.length = params.length) (hbind : bindParams params args vars = .ok vars') :
    Agree SameDeclaration scope (Check.declareParams scope params tree).value
      ((l.enter (slotsOf vars')).sites globals) := by
  induction params generalizing args vars tree with
  | nil =>
    cases args with
    | nil => cases hbind; exact h
    | cons arg args => cases harity
  | cons param params ih =>
    cases args with
    | nil => cases harity
    | cons arg args =>
      obtain ⟨value, span⟩ := arg
      rw [bindParams] at hbind
      split at hbind
      · next fitted _ =>
        simp only [Check.declareParams, Checked.passes_bind] at hpasses
        refine ih ?_ hpasses.2 (Nat.succ.inj harity) hbind
        rw [slotsOf_insert]
        exact h.declare_layout hscope hpasses.1 ⟨rfl, rfl⟩
      · cases hbind

end Agree

/-- A function whose body has passed in a scope inside the top level, where `globals` was made. -/
def BodyPasses (log : List (Ident × Lookup)) (globals : Vars) (f : FuncDecl) : Prop :=
  Stmt.functionsAll f.body = [] ∧
    ∃ tree : ScopeTree, Agree SameDeclaration 0 tree [topSites globals] ∧
      (declareParams tree.size f.params (tree.push 0)).Passes false log ∧
      (checkStmts ⟨tree.size, true, false⟩
        (announce tree.size f.body (declareParams tree.size f.params (tree.push 0)).value)
        false f.body).Passes false log

/-- The variable that a statement of the top level declares has been made, and its functions have passed. A
statement inside another declares no function. -/
structure Settled (log : List (Ident × Lookup)) (globals : Vars) (scope : Nat) (stmt : Stmt) : Prop where
  made : scope = 0 → ∀ name type init span, stmt = .varDecl name type init span →
    globals.get? name.name = some ⟨.nil, type.map Ty.ofTypeName, name.span⟩
  functions : ∀ f ∈ stmt.functions, BodyPasses log globals f
  flat : stmt.functions = [] ∨
    scope = 0 ∧ ∃ name params body braces span, stmt = .function name params body braces span

/-- A part of the program that is run has passed the check in scopes that hold the same names. -/
def Located (log : List (Ident × Lookup)) (globals : Vars) : Task → Layout → Prop
  | .expr e, l => ∃ v : View, (checkExpr v e).Passes false log ∧
      Matches SameDeclaration (v.tree.chain v.scope) (l.sites globals)
  | .args es, l => ∃ v : View, (checkArgs v es).Passes false log ∧
      Matches SameDeclaration (v.tree.chain v.scope) (l.sites globals)
  | .load name, l => ∃ v : View, (v.symbol name).Passes false log ∧
      Matches SameDeclaration (v.tree.chain v.scope) (l.sites globals)
  | .store name, l => ∃ v : View, (v.symbol name).Passes false log ∧
      Matches SameDeclaration (v.tree.chain v.scope) (l.sites globals) ∧
      ∀ symbol, (v.symbol name).value = some symbol → symbol.kind.isFunction = false
  | .initial name, l => l.atTop = true ∧
      ∃ made, globals.get? name.name = some made ∧ made.declaredAt = name.span ∧ made.value = .nil
  | .stmt _ stmt, l => ∃ (c : Context) (tree : ScopeTree), (checkStmt c tree stmt).Passes false log ∧
      Agree SameDeclaration c.scope tree (l.sites globals) ∧ Settled log globals c.scope stmt
  | .stmts _ stmts, l => ∃ (c : Context) (tree : ScopeTree) (warned : Bool),
      (checkStmts c tree warned stmts).Passes false log ∧
      Agree SameDeclaration c.scope tree (l.sites globals) ∧
      ∀ stmt ∈ stmts, Settled log globals c.scope stmt
  | .branch _ stmt, l => ∃ (c : Context) (tree : ScopeTree),
      (checkStmt (branchContext c tree stmt) (branchTree c tree stmt) stmt).Passes false log ∧
      Agree SameDeclaration c.scope tree (l.sites globals) ∧ stmt.functions = []
  | .rounds _ cond body _ _, l => ∃ (c : Context) (tree : ScopeTree),
      (checkExpr (c.view tree) cond).Passes false log ∧
      (checkStmt (branchContext c tree body) (branchTree c tree body) body).Passes false log ∧
      Agree SameDeclaration c.scope tree (l.sites globals) ∧ body.functions = []

namespace Settled

variable {log : List (Ident × Lookup)} {globals : Vars} {scope : Nat} {stmt : Stmt}

/-- Inside another statement. -/
theorem inside (hscope : scope ≠ 0) (h : stmt.functions = []) : Settled log globals scope stmt := by
  refine ⟨fun hzero => absurd hzero hscope, ?_, .inl h⟩
  rw [h]
  nofun

theorem inside_all (hscope : scope ≠ 0) {stmts : List Stmt} (h : Stmt.functionsAll stmts = []) :
    ∀ stmt ∈ stmts, Settled log globals scope stmt := by
  induction stmts with
  | nil => nofun
  | cons stmt stmts ih =>
    obtain ⟨hstmt, hstmts⟩ := List.append_eq_nil_iff.1 h
    exact List.forall_mem_cons.2 ⟨inside hscope hstmt, ih hstmts⟩

theorem block {body : List Stmt} {span : Span} (h : Stmt.functionsAll body = []) :
    Settled log globals scope (.block body span) := by
  refine ⟨nofun, fun f hf => ?_, .inl h⟩
  rw [Stmt.functions, h] at hf
  cases hf

/-- A statement that is not a function declares none. -/
theorem functions_nil (h : Settled log globals scope stmt)
    (hstmt : ∀ name params body braces span, stmt ≠ .function name params body braces span) :
    stmt.functions = [] := by
  obtain hnil | ⟨-, name, params, body, braces, span, rfl⟩ := h.flat
  · exact hnil
  · exact absurd rfl (hstmt name params body braces span)

theorem top_of_function (h : Settled log globals scope stmt) (name : Ident) (params : List Param)
    (body : List Stmt) (braces span : Span) (hstmt : stmt = .function name params body braces span) :
    scope = 0 := by
  obtain hnil | ⟨hzero, -⟩ := h.flat
  · rw [hstmt] at hnil
    cases hnil
  · exact hzero

end Settled

structure Sound (log : List (Ident × Lookup)) (globals : Vars) (p : Point) : Prop where
  base : p.state.layout.base = slotsOf globals
  functions : p.state.All (·.value.Among (BodyPasses log globals))
  located : Located log globals p.task p.state.layout

variable {log : List (Ident × Lookup)} {globals : Vars} {b : Bounds} {d : Nat} {s s' : State}

theorem calls_among (log : List (Ident × Lookup)) (globals : Vars) (b : Bounds) (d : Nat) :
    (invoke b d).Among (BodyPasses log globals) :=
  invoke_among (fun f hf g hg => by rw [hf.1] at hg; cases hg) b d

/-- What running a part of the program leaves as it was. -/
structure Carried (log : List (Ident × Lookup)) (globals : Vars) (s s' : State) : Prop where
  layout : s'.layout = s.layout
  functions : s'.All (·.value.Among (BodyPasses log globals))

theorem Carried.of_ok {α : Type} {p : Run α} {a : α} {P : α → Prop} (hkeeps : Keeps p)
    (hamong : KeepsAmong (BodyPasses log globals) P p)
    (hs : s.All (·.value.Among (BodyPasses log globals))) (h : p s = .ok a s') :
    Carried log globals s s' :=
  ⟨hkeeps.layout_eq h, ((ends_of_ok h).1 (hamong s hs)).2⟩

theorem Carried.trans {s'' : State} (h : Carried log globals s s') (h' : Carried log globals s' s'') :
    Carried log globals s s'' :=
  ⟨h'.layout.trans h.layout, h'.functions⟩

theorem Carried.refl (hs : s.All (·.value.Among (BodyPasses log globals))) :
    Carried log globals s s := ⟨rfl, hs⟩

section

variable (hs : s.All (·.value.Among (BodyPasses log globals)))

include hs

theorem Carried.tick {span : Span} (h : tick b span s = .ok () s') : Carried log globals s s' :=
  .of_ok (.tick b span) (.tick b span) hs h

theorem Carried.eval {e : Expr} {v : Value} (h : eval b (invoke b d) e s = .ok v s') :
    Carried log globals s s' :=
  .of_ok (eval_keeps (invoke_keeps b d) e) (eval_among (calls_among log globals b d) e) hs h

theorem Carried.evalOption {e : Option Expr} {v : Value}
    (h : evalOption b (invoke b d) e s = .ok v s') : Carried log globals s s' :=
  .of_ok (evalOption_keeps (invoke_keeps b d) e) (evalOption_among (calls_among log globals b d) e) hs h

theorem Carried.evalCondition {cond : Expr} {holds : Bool}
    (h : evalCondition b (invoke b d) cond s = .ok holds s') : Carried log globals s s' :=
  .of_ok (evalCondition_keeps (invoke_keeps b d) cond)
    (evalCondition_among (calls_among log globals b d) cond) hs h

theorem Carried.evalArgs {es : List Expr} {values : List (Value × Span)}
    (h : evalArgs b (invoke b d) es s = .ok values s') : Carried log globals s s' :=
  .of_ok (evalArgs_keeps (invoke_keeps b d) es) (evalArgs_among (calls_among log globals b d) es) hs h

theorem Carried.branch {path : TreePath} {stmt : Stmt} {signal : Signal}
    (hfunctions : stmt.functions = [])
    (h : asBranch b stmt (exec b (invoke b d) path stmt) s = .ok signal s') : Carried log globals s s' :=
  .of_ok (asBranch_keeps (exec_layout (invoke_keeps b d) path stmt))
    (asBranch_among (exec_among (calls_among log globals b d) path stmt (by rw [hfunctions]; nofun))) hs h

end

/-- The same place in the program, in another state. -/
theorem Sound.carry {p : Point} {task : Task} (h : Sound log globals p)
    (hs : Carried log globals p.state s') (htask : Located log globals task p.state.layout) :
    Sound log globals ⟨d, task, s'⟩ :=
  ⟨hs.layout ▸ h.base, hs.functions, hs.layout ▸ htask⟩

/-- The body of a function has passed in a scope that holds its parameters. -/
theorem Sound.body {f : Func} {values : List (Value × Span)} {params : Vars}
    (hbase : s.layout.base = slotsOf globals) (hs : s.All (·.value.Among (BodyPasses log globals)))
    (hf : BodyPasses log globals f.toFuncDecl) (hvalues : ∀ arg ∈ values, arg.1.Among (BodyPasses log globals))
    (harity : values.length = f.params.length)
    (hparams : bindParams f.params values .empty = .ok params) :
    Sound log globals ⟨d, .stmts f.path.inside f.body, s.enter params⟩ := by
  obtain ⟨hflat, tree, hagree, hdeclare, hbody⟩ := hf
  have hsize := hagree.size_ne_zero
  have hentered : Agree SameDeclaration tree.size (tree.push 0)
      ((s.layout.enter (slotsOf .empty)).sites globals) := hagree.push
  have hopened := hentered.declareParams hsize hdeclare harity hparams
  exact ⟨hbase, hs.enter (bindParams_among hvalues .empty hparams), _, _, _, hbody,
    hopened.announce f.body, Settled.inside_all hsize hflat⟩

/-- The statements that follow have passed in the scopes that the first one leaves behind. -/
theorem Sound.rest {path : TreePath} {stmt : Stmt} {stmts : List Stmt} {signal : Signal}
    (h : Sound log globals ⟨d, .stmts path (stmt :: stmts), s⟩)
    (hfirst : exec b (invoke b d) path stmt s = .ok signal s') :
    Sound log globals ⟨d, .stmts path.next stmts, s'⟩ := by
  obtain ⟨c, tree, warned, hpasses, hagree, hsettled⟩ := h.located
  obtain ⟨hstmt, hstmts⟩ := stmts_passes hpasses
  obtain ⟨hfirst', hsettled⟩ := List.forall_mem_cons.1 hsettled
  have hlayout : s'.layout = extend stmt s.layout :=
    (ends_of_ok hfirst).1 (exec_layout (invoke_keeps b d) path stmt s)
  have hs' := (ends_of_ok hfirst).1
    (exec_among (calls_among log globals b d) path stmt hfirst'.functions s h.functions)
  refine ⟨?_, hs'.2, c, _, _, hstmts, ?_, hsettled⟩
  · rw [hlayout, base_extend]
    exact h.base
  · rw [hlayout]
    exact hagree.checkStmt hfirst'.top_of_function hstmt

theorem Sound.unbraced {path : TreePath} {stmt : Stmt} (h : Sound log globals ⟨d, .branch path stmt, s⟩)
    (hstmt : ∀ body span, stmt ≠ .block body span)
    (htick : tick b stmt.span (s.mapFrame Frame.pushBlock) = .ok () s') :
    Sound log globals ⟨d, .stmt path stmt, s'⟩ := by
  obtain ⟨c, tree, hpasses, hagree, hfunctions⟩ := h.located
  have hscope : needsScope stmt = true := by
    cases stmt with
    | block body span => exact absurd rfl (hstmt body span)
    | _ => rfl
  rw [branchContext, branchTree, if_pos hscope, if_pos hscope] at hpasses
  have hs := Carried.tick (h.functions.mapFrame fun _ => .pushBlock) htick
  have hlayout : s'.layout = s.layout.push := hs.layout.trans (State.layout_pushBlock s)
  refine ⟨?_, hs.functions, _, _, hpasses, ?_, Settled.inside hagree.size_ne_zero hfunctions⟩
  · rw [hlayout, Layout.base_push]
    exact h.base
  · rw [hlayout, Layout.sites_push]
    exact hagree.push

theorem Sound.block {path : TreePath} {body : List Stmt} {span : Span}
    (h : Sound log globals ⟨d, .stmt path (.block body span), s⟩) :
    Sound log globals ⟨d, .stmts path.inside body, s.mapFrame Frame.pushBlock⟩ := by
  obtain ⟨c, tree, hpasses, hagree, hsettled⟩ := h.located
  simp only [checkStmt, Checked.passes_bind] at hpasses
  refine ⟨?_, h.functions.mapFrame fun _ => .pushBlock, _, _, _, hpasses.1, ?_,
    Settled.inside_all hagree.size_ne_zero (hsettled.functions_nil (by simp))⟩
  · rw [State.layout_pushBlock, Layout.base_push]
    exact h.base
  · rw [State.layout_pushBlock, Layout.sites_push]
    exact hagree.push.announce body

/-- Running a part of the program comes to parts that have passed where they stand. -/
theorem Sound.step {p q : Point} (hstep : Step b p q) (h : Sound log globals p) :
    Sound log globals q := by
  cases hstep with
  | ident =>
    obtain ⟨v, hpasses, hmatches⟩ := h.located
    exact h.carry (.refl h.functions) ⟨v, ident_passes hpasses, hmatches⟩
  | assignValue =>
    obtain ⟨v, hpasses, hmatches⟩ := h.located
    exact h.carry (.refl h.functions) ⟨v, (assign_passes hpasses).1, hmatches⟩
  | assignStore hvalue =>
    obtain ⟨v, hpasses, hmatches⟩ := h.located
    exact h.carry (.eval h.functions hvalue) ⟨v, (assign_passes hpasses).2, hmatches,
      fun symbol hsymbol => (assign_accepts hpasses hsymbol).1⟩
  | left =>
    obtain ⟨v, hpasses, hmatches⟩ := h.located
    exact h.carry (.refl h.functions) ⟨v, (binary_passes hpasses).1, hmatches⟩
  | right hleft =>
    obtain ⟨v, hpasses, hmatches⟩ := h.located
    exact h.carry (.eval h.functions hleft) ⟨v, (binary_passes hpasses).2, hmatches⟩
  | operand =>
    obtain ⟨v, hpasses, hmatches⟩ := h.located
    exact h.carry (.refl h.functions) ⟨v, unary_passes hpasses, hmatches⟩
  | callee htick =>
    obtain ⟨v, hpasses, hmatches⟩ := h.located
    exact h.carry (.tick h.functions htick) ⟨v, (call_passes hpasses).1, hmatches⟩
  | callArgs htick hcallee =>
    obtain ⟨v, hpasses, hmatches⟩ := h.located
    have h₁ := Carried.tick h.functions htick
    exact h.carry (h₁.trans (.eval h₁.functions hcallee)) ⟨v, (call_passes hpasses).2, hmatches⟩
  | @callBody d _ _ _ _ callee args _ f values _ htick hcallee hargs harity hparams =>
    -- The callee is a value, so nothing in the text says which function it is; but all functions
    -- among the values have passed.
    have hcalls := calls_among log globals b (d + 1)
    have h₁ := Carried.tick h.functions htick
    have h₂ := h₁.trans (.eval h₁.functions hcallee)
    have h₃ := h₂.trans (.evalArgs h₂.functions hargs)
    have hf := ((ends_of_ok hcallee).1 (eval_among hcalls callee _ h₁.functions)).1 f rfl
    have hvalues := ((ends_of_ok hargs).1 (evalArgs_among hcalls args _ h₂.functions)).1
    exact .body (h₃.layout ▸ h.base) h₃.functions hf hvalues harity hparams
  | arg =>
    obtain ⟨v, hpasses, hmatches⟩ := h.located
    exact h.carry (.refl h.functions) ⟨v, (args_passes hpasses).1, hmatches⟩
  | moreArgs hfirst =>
    obtain ⟨v, hpasses, hmatches⟩ := h.located
    exact h.carry (.eval h.functions hfirst) ⟨v, (args_passes hpasses).2, hmatches⟩
  | init =>
    obtain ⟨c, tree, hpasses, hagree, -⟩ := h.located
    simp only [checkStmt, Checked.passes_bind] at hpasses
    exact h.carry (.refl h.functions) ⟨c.view tree, init_passes hpasses.1, hagree.visible⟩
  | initial hinit htop =>
    obtain ⟨c, tree, -, hagree, hsettled⟩ := h.located
    have hs := Carried.evalOption h.functions hinit
    rw [← State.atTop_layout, hs.layout] at htop
    -- The variable was made before the program started, at the last declaration of its name. That is
    -- this one, as the check lets no name be declared twice.
    have hmade := hsettled.made (hagree.atTop_iff.1 htop) _ _ _ _ rfl
    exact h.carry hs ⟨htop, _, hmade, rfl, rfl⟩
  | exprStmt =>
    obtain ⟨c, tree, hpasses, hagree, -⟩ := h.located
    simp only [checkStmt, Checked.passes_bind] at hpasses
    exact h.carry (.refl h.functions) ⟨c.view tree, hpasses.1, hagree.visible⟩
  | print =>
    obtain ⟨c, tree, hpasses, hagree, -⟩ := h.located
    simp only [checkStmt, Checked.passes_bind] at hpasses
    exact h.carry (.refl h.functions) ⟨c.view tree, hpasses.1, hagree.visible⟩
  | returned =>
    obtain ⟨c, tree, hpasses, hagree, -⟩ := h.located
    have hvalue := option_passes (return_passes hpasses)
    exact h.carry (.refl h.functions) ⟨c.view tree, hvalue, hagree.visible⟩
  | block => exact h.block
  | cond =>
    obtain ⟨c, tree, hpasses, hagree, -⟩ := h.located
    have hcond := condition_passes (branch_passes hpasses).1
    exact h.carry (.refl h.functions) ⟨c.view tree, hcond, hagree.visible⟩
  | @thenBranch _ _ _ _ _ _ elseStmt _ hcond =>
    obtain ⟨c, tree, hpasses, hagree, hsettled⟩ := h.located
    have hfunctions := hsettled.functions_nil (by simp)
    refine h.carry (.evalCondition h.functions hcond) ⟨c, tree, (branch_passes hpasses).2.1, hagree, ?_⟩
    cases elseStmt with
    | none => exact hfunctions
    | some elseStmt => exact (List.append_eq_nil_iff.1 hfunctions).1
  | elseBranch hcond =>
    obtain ⟨c, tree, hpasses, hagree, hsettled⟩ := h.located
    have hfunctions := hsettled.functions_nil (by simp)
    exact h.carry (.evalCondition h.functions hcond) ⟨c, tree, (branch_passes hpasses).2.2 _ rfl, hagree,
      (List.append_eq_nil_iff.1 hfunctions).2⟩
  | loop =>
    obtain ⟨c, tree, hpasses, hagree, hsettled⟩ := h.located
    simp only [checkStmt, Checked.passes_bind] at hpasses
    exact h.carry (.refl h.functions) ⟨{ c with inLoop := true }, tree, condition_passes hpasses.1,
      hpasses.2.1, hagree, hsettled.functions_nil (by simp)⟩
  | roundCond htick =>
    obtain ⟨c, tree, hcond, hbody, hagree, -⟩ := h.located
    exact h.carry (.tick h.functions htick) ⟨c.view tree, hcond, hagree.visible⟩
  | roundBody htick hholds =>
    obtain ⟨c, tree, hcond, hbody, hagree, hfunctions⟩ := h.located
    have h₁ := Carried.tick h.functions htick
    exact h.carry (h₁.trans (.evalCondition h₁.functions hholds)) ⟨c, tree, hbody, hagree, hfunctions⟩
  | nextRound htick hholds hrun =>
    obtain ⟨c, tree, hcond, hbody, hagree, hfunctions⟩ := h.located
    have h₁ := Carried.tick h.functions htick
    have h₂ := h₁.trans (.evalCondition h₁.functions hholds)
    exact h.carry (h₂.trans (.branch h₂.functions hfunctions hrun))
      ⟨c, tree, hcond, hbody, hagree, hfunctions⟩
  | braced =>
    obtain ⟨c, tree, hpasses, hagree, hfunctions⟩ := h.located
    exact h.carry (.refl h.functions) ⟨c, tree, hpasses, hagree, .block hfunctions⟩
  | unbraced hstmt htick => exact h.unbraced hstmt htick
  | first htick =>
    obtain ⟨c, tree, warned, hpasses, hagree, hsettled⟩ := h.located
    exact h.carry (.tick h.functions htick) ⟨c, tree, (stmts_passes hpasses).1, hagree,
      hsettled _ List.mem_cons_self⟩
  | rest htick hfirst =>
    exact Sound.rest (h.carry (.tick h.functions htick) h.located) hfirst

/-- A name that is read or assigned has been found by the check, and the run sees a variable from the
declaration of the symbol found. -/
theorem Sound.site {p : Point} {name : Ident} (h : Sound log globals p)
    (htask : p.task = .load name ∨ p.task = .store name) :
    ∃ symbol site, (name, .found symbol) ∈ log ∧ SameDeclaration symbol site ∧
      (p.state.layout.sites globals).findSome? (· name.name) = some site ∧
      (p.task = .store name → symbol.kind.isFunction = false) := by
  have hlocated := h.located
  obtain htask | htask := htask <;> rw [htask] at hlocated
  · obtain ⟨v, hpasses, hmatches⟩ := hlocated
    obtain ⟨symbol, hlookup, hlog, -⟩ := symbol_passes hpasses
    obtain ⟨site, hsite, hsame⟩ := hmatches.lookup hlookup
    exact ⟨symbol, site, hlog, hsame, hsite, fun hstore => by rw [htask] at hstore; cases hstore⟩
  · obtain ⟨v, hpasses, hmatches, hkind⟩ := hlocated
    obtain ⟨symbol, hlookup, hlog, hvalue⟩ := symbol_passes hpasses
    obtain ⟨site, hsite, hsame⟩ := hmatches.lookup hlookup
    exact ⟨symbol, site, hlog, hsame, hsite, fun _ => hkind symbol hvalue⟩

theorem Sound.binding_of_site {p : Point} {name : String} {site : Site} (h : Sound log globals p)
    (hsite : (p.state.layout.sites globals).findSome? (· name) = some site) :
    ∃ binding, p.state.binding? name = some binding ∧ binding.declaredAt = site.slot.declaredAt := by
  have hslot := p.state.slot_binding? name
  rw [Layout.find_visible h.base, hsite, Option.map_some, Option.map_eq_some_iff] at hslot
  obtain ⟨binding, hbinding, hslot⟩ := hslot
  exact ⟨binding, hbinding, congrArg Slot.declaredAt hslot⟩

/-- A name that is read or assigned has been found by the check, and its variable comes from the
declaration of the symbol found. -/
theorem Sound.resolved {p : Point} {name : Ident} (h : Sound log globals p)
    (htask : p.task = .load name ∨ p.task = .store name) :
    ∃ symbol binding, (name, .found symbol) ∈ log ∧ p.state.binding? name.name = some binding ∧
      binding.declaredAt = symbol.declaredAt := by
  obtain ⟨symbol, site, hlog, hsame, hsite, -⟩ := h.site htask
  obtain ⟨binding, hbinding, hat⟩ := h.binding_of_site hsite
  exact ⟨symbol, binding, hlog, hbinding, hat.trans hsame.declaredAt⟩

/-- A variable of the top level that gets its initial value comes from its own declaration. -/
theorem Sound.initial {p : Point} {name : Ident} (h : Sound log globals p)
    (htask : p.task = .initial name) :
    ∃ binding, p.state.binding? name.name = some binding ∧ binding.declaredAt = name.span := by
  have hlocated := h.located
  rw [htask] at hlocated
  obtain ⟨htop, made, hmade, hat, -⟩ := hlocated
  have hsite : (p.state.layout.sites globals).findSome? (· name.name) = some (.top made) := by
    simp [Layout.sites_of_atTop htop, topSites, hmade]
  obtain ⟨binding, hbinding, hsame⟩ := h.binding_of_site hsite
  exact ⟨binding, hbinding, hsame.trans hat⟩

/-! ### Programs -/

theorem extend_of_atTop {l : Layout} (stmt : Stmt) (h : l.atTop = true) : extend stmt l = l := by
  cases stmt <;> simp [extend, h]

theorem bodies_pass {items : List Stmt} {tree : ScopeTree} {warned : Bool}
    (hagree : Agree SameDeclaration 0 tree [topSites globals])
    (hflat : ∀ item ∈ items, item.Flat)
    (hpasses : (checkStmts .top tree warned items).Passes false log) :
    ∀ f ∈ Stmt.functionsAll items, BodyPasses log globals f := by
  induction items generalizing tree warned with
  | nil => nofun
  | cons item items ih =>
    obtain ⟨hitem, hflat⟩ := List.forall_mem_cons.1 hflat
    obtain ⟨hstmt, hstmts⟩ := stmts_passes hpasses
    -- At the top level the run declares nothing more, so all items see the same variables.
    have hnext := Agree.checkStmt (c := .top) (l := ⟨slotsOf globals, [], []⟩) hagree
      (fun _ _ _ _ _ _ => rfl) hstmt
    rw [extend_of_atTop item rfl] at hnext
    refine List.forall_mem_append.2 ⟨?_, ih hnext hflat hstmts⟩
    obtain hnone | ⟨name, params, body, braces, span, rfl, hbody⟩ := hitem
    · rw [hnone]
      nofun
    · intro f hf
      obtain rfl := List.mem_singleton.1 hf
      have hscope : Context.top.scope = 0 := rfl
      simp only [checkStmt, if_pos hscope, Checked.passes_bind] at hstmt
      exact ⟨hbody, tree, hagree, hstmt.2.1, hstmt.2.2.1⟩

theorem declares_same {path : TreePath} {item : Stmt} {symbol : Symbol} {made : Binding}
    (h : Declares path item symbol made) : SameDeclaration symbol (.top made) := by
  cases h with
  | function name params body braces span => exact ⟨rfl, _, rfl, (List.length_map _).symm⟩
  | var => exact ⟨rfl, rfl⟩

theorem mem_functionsAll {stmts : List Stmt} {stmt : Stmt} {f : FuncDecl} (hmem : stmt ∈ stmts)
    (hf : f ∈ stmt.functions) : f ∈ Stmt.functionsAll stmts := by
  induction hmem with
  | head => exact List.mem_append_left _ hf
  | tail _ _ ih => exact List.mem_append_right _ ih

namespace Program

variable {p : Program}

theorem passes_of_clean (hclean : ∀ d ∈ p.check.diagnostics, d.severity ≠ .error) :
    (declareGlobals p.items).Passes false p.check.lookups ∧
      (checkStmts .top (declareGlobals p.items).value false p.items).Passes false p.check.lookups := by
  have hpasses : (declareGlobals p.items >>= fun tree => checkStmts .top tree false p.items).Passes
      false p.check.lookups := ⟨fun d hd => ⟨rfl, hclean d hd⟩, fun _ h => h⟩
  rwa [Checked.passes_bind] at hpasses

theorem hoisted_of_clean (hclean : ∀ d ∈ p.check.diagnostics, d.severity ≠ .error) :
    Hoisted (fun symbol b => SameDeclaration symbol (.top b)) .first p.items (declareGlobals p.items).value
      .empty :=
  declareGlobals_hoisted (passes_of_clean hclean).1 (fun _ _ _ _ _ hdeclares => declares_same hdeclares)
    fun _ _ _ _ _ _ _ hsame => hsame

theorem start_sound (hflat : ∀ item ∈ p.items, item.Flat)
    (hclean : ∀ d ∈ p.check.diagnostics, d.severity ≠ .error) (b : Bounds) :
    Sound p.check.lookups (hoist .first p.items .empty) (p.start b) := by
  have hpasses := (passes_of_clean hclean).2
  have hhoisted := hoisted_of_clean hclean
  have hagree : Agree SameDeclaration 0 _ [topSites (hoist .first p.items .empty)] :=
    hhoisted.agree.map fun _ _ hsame => hsame
  have hbodies := bodies_pass hagree hflat hpasses
  refine ⟨rfl, ⟨⟨hoist_among hbodies .empty, nofun⟩, nofun⟩, .top, _, _, hpasses, hagree, ?_⟩
  intro item hitem
  refine ⟨fun _ _ _ _ _ hdecl => hhoisted.variable (hdecl ▸ hitem), fun f hf => hbodies f (mem_functionsAll hitem hf), ?_⟩
  obtain hnone | ⟨name, params, body, braces, span, rfl, -⟩ := hflat item hitem
  · exact .inl hnone
  · exact .inr ⟨rfl, name, params, body, braces, span, rfl⟩

/-- The run of a program that has been checked without an error misses no variable. -/
theorem safe_of_clean (hflat : ∀ item ∈ p.items, item.Flat)
    (hclean : ∀ d ∈ p.check.diagnostics, d.severity ≠ .error) (b : Bounds) : Safe b (p.start b) := by
  intro point hreaches name hneeds
  have hsound : Sound p.check.lookups (hoist .first p.items .empty) point :=
    hreaches.invariant (fun _ _ => Sound.step) (start_sound hflat hclean b)
  obtain htask | htask := Task.of_needs hneeds
  · obtain ⟨-, binding, -, hbinding, -⟩ := hsound.resolved htask
    exact Option.isSome_of_eq_some hbinding
  · obtain ⟨binding, hbinding, -⟩ := hsound.initial htask
    exact Option.isSome_of_eq_some hbinding

/-- Names mean the same to the check and to the run. In a text that is read without a report and checked
without an error, each name that the run comes to read or to assign has been looked up once by the check,
and found; and the variable that the run finds is the one that the declaration of the symbol found has
made. A variable of the top level is there when its initial value is stored, and it is that of the
declaration itself. So no variable is ever missed. -/
theorem names_agree (source : String)
    (hquiet : (ofTokens (Tokens.ofText source).tokens).diagnostics = [])
    (hclean : ∀ d ∈ (ofTokens (Tokens.ofText source).tokens).program.check.diagnostics,
      d.severity ≠ .error) (b : Bounds) :
    let p := (ofTokens (Tokens.ofText source).tokens).program
    (∀ point, Reaches b (p.start b) point → ∀ name,
      point.task = .load name ∨ point.task = .store name →
        ∃ symbol binding, (∀ found, (name, found) ∈ p.check.lookups ↔ found = .found symbol) ∧
          point.state.binding? name.name = some binding ∧
          binding.declaredAt = symbol.declaredAt) ∧
      (∀ point, Reaches b (p.start b) point → ∀ name, point.task = .initial name →
        ∃ binding, point.state.binding? name.name = some binding ∧ binding.declaredAt = name.span) ∧
      ∀ d ∈ (p.execute b).diagnostics, ∀ name : String,
        d.message ≠ s!"undefined variable '{name}'" := by
  intro p
  have hderives := ofTokens_sound (Tokens.ofText_ended source) hquiet
  have hsound : ∀ point, Reaches b (p.start b) point → Sound _ _ point := fun point hreaches =>
    hreaches.invariant (fun _ _ => Sound.step) (start_sound hderives.flat hclean b)
  have hused : ∀ point, Reaches b (p.start b) point → ∀ name,
      point.task = .load name ∨ point.task = .store name →
        ∃ symbol binding, (name, .found symbol) ∈ p.check.lookups ∧
          point.state.binding? name.name = some binding ∧
          binding.declaredAt = symbol.declaredAt :=
    fun point hreaches name htask => (hsound point hreaches).resolved htask
  have hinitial : ∀ point, Reaches b (p.start b) point → ∀ name, point.task = .initial name →
      ∃ binding, point.state.binding? name.name = some binding ∧ binding.declaredAt = name.span :=
    fun point hreaches name htask => (hsound point hreaches).initial htask
  refine ⟨fun point hreaches name htask => ?_, hinitial, execute_defined ?_⟩
  · obtain ⟨symbol, binding, hlookup, hbinding, hsame⟩ := hused point hreaches name htask
    refine ⟨symbol, binding, fun found => ⟨fun hfound => ?_, ?_⟩, hbinding, hsame⟩
    · exact lookups_unique hderives hfound hlookup
    · rintro rfl
      exact hlookup
  · intro point hreaches name hneeds
    obtain htask | htask := Task.of_needs hneeds
    · obtain ⟨-, binding, -, hbinding, -⟩ := hused point hreaches name htask
      exact Option.isSome_of_eq_some hbinding
    · obtain ⟨binding, hbinding, -⟩ := hinitial point hreaches name htask
      exact Option.isSome_of_eq_some hbinding

/-- A name of the top level that is used in a function, and hidden in a block that calls it. -/
def hiddenName : String :=
  "int a = 1; func f(b) \x7b return a + b; \x7d \x7b int a = f(2); a = a + 1; \x7d"

theorem names_agree_hiddenName :
    let p := (ofTokens (Tokens.ofText hiddenName).tokens).program
    ((ofTokens (Tokens.ofText hiddenName).tokens).diagnostics = [] ∧ p.check.diagnostics = []) ∧
      (∀ point, Reaches {} (p.start {}) point → ∀ name,
        point.task = .load name ∨ point.task = .store name →
          ∃ symbol binding, (∀ found, (name, found) ∈ p.check.lookups ↔ found = .found symbol) ∧
            point.state.binding? name.name = some binding ∧
            binding.declaredAt = symbol.declaredAt) ∧
      (∀ point, Reaches {} (p.start {}) point → ∀ name, point.task = .initial name →
        ∃ binding, point.state.binding? name.name = some binding ∧ binding.declaredAt = name.span) ∧
      ∀ d ∈ (p.execute {}).diagnostics, ∀ name : String,
        d.message ≠ s!"undefined variable '{name}'" := by
  have hquiet : (ofTokens (Tokens.ofText hiddenName).tokens).diagnostics = [] ∧
      (ofTokens (Tokens.ofText hiddenName).tokens).program.check.diagnostics = [] := by
    decide +kernel
  exact ⟨hquiet, names_agree hiddenName hquiet.1 (by rw [hquiet.2]; exact List.forall_mem_nil _) {}⟩

end Program

end Scriptlet
