import Mathlib.Data.List.Nodup
import Scriptlet.Proofs.LikeScopes
import Scriptlet.Proofs.SpanNesting

/-!
# The types of the top level

The types of the global variables are inferred twice: ahead, from the declarations alone (`inferItems`), and
again when the declarations are checked. If the names of the top level stand in the order of their offsets,
as they do in a text, the two agree: what an initial value reads ahead is what it reads when it is checked
(`Seen.initializer_agrees`), so checking a declaration only marks its variable as initialized (`Seen.step`).
-/

namespace Scriptlet

/-- The name that a statement declares where it stands. -/
def Stmt.declared? : Stmt → Option Ident
  | .varDecl name .. | .function name .. => some name
  | _ => none

/-- The name of the variable that a statement declares where it stands. -/
def Stmt.var? : Stmt → Option Ident
  | .varDecl name .. => some name
  | _ => none

/-- Where the variables that the statements declare have their names. -/
def Stmt.varSpans (items : List Stmt) : List Span := (items.filterMap var?).map (·.span)

/-- The declared names stand in the order of their offsets. -/
def Stmt.Ordered (items : List Stmt) : Prop :=
  (items.filterMap declared?).Pairwise fun a b => a.span.start.offset < b.span.start.offset

namespace Stmt

variable {items pre rest : List Stmt} {item item' x : Stmt} {name name' : Ident}

theorem declared?_of_var? (h : item.var? = some name) : item.declared? = some name := by
  cases item <;> cases h
  rfl

theorem mem_varSpans {span : Span} :
    span ∈ varSpans items ↔ ∃ item ∈ items, ∃ name, item.var? = some name ∧ name.span = span := by
  constructor
  · intro h
    obtain ⟨name, hname, rfl⟩ := List.mem_map.1 h
    obtain ⟨item, hitem, hname⟩ := List.mem_filterMap.1 hname
    exact ⟨item, hitem, name, hname, rfl⟩
  · rintro ⟨item, hitem, name, hname, rfl⟩
    exact List.mem_map.2 ⟨name, List.mem_filterMap.2 ⟨item, hitem, hname⟩, rfl⟩

theorem varSpans_cons_of_none (h : x.var? = none) : varSpans (x :: rest) = varSpans rest := by
  rw [varSpans, List.filterMap_cons_none h, varSpans]

theorem varSpans_cons_of_some (h : x.var? = some name) :
    varSpans (x :: rest) = name.span :: varSpans rest := by
  rw [varSpans, List.filterMap_cons_some h, varSpans, List.map_cons]

namespace Ordered

/-- What is declared before comes before in the text. -/
theorem lt_of_mem (h : Ordered (pre ++ rest)) (hitem : item ∈ pre) (hitem' : item' ∈ rest)
    (hname : item.declared? = some name) (hname' : item'.declared? = some name') :
    name.span.start.offset < name'.span.start.offset := by
  rw [Ordered, List.filterMap_append, List.pairwise_append] at h
  exact h.2.2 name (List.mem_filterMap.2 ⟨item, hitem, hname⟩) name'
    (List.mem_filterMap.2 ⟨item', hitem', hname'⟩)

theorem right (h : Ordered (pre ++ rest)) : Ordered rest := by
  rw [Ordered, List.filterMap_append, List.pairwise_append] at h
  exact h.2.1

theorem not_mem_left (h : Ordered (pre ++ x :: rest)) (hname : x.var? = some name) :
    name.span ∉ varSpans pre := by
  rw [mem_varSpans]
  rintro ⟨item, hitem, other, hother, hspan⟩
  have hlt := h.lt_of_mem hitem List.mem_cons_self (declared?_of_var? hother) (declared?_of_var? hname)
  rw [hspan] at hlt
  exact Nat.lt_irrefl _ hlt

theorem lt_of_mem_tail (h : Ordered (pre ++ x :: rest)) (hitem : item ∈ rest)
    (hname : x.declared? = some name) (hname' : item.declared? = some name') :
    name.span.start.offset < name'.span.start.offset := by
  have hcons : Ordered ([x] ++ rest) := h.right
  exact hcons.lt_of_mem List.mem_cons_self hitem hname hname'

theorem not_mem_right (h : Ordered (pre ++ x :: rest)) (hname : x.var? = some name) :
    name.span ∉ varSpans rest := by
  rw [mem_varSpans]
  rintro ⟨item, hitem, other, hother, hspan⟩
  have hlt := h.lt_of_mem_tail hitem (declared?_of_var? hname) (declared?_of_var? hother)
  rw [hspan] at hlt
  exact Nat.lt_irrefl _ hlt

theorem item_eq (h : Ordered (pre ++ x :: rest)) (hitem : item ∈ pre ++ x :: rest)
    (hname : x.declared? = some name) (hname' : item.declared? = some name')
    (hspan : name'.span = name.span) : item = x := by
  rcases List.mem_append.1 hitem with hpre | hrest
  · have hlt := h.lt_of_mem hpre List.mem_cons_self hname' hname
    rw [hspan] at hlt
    exact absurd hlt (Nat.lt_irrefl _)
  · rcases List.mem_cons.1 hrest with rfl | hrest
    · rfl
    · have hlt := h.lt_of_mem_tail hrest hname hname'
      rw [hspan] at hlt
      exact absurd hlt (Nat.lt_irrefl _)

/-- A place belongs to one declaration. -/
theorem eq_of_span (h : Ordered items) (hitem : item ∈ items) (hitem' : item' ∈ items)
    (hname : item.declared? = some name) (hname' : item'.declared? = some name')
    (hspan : name.span = name'.span) : item = item' := by
  obtain ⟨pre, rest, rfl⟩ := List.append_of_mem hitem'
  exact h.item_eq hitem hname' hname hspan

/-- A variable is declared before another one if and only if it does not come with it or after it. -/
theorem lt_iff (h : Ordered (pre ++ x :: rest)) (hname : x.var? = some name)
    (hitem : item ∈ pre ++ x :: rest) (hname' : item.var? = some name') :
    name'.span.start.offset < name.span.start.offset ↔ name'.span ∉ varSpans (x :: rest) := by
  constructor
  · intro hlt hmem
    rw [varSpans_cons_of_some hname, List.mem_cons] at hmem
    rcases hmem with heq | hmem
    · rw [heq] at hlt
      exact Nat.lt_irrefl _ hlt
    · obtain ⟨other, hother, name'', hname'', hspan⟩ := mem_varSpans.1 hmem
      have hgt := h.lt_of_mem_tail hother (declared?_of_var? hname) (declared?_of_var? hname'')
      rw [hspan] at hgt
      exact Nat.lt_asymm hlt hgt
  · intro hmem
    rcases List.mem_append.1 hitem with hpre | hrest
    · exact h.lt_of_mem hpre List.mem_cons_self (declared?_of_var? hname') (declared?_of_var? hname)
    · exact absurd (mem_varSpans.2 ⟨item, hrest, name', hname', rfl⟩) hmem

end Ordered

theorem declared?_link (h : item.declared? = some name) :
    (⟨item.span, name.span, false⟩ : Link) ∈ item.links := by
  cases item <;> cases h <;> exact List.mem_cons_self

end Stmt

/-- In a text, the names of the top level stand in order. -/
theorem Program.items_ordered (source : String) :
    Stmt.Ordered (ofTokens (Tokens.ofText source).tokens).program.items := by
  rw [ofTokens_cut]
  obtain ⟨s', -, hrow, -, -⟩ := items_sit (Reader.State.inOrder_ofText source)
  -- a name stands inside its statement, and is not empty
  have hinside : ∀ item ∈ (ofState (Reader.State.ofTokens (Tokens.ofText source).tokens).cut).program.items, ∀ name,
      item.declared? = some name → item.span.start.offset ≤ name.span.start.offset ∧
        name.span.start.offset < item.span.stop := by
    intro item hitem name hname
    obtain ⟨-, -, -, hlinks⟩ := hrow.sits item hitem
    obtain ⟨hproper, hnests⟩ := hlinks _ (Stmt.declared?_link hname)
    have hcontains := Span.contains_iff.1 (hnests.resolve_right fun hover => nomatch hover.branch)
    exact ⟨hcontains.1, Nat.lt_of_lt_of_le hproper hcontains.2⟩
  rw [Stmt.Ordered, List.pairwise_filterMap]
  refine hrow.sorted.imp_of_mem fun {a b} ha hb hsorted name hname name' hname' => ?_
  have hleft := (hinside a ha name hname).2
  have hright := (hinside b hb name' hname').1
  exact Nat.lt_of_lt_of_le hleft (Nat.le_trans hsorted hright)

namespace Check

open Stmt (varSpans Ordered)

/-! ### The type of an expression -/

/-- The type of an expression, from the types that the names in it have when they are read. -/
def exprType (read : String → Ty) : Expr → Ty
  | .literal value _ => value.type
  | .ident name => read name.name
  | .assign _ value _ => exprType read value
  | .binary op lhs rhs _ => (op.result? (exprType read lhs) (exprType read rhs)).getD .unknown
  | .unary op operand _ => (op.result? (exprType read operand)).getD .unknown
  | .call .. => .unknown

/-- The type of a name that is read ahead, in the initial value of the variable declared at `decl`. -/
def readAhead (tree : ScopeTree) (decl : Span) (name : String) : Ty :=
  match tree.lookupLocal 0 name with
  | some symbol =>
    if symbol.kind.isFunction ∨ symbol.declaredAt.start.offset < decl.start.offset then symbol.type
    else .unknown
  | none => .unknown

/-- The type of a name that is read where an expression stands. -/
def readAt (v : View) (name : String) : Ty :=
  match v.tree.lookup v.scope name with
  | .found symbol => readType (some symbol)
  | _ => .unknown

theorem initializerType_eq (tree : ScopeTree) (decl : Span) :
    ∀ e, initializerType tree decl e = exprType (readAhead tree decl) e
  | .literal .. | .ident _ | .call .. => rfl
  | .assign _ value _ => initializerType_eq tree decl value
  | .binary op lhs rhs _ => by
    simp only [initializerType, exprType, initializerType_eq tree decl lhs, initializerType_eq tree decl rhs]
  | .unary op operand _ => by
    simp only [initializerType, exprType, initializerType_eq tree decl operand]

theorem readType_readSymbol (v : View) (name : Ident) :
    readType (v.readSymbol name).value = readAt v name.name := by
  simp only [View.readSymbol, View.symbol, Checked.value_bind, readAt]
  cases v.tree.lookup v.scope name.name with
  | found symbol =>
    simp only [Checked.value_pure]
    split <;> rfl
  | notYetDeclared | missing => rfl

/-- Checks a call of what has been found under a name. -/
def checkNamedCall (name : Ident) (symbol : Option Symbol) (args : List (Ty × Span)) (span : Span) : Checked Ty :=
  match symbol with
  | none => return .unknown
  | some symbol => do
    match symbol.kind with
    | .function params => checkKnownCall name.name params args span
    | _ => if symbol.initialized then checkCallable name.name symbol.type name.span
    return .unknown

theorem checkExpr_call_ident (v : View) (name : Ident) (args : List Expr) (span : Span) :
    checkExpr v (.call (.ident name) args span) = (do
      let found ← checkArgs v args
      checkNamedCall name (← v.readSymbol name) found span) := by
  rw [checkExpr]
  rfl

theorem checkExpr_call_of_ne_ident {callee : Expr} (h : ∀ name, callee ≠ .ident name) (v : View)
    (args : List Expr) (span : Span) : checkExpr v (.call callee args span) = (do
      let _ ← checkArgs v args
      checkCallable "expression" (← checkExpr v callee) callee.span
      return .unknown) := by
  cases callee with
  | ident name => exact absurd rfl (h name)
  | _ =>
    conv_lhs => rw [checkExpr]

theorem value_checkNamedCall (name : Ident) (symbol : Option Symbol) (args : List (Ty × Span)) (span : Span) :
    (checkNamedCall name symbol args span).value = .unknown := by
  cases symbol with
  | none => rfl
  | some symbol =>
    simp only [checkNamedCall]
    cases symbol.kind with
    | function => rfl
    | var | param => cases symbol.initialized <;> rfl

theorem value_checkCall (v : View) (callee : Expr) (args : List Expr) (span : Span) :
    (checkExpr v (.call callee args span)).value = .unknown := by
  by_cases hident : ∃ name, callee = .ident name
  · obtain ⟨name, rfl⟩ := hident
    rw [checkExpr_call_ident, Checked.value_bind, Checked.value_bind, value_checkNamedCall]
  · rw [checkExpr_call_of_ne_ident fun name heq => hident ⟨name, heq⟩]
    rfl

/-- The type that checking an expression gives does not depend on what is reported. -/
theorem value_checkExpr (v : View) (e : Expr) : (checkExpr v e).value = exprType (readAt v) e := by
  cases e with
  | literal => simp only [checkExpr, exprType, Checked.value_pure]
  | ident name =>
    simp only [checkExpr, exprType, Checked.value_bind, Checked.value_pure, readType_readSymbol]
  | assign _ value =>
    simp only [checkExpr, exprType, Checked.value_bind, Checked.value_pure, value_checkExpr v value]
  | binary op lhs rhs =>
    simp only [checkExpr, exprType, Checked.value_bind, value_checkExpr v lhs, value_checkExpr v rhs]
    cases op.result? (exprType (readAt v) lhs) (exprType (readAt v) rhs) <;> rfl
  | unary op operand =>
    simp only [checkExpr, exprType, Checked.value_bind, value_checkExpr v operand]
    cases op.result? (exprType (readAt v) operand) <;> rfl
  | call callee args span => exact value_checkCall v callee args span

/-- The type of a variable, from its annotation and the type of its initial value. -/
def variableType : Option TypeName → Option Ty → Ty
  | some type, _ => .ofTypeName type
  | none, some found => found.inferred
  | none, none => .unknown

theorem value_checkInit (v : View) (name : Ident) (type : Option TypeName) (init : Option Expr) :
    (checkInit v name type init).value =
      variableType type (init.map fun e => (checkExpr v e).value) := by
  unfold checkInit
  cases type <;> cases init
  · rfl
  · rfl
  · rfl
  · simp only [checkOption, Checked.value_bind, Checked.value_pure, Option.map_some]
    split <;> rfl

/-! ### Announcing -/

theorem announce_cons (scope : Nat) (stmt : Stmt) (stmts : List Stmt) (tree : ScopeTree) :
    announce scope (stmt :: stmts) tree = announce scope stmts (match stmt.declared? with
      | some name => tree.announce scope name.name name.span
      | none => tree) := by
  cases stmt <;> rfl

/-- Statements that declare the same names announce the same. -/
theorem announce_alike {R : String → Symbol → Symbol → Prop} {tree tree' : ScopeTree} {scope : Nat}
    {body body' : List Stmt} (htree : tree.Alike R tree')
    (h : List.Forall₂ (fun s s' => s.declared?.map (·.name) = s'.declared?.map (·.name)) body body') :
    (announce scope body tree).Alike R (announce scope body' tree') := by
  induction h generalizing tree tree' with
  | nil => exact htree
  | @cons s s' body body' hname _ ih =>
    rw [announce_cons, announce_cons]
    refine ih ?_
    generalize s.declared? = name at hname ⊢
    generalize s'.declared? = name' at hname ⊢
    cases name with
    | none =>
      cases name' with
      | none => exact htree
      | some => cases hname
    | some name =>
      cases name' with
      | none => cases hname
      | some name' =>
        have hname : name.name = name'.name := Option.some.inj hname
        dsimp only
        rw [hname]
        exact htree.announce scope _ _ _

/-! ### The scope of the top level -/

/-- The top level by itself: nothing lies further out, and nothing is announced. -/
structure Top (tree : ScopeTree) : Prop where
  size : tree.size = 1
  depth : tree.depth 0 = 0
  parent : (tree.scope 0).parent = none
  pending : ∀ name, (tree.scope 0).pending.get? name = none

variable {tree : ScopeTree} {items pre mid rest : List Stmt} {x item : Stmt} {name : Ident} {symbol : Symbol}
  {y : String}

namespace Top

theorem new : Top .new := ⟨rfl, rfl, rfl, fun _ => rfl⟩

theorem size_pos (h : Top tree) : 0 < tree.size := by rw [h.size]; exact Nat.zero_lt_one

theorem scope_of_ne_zero (h : Top tree) {id : Nat} (hid : id ≠ 0) : tree.scope id = .global :=
  ScopeTree.scope_of_size_le (by rw [h.size]; exact Nat.one_le_iff_ne_zero.2 hid)

theorem alike {R : String → Symbol → Symbol → Prop} {tree' : ScopeTree} (h : Top tree) (h' : Top tree')
    (hsymbols : ∀ y, Option.Rel (R y) (tree.lookupLocal 0 y) (tree'.lookupLocal 0 y)) : tree.Alike R tree' := by
  refine ⟨by rw [h.size, h'.size], fun id => ?_⟩
  by_cases hid : id = 0
  · subst hid
    refine ⟨by rw [h.parent, h'.parent], h.depth.trans h'.depth.symm, hsymbols, fun name => ?_⟩
    rw [h.pending, h'.pending]
  · rw [h.scope_of_ne_zero hid, h'.scope_of_ne_zero hid]
    exact ⟨rfl, rfl, fun _ => .none, fun _ => rfl⟩

theorem lookup (h : Top tree) (y : String) : tree.lookup 0 y =
    match tree.lookupLocal 0 y with
    | some symbol => .found symbol
    | none => .missing := by
  rw [ScopeTree.lookup, Scope.local?, h.pending, ScopeTree.lookupLocal]
  cases (tree.scope 0).symbols.get? y with
  | some symbol => rfl
  | none => simp only [Option.map_none, h.parent]

theorem modify {f : Scope → Scope} (h : Top tree) (hdepth : (f (tree.scope 0)).depth = tree.depth 0)
    (hparent : (f (tree.scope 0)).parent = none)
    (hpending : ∀ name, (f (tree.scope 0)).pending.get? name = none) : Top (tree.modify 0 f) := by
  have hscope := ScopeTree.scope_modify_self f h.size_pos
  refine ⟨by rw [ScopeTree.size_modify]; exact h.size, ?_, ?_, ?_⟩
  · rw [ScopeTree.depth, hscope, hdepth, h.depth]
  · rw [hscope, hparent]
  · intro name
    rw [hscope, hpending]

theorem addSymbol (h : Top tree) (symbol : Symbol) : Top (tree.addSymbol 0 symbol) := by
  refine h.modify rfl h.parent fun name => ?_
  rw [Table.get?_erase, h.pending, ite_self]

theorem updateGlobal (h : Top tree) (name : Ident) (f : Symbol → Symbol) :
    Top (updateGlobal tree name f) := by
  unfold Check.updateGlobal ScopeTree.updateLocal
  split
  · exact h.modify rfl h.parent h.pending
  · exact h

theorem lookupLocal_addSymbol (h : Top tree) (symbol : Symbol) (y : String) :
    (tree.addSymbol 0 symbol).lookupLocal 0 y =
      if y = symbol.name then some symbol else tree.lookupLocal 0 y := by
  rw [ScopeTree.lookupLocal, ScopeTree.addSymbol, ScopeTree.scope_modify_self _ h.size_pos]
  exact Table.get?_insert ..

theorem lookupLocal_updateGlobal (h : Top tree) (name : Ident) (f : Symbol → Symbol) (y : String) :
    (Check.updateGlobal tree name f).lookupLocal 0 y = (tree.lookupLocal 0 y).map fun symbol =>
      if y = name.name ∧ symbol.declaredAt = name.span then f symbol else symbol := by
  unfold Check.updateGlobal ScopeTree.updateLocal
  cases hsymbol : tree.lookupLocal 0 name.name with
  | none =>
    cases hy : tree.lookupLocal 0 y with
    | none => rfl
    | some symbol =>
      have hne : y ≠ name.name := by
        rintro rfl
        rw [hsymbol] at hy
        cases hy
      simp [hne]
  | some symbol =>
    rw [ScopeTree.lookupLocal, ScopeTree.scope_modify_self _ h.size_pos]
    simp only [Table.get?_insert]
    by_cases hy : y = name.name
    · subst hy
      simp [hsymbol]
    · simp only [hy, false_and, if_false, Option.map_id']
      rfl

end Top

/-! ### Declaring ahead -/

/-- The symbol that a statement of the top level declares ahead. -/
def symbol? : Stmt → Option Symbol
  | .function name params _ _ _ => some (functionSymbol name params 0)
  | .varDecl name type _ _ => some (variableSymbol name (Ty.ofAnnotation type) 0 false)
  | _ => none

theorem declared?_of_symbol? (h : symbol? item = some symbol) :
    item.declared? = some ⟨symbol.name, symbol.declaredAt⟩ := by
  cases item <;> cases h <;> rfl

theorem declareItems_cons_of_some (h : symbol? item = some symbol) (items : List Stmt) (tree : ScopeTree) :
    declareItems (item :: items) tree = declare tree 0 symbol >>= declareItems items := by
  cases item <;> cases h <;> rfl

theorem declareItems_cons_of_none (h : symbol? item = none) (items : List Stmt) (tree : ScopeTree) :
    declareItems (item :: items) tree = declareItems items tree := by
  cases item <;> cases h <;> rfl

theorem Top.declare (h : Top tree) (symbol : Symbol) : Top (declare tree 0 symbol).value ∧
    ∀ y, (declare tree 0 symbol).value.lookupLocal 0 y =
      (tree.lookupLocal 0 y).or (if y = symbol.name then some symbol else none) := by
  unfold Check.declare ScopeTree.declare
  cases htaken : tree.lookupLocal 0 symbol.name with
  | some existing =>
    refine ⟨h, fun y => ?_⟩
    show tree.lookupLocal 0 y = _
    split
    · next hy => rw [hy, htaken]; rfl
    · rw [Option.or_none]
  | none =>
    refine ⟨h.addSymbol symbol, fun y => ?_⟩
    show (tree.addSymbol 0 symbol).lookupLocal 0 y = _
    rw [h.lookupLocal_addSymbol]
    split
    · next hy => rw [hy, htaken]; rfl
    · rw [Option.or_none]

/-- The first declaration of a name counts. -/
theorem declareItems_spec (items : List Stmt) (h : Top tree) : Top (declareItems items tree).value ∧
    ∀ y, (declareItems items tree).value.lookupLocal 0 y =
      (tree.lookupLocal 0 y).or ((items.filterMap symbol?).find? (·.name = y)) := by
  induction items generalizing tree with
  | nil => exact ⟨h, fun y => (Option.or_none).symm⟩
  | cons item items ih =>
    cases hsymbol : symbol? item with
    | none =>
      rw [declareItems_cons_of_none hsymbol, List.filterMap_cons_none hsymbol]
      exact ih h
    | some symbol =>
      rw [declareItems_cons_of_some hsymbol, List.filterMap_cons_some hsymbol, Checked.value_bind]
      obtain ⟨htop, hlocal⟩ := h.declare symbol
      obtain ⟨htop', hrest⟩ := ih htop
      refine ⟨htop', fun y => ?_⟩
      rw [hrest, hlocal, Option.or_assoc, List.find?_cons]
      congr 1
      by_cases hy : symbol.name = y
      · simp [hy]
      · simp [hy, Ne.symm hy]

/-- What is declared ahead comes from a declaration. -/
theorem mem_of_declareItems (h : (declareItems items .new).value.lookupLocal 0 y = some symbol) :
    ∃ item ∈ items, symbol? item = some symbol ∧ symbol.name = y := by
  rw [(declareItems_spec items Top.new).2] at h
  have hfind : (items.filterMap symbol?).find? (·.name = y) = some symbol := by
    simpa [ScopeTree.lookupLocal, ScopeTree.new, ScopeTree.scope, Scope.global] using h
  obtain ⟨item, hitem, hsymbol⟩ := List.mem_filterMap.1 (List.mem_of_find?_eq_some hfind)
  exact ⟨item, hitem, hsymbol, by simpa using List.find?_some hfind⟩

/-! ### Inferring ahead -/

/-- The symbol has got another type, but none if its declaration is not in `late`. -/
structure Retyped (late : List Span) (symbol symbol' : Symbol) : Prop where
  same : symbol' = { symbol with type := symbol'.type }
  early : symbol.declaredAt ∉ late → symbol' = symbol

theorem Retyped.refl (late : List Span) (symbol : Symbol) : Retyped late symbol symbol := ⟨rfl, fun _ => rfl⟩

theorem Retyped.trans {late late' : List Span} {symbol' symbol'' : Symbol} (h : Retyped late symbol symbol')
    (h' : Retyped late' symbol' symbol'') : Retyped (late ++ late') symbol symbol'' := by
  refine ⟨by rw [h'.same, h.same], fun hmem => ?_⟩
  rw [List.mem_append, not_or] at hmem
  have hsame := h.early hmem.1
  rw [h'.early (by rw [hsame]; exact hmem.2), hsame]

theorem inferItems_append (pre rest : List Stmt) (tree : ScopeTree) :
    inferItems (pre ++ rest) tree = inferItems rest (inferItems pre tree) := by
  induction pre generalizing tree with
  | nil => rfl
  | cons item pre ih => exact ih _

/-- Inferring ahead gives new types to the variables that are declared without annotation. -/
theorem inferItems_spec (items : List Stmt) (h : Top tree) : Top (inferItems items tree) ∧
    ∀ y, Option.Rel (Retyped (varSpans items)) (tree.lookupLocal 0 y)
      ((inferItems items tree).lookupLocal 0 y) := by
  have hrefl (late : List Span) (symbol : Option Symbol) : Option.Rel (Retyped late) symbol symbol := by
    cases symbol with
    | none => exact .none
    | some symbol => exact .some (.refl late symbol)
  induction items generalizing tree with
  | nil => exact ⟨h, fun y => hrefl _ _⟩
  | cons item items ih =>
    by_cases hitem : ∃ name init span, item = .varDecl name none (some init) span
    · obtain ⟨name, init, span, rfl⟩ := hitem
      rw [inferItems, Stmt.varSpans_cons_of_some rfl]
      generalize (initializerType tree name.span init).inferred = type
      have htop := h.updateGlobal name fun s => { s with type }
      refine ⟨(ih htop).1, fun y => ?_⟩
      have hy := (ih htop).2 y
      rw [h.lookupLocal_updateGlobal] at hy
      generalize (inferItems items _).lookupLocal 0 y = after at hy ⊢
      cases hbefore : tree.lookupLocal 0 y with
      | none =>
        rw [hbefore] at hy
        cases hy
        exact .none
      | some symbol =>
        rw [hbefore] at hy
        cases hy with
        | some hretyped =>
          have hfirst : Retyped [name.span] symbol
              (if y = name.name ∧ symbol.declaredAt = name.span then { symbol with type } else symbol) := by
            split
            · next hown => exact ⟨rfl, fun hmem => absurd hown.2 (by simpa using hmem)⟩
            · exact .refl _ _
          exact .some (hfirst.trans hretyped)
    · have hskip : inferItems (item :: items) tree = inferItems items tree := by
        cases item with
        | varDecl name type init span =>
          cases type with
          | some => rfl
          | none =>
            cases init with
            | none => rfl
            | some init => exact absurd ⟨name, init, span, rfl⟩ hitem
        | _ => rfl
      rw [hskip]
      refine ⟨(ih h).1, fun y => ?_⟩
      have hy := (ih h).2 y
      generalize tree.lookupLocal 0 y = before at hy ⊢
      generalize (inferItems items tree).lookupLocal 0 y = after at hy ⊢
      cases hy with
      | none => exact .none
      | some hretyped =>
        refine .some ⟨hretyped.same, fun hmem => hretyped.early fun hmem' => hmem ?_⟩
        obtain ⟨other, hother, hname⟩ := Stmt.mem_varSpans.1 hmem'
        exact Stmt.mem_varSpans.2 ⟨other, List.mem_cons_of_mem _ hother, hname⟩

/-! ### The two passes -/

/-- The top level with all of `items` declared, and with the types of `pre` inferred. -/
def ahead (items pre : List Stmt) : ScopeTree := inferItems pre (declareItems items .new).value

theorem ahead_top (items pre : List Stmt) : Top (ahead items pre) :=
  (inferItems_spec pre (declareItems_spec items Top.new).1).1

theorem ahead_append (items pre rest : List Stmt) :
    ahead items (pre ++ rest) = inferItems rest (ahead items pre) := inferItems_append ..

/-- A symbol of the top level comes from a declaration, and has its type from there or from `pre`. -/
theorem ahead_origin (h : (ahead items pre).lookupLocal 0 y = some symbol) :
    ∃ item ∈ items, ∃ declared, symbol? item = some declared ∧ declared.name = y ∧
      Retyped (varSpans pre) declared symbol := by
  have hy := (inferItems_spec pre (declareItems_spec items Top.new).1).2 y
  rw [← ahead, h] at hy
  generalize hdeclared : (declareItems items .new).value.lookupLocal 0 y = before at hy
  cases hy with
  | some hretyped =>
    obtain ⟨item, hitem, hsymbol, hname⟩ := mem_of_declareItems hdeclared
    exact ⟨item, hitem, _, hsymbol, hname, hretyped⟩

/-- What checking has passed is initialized: all that is not declared in `late`. -/
def mark (late : List Span) (symbol : Symbol) : Symbol :=
  { symbol with initialized := symbol.initialized || decide (symbol.declaredAt ∉ late) }

/-- The top level as it is when `rest` is still to be checked: the types are those inferred ahead. -/
structure Seen (items rest : List Stmt) (tree : ScopeTree) : Prop where
  top : Top tree
  symbols : ∀ y, tree.lookupLocal 0 y = ((ahead items items).lookupLocal 0 y).map (mark (varSpans rest))

theorem Seen.start (items : List Stmt) : Seen items items (ahead items items) := by
  refine ⟨ahead_top items items, fun y => ?_⟩
  cases hy : (ahead items items).lookupLocal 0 y with
  | none => rfl
  | some symbol =>
    obtain ⟨item, hitem, declared, hdeclared, -, hretyped⟩ := ahead_origin hy
    rw [Option.map_some, mark, hretyped.same]
    cases item with
    | function name params body braces span =>
      cases hdeclared
      rfl
    | varDecl name type init span =>
      cases hdeclared
      have hmem : name.span ∈ varSpans items := Stmt.mem_varSpans.2 ⟨_, hitem, name, rfl, rfl⟩
      simp [variableSymbol, hmem]
    | _ => cases hdeclared

/-- What a name reads ahead, in the initial value of a variable, it reads when that value is checked. -/
theorem Seen.read_agrees (hordered : Ordered (pre ++ x :: rest)) (hname : x.var? = some name)
    (h : Seen (pre ++ x :: rest) (x :: rest) tree) (y : String) :
    readAt (Context.top.view tree) y = readAhead (ahead (pre ++ x :: rest) pre) name.span y := by
  have hlookup : tree.lookup 0 y = _ := h.top.lookup y
  rw [h.symbols, ahead_append] at hlookup
  have hy := (inferItems_spec (x :: rest) (ahead_top (pre ++ x :: rest) pre)).2 y
  rw [readAt, readAhead, Context.view, Context.top]
  dsimp only
  rw [hlookup]
  generalize (inferItems (x :: rest) _).lookupLocal 0 y = after at hy ⊢
  generalize hbefore : (ahead (pre ++ x :: rest) pre).lookupLocal 0 y = before at hy ⊢
  cases hy with
  | none => rfl
  | @some symbol symbol' hretyped =>
    obtain ⟨item, hitem, declared, hdeclared, -, hdeclaredRetyped⟩ := ahead_origin hbefore
    have hplace : symbol.declaredAt = declared.declaredAt := by rw [hdeclaredRetyped.same]
    have hkind : symbol.kind = declared.kind := by rw [hdeclaredRetyped.same]
    have hinit : symbol'.initialized = declared.initialized := by
      rw [hretyped.same, hdeclaredRetyped.same]
    have hplace' : symbol'.declaredAt = symbol.declaredAt := by rw [hretyped.same]
    have hdeclaredName := declared?_of_symbol? hdeclared
    simp only [Option.map_some, readType, mark]
    cases item with
    | function fname params body braces span =>
      -- where the function is declared, no variable is
      have hmem : symbol.declaredAt ∉ varSpans (x :: rest) := by
        rw [Stmt.mem_varSpans]
        rintro ⟨other, hother, oname, honame, hspan⟩
        have hsame := hordered.eq_of_span (List.mem_append_right pre hother) hitem
          (Stmt.declared?_of_var? honame) hdeclaredName (hspan.trans hplace)
        rw [hsame] at honame
        cases honame
      cases hdeclared
      rw [hretyped.early hmem, if_pos (by simp [hmem]), if_pos (.inl (by rw [hkind]; rfl))]
    | varDecl vname type init span =>
      cases hdeclared
      have hiff := hordered.lt_iff hname hitem (rfl : Stmt.var? (.varDecl vname type init span) = some vname)
      have hfunction : symbol.kind.isFunction = false := by rw [hkind]; rfl
      have hflag : symbol'.initialized = false := hinit
      have hat : symbol.declaredAt = vname.span := hplace
      rw [hflag, hfunction, hplace', hat]
      by_cases hmem : vname.span ∈ varSpans (x :: rest)
      · simp [hiff, hmem]
      · have hearly : symbol' = symbol := hretyped.early (by rw [hat]; exact hmem)
        simp [hiff, hmem, hearly]
    | _ => cases hdeclared

/-- The type of an initial value is the same ahead and when it is checked. -/
theorem Seen.initializer_agrees (hordered : Ordered (pre ++ x :: rest)) (hname : x.var? = some name)
    (h : Seen (pre ++ x :: rest) (x :: rest) tree) (e : Expr) :
    (checkExpr (Context.top.view tree) e).value =
      initializerType (ahead (pre ++ x :: rest) pre) name.span e := by
  rw [value_checkExpr, initializerType_eq, funext (h.read_agrees hordered hname)]

/-- The type that is inferred ahead for the first declaration of a name. -/
theorem ahead_type {type : Option TypeName} {init : Option Expr} {span : Span}
    (hitems : items = pre ++ .varDecl name type init span :: rest) (hordered : Ordered items)
    (hsymbol : (ahead items items).lookupLocal 0 name.name = some symbol)
    (hplace : symbol.declaredAt = name.span) :
    symbol.type = variableType type (init.map (initializerType (ahead items pre) name.span)) := by
  have hx : Stmt.var? (.varDecl name type init span) = some name := rfl
  subst hitems
  -- before its own declaration the symbol is as it was declared
  have hbefore : (ahead (pre ++ .varDecl name type init span :: rest) pre).lookupLocal 0 name.name =
      some (variableSymbol name (Ty.ofAnnotation type) 0 false) := by
    have hy := (inferItems_spec (.varDecl name type init span :: rest)
      (ahead_top (pre ++ .varDecl name type init span :: rest) pre)).2 name.name
    rw [← ahead_append, hsymbol] at hy
    generalize hprevious : (ahead _ pre).lookupLocal 0 name.name = previous at hy ⊢
    cases hy with
    | @some before _ hretyped =>
      obtain ⟨item, hitem, declared, hdeclared, -, hdeclaredRetyped⟩ := ahead_origin hprevious
      have hat : declared.declaredAt = name.span := by
        rw [← hplace, hretyped.same, hdeclaredRetyped.same]
      have hitemEq := hordered.item_eq hitem (Stmt.declared?_of_var? hx) (declared?_of_symbol? hdeclared) hat
      rw [hitemEq] at hdeclared
      cases hdeclared
      rw [hdeclaredRetyped.early (hordered.not_mem_left hx)]
  have hlate := hordered.not_mem_right hx
  -- and after it, nothing changes it any more
  have hafter {tree' : ScopeTree} {symbol' : Symbol} (htop : Top tree')
      (hsymbol' : tree'.lookupLocal 0 name.name = some symbol') (hat : symbol'.declaredAt = name.span)
      (heq : ahead (pre ++ .varDecl name type init span :: rest) (pre ++ .varDecl name type init span :: rest) =
        inferItems rest tree') : symbol = symbol' := by
    have hy := (inferItems_spec rest htop).2 name.name
    rw [← heq, hsymbol, hsymbol'] at hy
    cases hy with
    | some hretyped => exact hretyped.early (by rw [hat]; exact hlate)
  have htop := ahead_top (pre ++ .varDecl name type init span :: rest) pre
  cases type with
  | some type =>
    rw [hafter htop hbefore rfl (ahead_append ..)]
    rfl
  | none =>
    cases init with
    | none =>
      rw [hafter htop hbefore rfl (ahead_append ..)]
      rfl
    | some init =>
      have hupdated := htop.lookupLocal_updateGlobal name (fun s => { s with
        type := (initializerType (ahead (pre ++ .varDecl name none (some init) span :: rest) pre)
          name.span init).inferred }) name.name
      rw [hbefore, Option.map_some, if_pos ⟨rfl, rfl⟩] at hupdated
      rw [hafter (htop.updateGlobal _ _) hupdated rfl (ahead_append ..)]
      rfl

/-- A statement that declares no variable leaves the top level as it is. -/
theorem value_checkStmt_top (h : x.var? = none) (tree : ScopeTree) : (checkStmt .top tree x).value = tree := by
  cases x with
  | varDecl => cases h
  | branch cond thenStmt elseStmt span => cases elseStmt <;> rfl
  | _ => rfl

/-- Checking the declaration of a variable only marks it. -/
theorem Seen.varDecl {type : Option TypeName} {init : Option Expr} {span : Span}
    (hordered : Ordered (pre ++ .varDecl name type init span :: rest))
    (h : Seen (pre ++ .varDecl name type init span :: rest) (.varDecl name type init span :: rest) tree) :
    Seen (pre ++ .varDecl name type init span :: rest) rest
      (checkStmt .top tree (.varDecl name type init span)).value := by
  have hx : Stmt.var? (.varDecl name type init span) = some name := rfl
  have hvalue : (checkStmt .top tree (.varDecl name type init span)).value =
      updateGlobal tree name fun s => { s with
        type := variableType type (init.map (initializerType
          (ahead (pre ++ .varDecl name type init span :: rest) pre) name.span))
        initialized := true } := by
    have hinit := value_checkInit (Context.top.view tree) name type init
    rw [funext (h.initializer_agrees hordered hx)] at hinit
    rw [← hinit]
    rfl
  rw [hvalue]
  refine ⟨h.top.updateGlobal _ _, fun y => ?_⟩
  rw [h.top.lookupLocal_updateGlobal, h.symbols, Stmt.varSpans_cons_of_some hx]
  cases hy : (ahead _ (pre ++ .varDecl name type init span :: rest)).lookupLocal 0 y with
  | none => rfl
  | some symbol =>
    simp only [Option.map_some, Option.some.injEq]
    by_cases hat : symbol.declaredAt = name.span
    · -- this is the symbol that the declaration has brought
      obtain ⟨item, hitem, declared, hdeclared, hname, hretyped⟩ := ahead_origin hy
      have hplace : declared.declaredAt = name.span := by rw [← hat, hretyped.same]
      have hown := hordered.item_eq hitem (Stmt.declared?_of_var? hx) (declared?_of_symbol? hdeclared) hplace
      rw [hown] at hdeclared
      have hy' : y = name.name := by
        cases hdeclared
        exact hname.symm
      subst hy'
      rw [if_pos ⟨rfl, hat⟩, ← ahead_type rfl hordered hy hat]
      simp [mark, hat, hordered.not_mem_right hx]
    · rw [if_neg fun hown => hat hown.2]
      simp [mark, hat]

theorem Seen.step (hordered : Ordered (pre ++ x :: rest)) (h : Seen (pre ++ x :: rest) (x :: rest) tree) :
    Seen (pre ++ x :: rest) rest (checkStmt .top tree x).value := by
  cases hx : x.var? with
  | none =>
    rw [value_checkStmt_top hx]
    exact ⟨h.top, fun y => by rw [h.symbols, Stmt.varSpans_cons_of_none hx]⟩
  | some name =>
    cases x with
    | varDecl => exact Seen.varDecl hordered h
    | _ => cases hx

/-- The top level when `mid` has been checked as well. -/
theorem Seen.run (hordered : Ordered (pre ++ (mid ++ rest)))
    (h : Seen (pre ++ (mid ++ rest)) (mid ++ rest) tree) (warned : Bool) :
    Seen (pre ++ (mid ++ rest)) rest (checkStmts .top tree warned mid).value := by
  induction mid generalizing pre tree warned with
  | nil => exact h
  | cons x mid ih =>
    have hnext : Seen (pre ++ [x] ++ (mid ++ rest)) (mid ++ rest) (checkStmt .top tree x).value := by
      have hstep := Seen.step hordered h
      rwa [List.append_assoc]
    have hrun := ih (by rwa [List.append_assoc]) hnext (warned || x.diverges)
    rw [List.append_assoc] at hrun
    simp only [checkStmts, Checked.value_bind]
    exact hrun

end Check

end Scriptlet
