import Scriptlet.Proofs.Echoes
import Scriptlet.Proofs.Occurrences

/-!
# Where functions stand

Two texts of the same statements that differ in where the functions stand (`Stmt.Rearranged`) declare globals
of the same types, and each function sees these types. But a function that reads a variable declared further
down does not know its type there, so an error can come and go with the place of the function. If no function
is moved across a variable that it reads, the errors have the same codes (`Program.check_rearranged`).

The types are compared along the variables, which keep their order; the errors are compared item by item, each
item of the one text with the same item of the other (`Check.item_codes`).
-/

namespace Scriptlet

open Check

/-! ### The same items in another order -/

namespace Stmt

def isFunction : Stmt → Bool
  | .function .. => true
  | _ => false

/-- All but the functions. -/
def plain (items : List Stmt) : List Stmt := items.filter (!·.isFunction)

/-- The same items up to their spans, the functions in any order and the rest in the same. No name is declared
twice. -/
structure Rearranged (items items' : List Stmt) : Prop where
  others : (plain items).map erase = (plain items').map erase
  functions : ((items.filter isFunction).map erase).Perm ((items'.filter isFunction).map erase)
  names : (declaredNames items).Nodup

/-- The names of the variables that the statements declare where they stand. -/
def varNames (items : List Stmt) : List String := (items.filterMap var?).map (·.name)

/-- The statements, each with those that stand before it, of which `pre` are the first. -/
def placed (pre : List Stmt) : List Stmt → List (List Stmt × Stmt)
  | [] => []
  | item :: items => (pre, item) :: placed (pre ++ [item]) items

/-- A variable that a function reads stands before the function both times, or neither time. -/
def ReadsInPlace (items items' : List Stmt) : Prop :=
  ∀ place ∈ placed [] items, ∀ place' ∈ placed [] items', place.2.isFunction = true →
    place.2.declared?.map (·.name) = place'.2.declared?.map (·.name) →
    ∀ y ∈ place.2.reads, y ∈ varNames place.1 ↔ y ∈ varNames place'.1

instance : Decidable (ReadsInPlace items items') := inferInstanceAs (Decidable (∀ place ∈ _, _))

variable {items items' pre pre' rest : List Stmt} {item item' x x' : Stmt}

theorem mem_placed (h : (pre', x) ∈ placed pre items) : ∃ rest, pre ++ items = pre' ++ x :: rest := by
  induction items generalizing pre with
  | nil => cases h
  | cons item items ih =>
    rcases List.mem_cons.1 h with heq | h
    · cases heq
      exact ⟨items, rfl⟩
    · obtain ⟨rest, hrest⟩ := ih h
      exact ⟨rest, by rw [← hrest, List.append_assoc, List.singleton_append]⟩

theorem isFunction_erase (item : Stmt) : item.erase.isFunction = item.isFunction := by
  cases item with
  | branch cond thenStmt elseStmt span => cases elseStmt <;> rfl
  | _ => rfl

theorem symbol?_erase (item : Stmt) :
    symbol? item.erase = (symbol? item).map fun s => { s with declaredAt := default } := by
  cases item with
  | branch cond thenStmt elseStmt span => cases elseStmt <;> rfl
  | function name params body braces span =>
    simp only [erase, symbol?, functionSymbol, Option.map_some, List.map_map]
    rfl
  | _ => rfl

theorem declaredNames_map_erase (items : List Stmt) : declaredNames (items.map erase) = declaredNames items := by
  unfold declaredNames
  induction items with
  | nil => rfl
  | cons item items ih =>
    rw [List.map_cons]
    cases hname : item.declared? with
    | none =>
      rw [List.filterMap_cons_none (by rw [declared?_erase, hname]; rfl), List.filterMap_cons_none hname, ih]
    | some name =>
      rw [List.filterMap_cons_some (by rw [declared?_erase, hname]; rfl), List.filterMap_cons_some hname,
        List.map_cons, List.map_cons, ih]
      rfl

/-- The variables are declared by the items other than functions. -/
theorem varNames_eq (items : List Stmt) : varNames items = declaredNames ((plain items).map erase) := by
  have hvar : (fun item => if !isFunction item then item.declared? else none) = var? := by
    funext item
    cases item <;> rfl
  rw [declaredNames_map_erase, declaredNames, plain, List.filterMap_filter, varNames, ← hvar]

namespace Rearranged

theorem perm (h : Rearranged items items') : (items.map erase).Perm (items'.map erase) := by
  have hsplit (items : List Stmt) :
      (items.map erase).Perm ((items.filter isFunction).map erase ++ (plain items).map erase) := by
    rw [← List.map_append]
    exact (List.filter_append_perm isFunction items).symm.map erase
  exact (hsplit items).trans ((h.functions.append (.of_eq h.others)).trans (hsplit items').symm)

theorem symm (h : Rearranged items items') : Rearranged items' items := by
  refine ⟨h.others.symm, h.functions.symm, ?_⟩
  rw [← declaredNames_map_erase]
  have hperm : (declaredNames (items.map erase)).Perm (declaredNames (items'.map erase)) :=
    (h.perm.filterMap _).map _
  refine hperm.nodup_iff.1 ?_
  rw [declaredNames_map_erase]
  exact h.names

theorem refl (hnames : (declaredNames items).Nodup) : Rearranged items items := ⟨rfl, .refl _, hnames⟩

/-- The spans do not count. -/
theorem of_erase {erased erased' : List Stmt} (h : items.map erase = erased) (h' : items'.map erase = erased')
    (hothers : plain erased = plain erased')
    (hfunctions : (erased.filter isFunction).Perm (erased'.filter isFunction))
    (hnames : (declaredNames erased).Nodup) : Rearranged items items' := by
  subst h h'
  have hsort : isFunction ∘ erase = isFunction := funext isFunction_erase
  have hplain : (!isFunction ·) ∘ erase = (!isFunction ·) := funext fun item => congrArg not (isFunction_erase item)
  rw [plain, plain, List.filter_map, List.filter_map, hplain] at hothers
  rw [List.filter_map, List.filter_map, hsort] at hfunctions
  rw [declaredNames_map_erase] at hnames
  exact ⟨hothers, hfunctions, hnames⟩

theorem mem (h : Rearranged items items') (hitem : item ∈ items) : ∃ item' ∈ items', item'.erase = item.erase :=
  List.mem_map.1 (h.perm.subset (List.mem_map_of_mem hitem))

/-- An item other than a function stands at the same place among its like. -/
theorem split (h : Rearranged (pre ++ x :: rest) items') (hx : x.isFunction = false) :
    ∃ pre' x' rest', items' = pre' ++ x' :: rest' ∧ x'.erase = x.erase ∧
      (plain pre').map erase = (plain pre).map erase := by
  have hplain := h.others
  unfold plain at hplain ⊢
  rw [List.filter_append, List.filter_cons_of_pos (by rw [hx]; rfl), List.map_append, List.map_cons,
    eq_comm, List.map_eq_append_iff] at hplain
  obtain ⟨l₁, l₂, hl, hl₁, hl₂⟩ := hplain
  obtain ⟨x', l₃, rfl, hx', -⟩ := List.map_eq_cons_iff.1 hl₂
  obtain ⟨m₁, m₂, rfl, rfl, hm₂⟩ := List.filter_eq_append_iff.1 hl
  obtain ⟨n₁, n₂, rfl, hn₁, -, -⟩ := List.filter_eq_cons_iff.1 hm₂
  refine ⟨m₁ ++ n₁, x', n₂, by rw [List.append_assoc], hx', ?_⟩
  rw [List.filter_append, List.filter_eq_nil_iff.2 hn₁, List.append_nil, hl₁]

end Rearranged

end Stmt

namespace Check

open Stmt (varSpans varNames declaredNames Ordered Rearranged plain)

variable {items items' pre pre' rest rest' : List Stmt} {item : Stmt} {tree tree' : ScopeTree}
  {symbol symbol' : Symbol} {y : String}

/-! ### The globals of a text -/

theorem map_name_symbols (items : List Stmt) : (items.filterMap symbol?).map (·.name) = declaredNames items := by
  unfold declaredNames
  rw [List.map_filterMap, List.map_filterMap]
  congr 1
  funext item
  cases item <;> rfl

theorem find?_name {symbols : List Symbol} (hnames : (symbols.map (·.name)).Nodup) (h : symbol ∈ symbols) :
    symbols.find? (·.name = symbol.name) = some symbol := by
  induction symbols with
  | nil => cases h
  | cons other symbols ih =>
    rw [List.map_cons, List.nodup_cons] at hnames
    rcases List.mem_cons.1 h with rfl | h
    · rw [List.find?_cons_of_pos (by simp)]
    · have hne : other.name ≠ symbol.name := fun heq => hnames.1 (heq ▸ List.mem_map_of_mem h)
      rw [List.find?_cons_of_neg (by simp [hne])]
      exact ih hnames.2 h

/-- If no name is declared twice, each declaration counts. -/
theorem ahead_of_mem {declared : Symbol} (hnames : (declaredNames items).Nodup) (hitem : item ∈ items)
    (hsymbol : symbol? item = some declared) :
    ∃ symbol, (ahead items items).lookupLocal 0 declared.name = some symbol ∧
      Retyped (varSpans items) declared symbol := by
  obtain ⟨htop, hlocal⟩ := declareItems_spec items Top.new
  have hdeclared : (declareItems items .new).value.lookupLocal 0 declared.name = some declared := by
    rw [hlocal, find?_name (by rwa [map_name_symbols]) (List.mem_filterMap.2 ⟨item, hitem, hsymbol⟩)]
    rfl
  have hretyped := (inferItems_spec items htop).2 declared.name
  rw [hdeclared] at hretyped
  unfold ahead
  generalize (inferItems items _).lookupLocal 0 declared.name = found at hretyped ⊢
  cases hretyped with
  | some hretyped => exact ⟨_, rfl, hretyped⟩

theorem ahead_declaredAt {declared : Symbol} (hnames : (declaredNames items).Nodup) (hitem : item ∈ items)
    (hdeclared : symbol? item = some declared)
    (h : (ahead items items).lookupLocal 0 declared.name = some symbol) :
    symbol.declaredAt = declared.declaredAt := by
  obtain ⟨_, hsymbol, hretyped⟩ := ahead_of_mem hnames hitem hdeclared
  rw [h] at hsymbol
  cases hsymbol
  rw [hretyped.same]

theorem ahead_depth (h : (ahead items items).lookupLocal 0 y = some symbol) :
    symbol.depth = 0 ∧ symbol.name = y := by
  obtain ⟨item, -, declared, hdeclared, hname, hretyped⟩ := ahead_origin h
  rw [hretyped.same]
  refine ⟨?_, hname⟩
  cases item <;> cases hdeclared <;> rfl

theorem ahead_function (hordered : Ordered items) (h : (ahead items items).lookupLocal 0 y = some symbol)
    (hkind : symbol.kind.isFunction = true) : symbol.type = .function := by
  obtain ⟨item, hitem, declared, hdeclared, -, hretyped⟩ := ahead_origin h
  rw [hretyped.same] at hkind
  cases item with
  | function name params body braces span =>
    cases hdeclared
    rw [hretyped.early fun hmem => ?_]
    · rfl
    · obtain ⟨other, hother, oname, honame, hspan⟩ := Stmt.mem_varSpans.1 hmem
      have hsame := hordered.eq_of_span hother hitem (Stmt.declared?_of_var? honame) rfl hspan
      rw [hsame] at honame
      cases honame
  | varDecl =>
    cases hdeclared
    cases hkind
  | _ => cases hdeclared

/-- The other text has the same globals. -/
theorem ahead_rearranged (h : Rearranged items items')
    (hsymbol : (ahead items items).lookupLocal 0 y = some symbol) :
    ∃ symbol', (ahead items' items').lookupLocal 0 y = some symbol' ∧ symbol'.kind = symbol.kind := by
  obtain ⟨item, hitem, declared, hdeclared, rfl, hretyped⟩ := ahead_origin hsymbol
  obtain ⟨item', hitem', herase⟩ := h.mem hitem
  have hsymbol? := congrArg symbol? herase
  rw [Stmt.symbol?_erase, Stmt.symbol?_erase, hdeclared, Option.map_some, Option.map_eq_some_iff] at hsymbol?
  obtain ⟨declared', hdeclared', hsame⟩ := hsymbol?
  obtain ⟨symbol', hsymbol', hretyped'⟩ := ahead_of_mem h.symm.names hitem' hdeclared'
  obtain ⟨hname, hkind, -⟩ := Symbol.mk.inj hsame
  refine ⟨symbol', hname ▸ hsymbol', ?_⟩
  rw [hretyped'.same, hretyped.same]
  exact hkind

theorem ahead_rearranged_none (h : Rearranged items items')
    (hnone : (ahead items items).lookupLocal 0 y = none) : (ahead items' items').lookupLocal 0 y = none := by
  cases hsymbol' : (ahead items' items').lookupLocal 0 y with
  | none => rfl
  | some symbol' =>
    obtain ⟨symbol, hsymbol, -⟩ := ahead_rearranged h.symm hsymbol'
    rw [hsymbol] at hnone
    cases hnone

/-! ### What a text has passed -/

/-- The top level when `pre` has been checked. -/
def treeAt (items pre : List Stmt) : ScopeTree := (checkStmts .top (ahead items items) false pre).value

theorem treeAt_append_singleton (items pre : List Stmt) (item : Stmt) :
    treeAt items (pre ++ [item]) = (checkStmt .top (treeAt items pre) item).value := by
  have hvalue (tree : ScopeTree) (warned : Bool) : (checkStmts .top tree warned (pre ++ [item])).value =
      (checkStmt .top (checkStmts .top tree warned pre).value item).value := by
    induction pre generalizing tree warned with
    | nil => rfl
    | cons first pre ih => exact ih _ _
  exact hvalue _ _

theorem seen_treeAt (hordered : Ordered (pre ++ rest)) : Seen (pre ++ rest) rest (treeAt (pre ++ rest) pre) := by
  have hstart : Seen ([] ++ (pre ++ rest)) (pre ++ rest) (ahead (pre ++ rest) (pre ++ rest)) :=
    .start (pre ++ rest)
  exact hstart.run hordered false

/-- The functions and the variables that have been passed are initialized. -/
theorem initialized_iff (hordered : Ordered (pre ++ rest)) (hnames : (declaredNames (pre ++ rest)).Nodup)
    (hsymbol : (ahead (pre ++ rest) (pre ++ rest)).lookupLocal 0 y = some symbol) :
    (mark (varSpans rest) symbol).initialized = true ↔
      symbol.kind.isFunction = true ∨ y ∈ varNames pre := by
  obtain ⟨item, hitem, declared, hdeclared, rfl, hretyped⟩ := ahead_origin hsymbol
  rw [hretyped.same]
  cases item with
  | function => cases hdeclared; simp [mark, functionSymbol, SymbolKind.isFunction]
  | varDecl name type init span =>
    cases hdeclared
    simp only [mark, variableSymbol, SymbolKind.isFunction, Bool.false_or, Bool.false_eq_true, false_or]
    constructor
    · intro hmem
      replace hmem := of_decide_eq_true hmem
      rcases List.mem_append.1 hitem with hpre | hrest
      · exact List.mem_map.2 ⟨name, List.mem_filterMap.2 ⟨_, hpre, rfl⟩, rfl⟩
      · exact absurd (Stmt.mem_varSpans.2 ⟨_, hrest, name, rfl, rfl⟩) hmem
    · -- a second declaration of the name would stand in `rest`
      refine fun hname => decide_eq_true fun hmem => ?_
      obtain ⟨other, hother, oname, honame, hspan⟩ := Stmt.mem_varSpans.1 hmem
      have hsame := hordered.eq_of_span (List.mem_append_right pre hother) hitem
        (Stmt.declared?_of_var? honame) rfl hspan
      rw [hsame] at hother
      obtain ⟨first, hfirst, hfirstName⟩ := List.mem_map.1 hname
      obtain ⟨item, hitem, hvar⟩ := List.mem_filterMap.1 hfirst
      rw [declaredNames, List.filterMap_append, List.map_append, List.nodup_append] at hnames
      refine hnames.2.2 name.name ?_ name.name ?_ rfl
      · exact List.mem_map.2 ⟨first, List.mem_filterMap.2 ⟨item, hitem, Stmt.declared?_of_var? hvar⟩, hfirstName⟩
      · exact List.mem_map.2 ⟨name, List.mem_filterMap.2 ⟨_, hother, rfl⟩, rfl⟩
  | _ => cases hdeclared

/-- What is read at the top level. -/
theorem Seen.readAt_eq (h : Seen (pre ++ rest) rest tree) (hordered : Ordered (pre ++ rest))
    (hnames : (declaredNames (pre ++ rest)).Nodup) (y : String) : readAt (Context.top.view tree) y =
      match (ahead (pre ++ rest) (pre ++ rest)).lookupLocal 0 y with
      | some symbol => if symbol.kind.isFunction = true ∨ y ∈ varNames pre then symbol.type else .unknown
      | none => .unknown := by
  have hlookup : tree.lookup 0 y = _ := h.top.lookup y
  rw [h.symbols] at hlookup
  rw [readAt, Context.view, Context.top]
  dsimp only
  rw [hlookup]
  cases hsymbol : (ahead (pre ++ rest) (pre ++ rest)).lookupLocal 0 y with
  | none => rfl
  | some symbol =>
    simp only [Option.map_some, readType, initialized_iff hordered hnames hsymbol]
    rfl

/-! ### The types of the variables -/

theorem exprType_erase (read : String → Ty) : ∀ e : Expr, exprType read e.erase = exprType read e
  | .literal .. | .ident _ | .call .. => rfl
  | .assign _ value _ => exprType_erase read value
  | .binary op lhs rhs _ => by simp only [Expr.erase, exprType, exprType_erase read lhs, exprType_erase read rhs]
  | .unary op operand _ => by simp only [Expr.erase, exprType, exprType_erase read operand]

/-- An initial value reads the same in both texts, if the variables before it have the same types. -/
theorem readAhead_eq {x x' : Stmt} {name name' : Ident} (h : Rearranged (pre ++ x :: rest) (pre' ++ x' :: rest'))
    (hordered : Ordered (pre ++ x :: rest)) (hordered' : Ordered (pre' ++ x' :: rest'))
    (hx : x.var? = some name) (hx' : x'.var? = some name')
    (hplain : (plain pre').map Stmt.erase = (plain pre).map Stmt.erase)
    (htypes : ∀ z ∈ varNames pre, ∀ symbol symbol',
      (ahead (pre ++ x :: rest) (pre ++ x :: rest)).lookupLocal 0 z = some symbol →
      (ahead (pre' ++ x' :: rest') (pre' ++ x' :: rest')).lookupLocal 0 z = some symbol' →
      symbol.type = symbol'.type) (y : String) :
    readAhead (ahead (pre ++ x :: rest) pre) name.span y =
      readAhead (ahead (pre' ++ x' :: rest') pre') name'.span y := by
  have hseen := seen_treeAt hordered
  have hseen' := seen_treeAt hordered'
  have hvars : varNames pre' = varNames pre := by rw [Stmt.varNames_eq, Stmt.varNames_eq, hplain]
  rw [← hseen.read_agrees hordered hx, ← hseen'.read_agrees hordered' hx', hseen.readAt_eq hordered h.names,
    hseen'.readAt_eq hordered' h.symm.names, hvars]
  cases hsymbol : (ahead (pre ++ x :: rest) (pre ++ x :: rest)).lookupLocal 0 y with
  | none => rw [ahead_rearranged_none h hsymbol]
  | some symbol =>
    obtain ⟨symbol', hsymbol', hkind⟩ := ahead_rearranged h hsymbol
    rw [hsymbol']
    dsimp only
    rw [hkind]
    split
    · next hknown =>
      rcases hknown with hfunction | hvar
      · rw [ahead_function hordered hsymbol hfunction,
          ahead_function hordered' hsymbol' (by rw [hkind]; exact hfunction)]
      · exact htypes y hvar symbol symbol' hsymbol hsymbol'
    · rfl

/-- By induction on the variables in their order: each has the same type in both texts. -/
theorem variable_types (h : Rearranged items items') (hordered : Ordered items) (hordered' : Ordered items')
    (hitems : items = pre ++ rest) (hy : y ∈ varNames pre)
    (hsymbol : (ahead items items).lookupLocal 0 y = some symbol)
    (hsymbol' : (ahead items' items').lookupLocal 0 y = some symbol') : symbol.type = symbol'.type := by
  induction pre using List.reverseRecOn generalizing rest y symbol symbol' with
  | nil => cases hy
  | append_singleton pre x ih =>
    rw [List.append_assoc, List.singleton_append] at hitems
    rw [varNames, List.filterMap_append, List.map_append, List.mem_append] at hy
    rcases hy with hy | hy
    · exact ih hitems hy hsymbol hsymbol'
    obtain ⟨name, hname, rfl⟩ := List.mem_map.1 hy
    obtain ⟨item, hitem, hvar⟩ := List.mem_filterMap.1 hname
    obtain rfl := List.mem_singleton.1 hitem
    cases item with
    | varDecl name₀ type init span =>
      cases hvar
      obtain ⟨pre', x', rest', hitems', herase, hplain⟩ := (hitems ▸ h).split rfl
      cases x' with
      | varDecl name' type' init' span' =>
        simp only [Stmt.erase, Stmt.varDecl.injEq] at herase
        obtain ⟨hnames, rfl, hinit, -⟩ := herase
        have hname' : name'.name = name.name := (Ident.mk.inj hnames).1
        rw [← hname'] at hsymbol'
        have hplace : symbol.declaredAt = name.span :=
          ahead_declaredAt h.names (hitems ▸ List.mem_append_right pre List.mem_cons_self) rfl hsymbol
        have hplace' : symbol'.declaredAt = name'.span :=
          ahead_declaredAt h.symm.names (hitems' ▸ List.mem_append_right pre' List.mem_cons_self) rfl hsymbol'
        rw [ahead_type hitems hordered hsymbol hplace, ahead_type hitems' hordered' hsymbol' hplace']
        subst hitems hitems'
        have hreads := readAhead_eq h hordered hordered' rfl rfl hplain fun z hz _ _ => ih rfl hz
        cases init with
        | none =>
          obtain rfl : init' = none := Option.map_eq_none_iff.1 hinit
          rfl
        | some e =>
          obtain ⟨e', rfl, he⟩ := Option.map_eq_some_iff.1 hinit
          simp only [Option.map_some]
          rw [initializerType_eq, initializerType_eq, ← exprType_erase _ e, ← exprType_erase _ e', he,
            funext hreads]
      | branch cond thenStmt elseStmt span => cases elseStmt <;> cases herase
      | _ => cases herase
    | _ => cases hvar

/-- The two texts have the same globals, with the same types. -/
theorem types_agree (h : Rearranged items items') (hordered : Ordered items) (hordered' : Ordered items')
    (hsymbol : (ahead items items).lookupLocal 0 y = some symbol) :
    ∃ symbol', (ahead items' items').lookupLocal 0 y = some symbol' ∧ symbol'.kind = symbol.kind ∧
      symbol'.type = symbol.type := by
  obtain ⟨symbol', hsymbol', hkind⟩ := ahead_rearranged h hsymbol
  refine ⟨symbol', hsymbol', hkind, ?_⟩
  by_cases hfunction : symbol.kind.isFunction = true
  · rw [ahead_function hordered hsymbol hfunction,
      ahead_function hordered' hsymbol' (by rw [hkind]; exact hfunction)]
  · obtain ⟨item, hitem, declared, hdeclared, rfl, hretyped⟩ := ahead_origin hsymbol
    have hy : declared.name ∈ varNames items := by
      cases item with
      | varDecl name type init span =>
        cases hdeclared
        exact List.mem_map.2 ⟨name, List.mem_filterMap.2 ⟨_, hitem, rfl⟩, rfl⟩
      | function =>
        cases hdeclared
        exact absurd (by rw [hretyped.same]; rfl) hfunction
      | _ => cases hdeclared
    exact (variable_types h hordered hordered' (List.append_nil items).symm hy hsymbol hsymbol').symm

/-! ### Item by item -/

theorem Top.deep (h : Top tree) : tree.Deep := by
  constructor
  · intro id hid hlt
    rw [h.size] at hlt
    omega
  · intro id hid y symbol hy
    rw [ScopeTree.lookupLocal, h.scope_of_ne_zero hid] at hy
    cases hy

/-- Where an item stands, the two texts differ in which variables have been passed. -/
theorem sees_treeAt (h : Rearranged (pre ++ rest) (pre' ++ rest')) (hordered : Ordered (pre ++ rest))
    (hordered' : Ordered (pre' ++ rest')) :
    Sees (fun y => y ∈ varNames pre ↔ y ∈ varNames pre')
      (fun y symbol => ∃ symbol', (ahead (pre' ++ rest') (pre' ++ rest')).lookupLocal 0 y = some symbol' ∧
        symbol'.kind = symbol.kind ∧ symbol'.type = symbol.type)
      0 (treeAt (pre ++ rest) pre) (treeAt (pre' ++ rest') pre') := by
  have hseen := seen_treeAt hordered
  have hseen' := seen_treeAt hordered'
  refine ⟨hseen.top.alike hseen'.top fun y => ?_, hseen.top.deep, hseen.top.size_pos⟩
  rw [hseen.symbols, hseen'.symbols]
  cases hsymbol : (ahead (pre ++ rest) (pre ++ rest)).lookupLocal 0 y with
  | none =>
    rw [ahead_rearranged_none h hsymbol]
    exact .none
  | some symbol =>
    obtain ⟨symbol', hsymbol', hkind, htype⟩ := types_agree h hordered hordered' hsymbol
    rw [hsymbol']
    have hdepth := (ahead_depth hsymbol).1
    refine .some ⟨hkind.symm, htype.symm, hdepth.trans (ahead_depth hsymbol').1.symm, fun hX => ?_,
      fun _ => ⟨symbol', hsymbol', hkind, htype⟩⟩
    have hpassed := hX.resolve_left fun hne => hne hdepth
    rw [Bool.eq_iff_iff, initialized_iff hordered h.names hsymbol,
      initialized_iff hordered' h.symm.names hsymbol', hkind, hpassed]

/-- An item is checked with the same errors in both texts, if the variables that it reads have been passed
both times or neither time. -/
theorem item_codes {x x' : Stmt} (h : Rearranged (pre ++ x :: rest) (pre' ++ x' :: rest'))
    (hordered : Ordered (pre ++ x :: rest)) (hordered' : Ordered (pre' ++ x' :: rest'))
    (herase : x.erase = x'.erase) (hreads : ∀ y ∈ x.reads, y ∈ varNames pre ↔ y ∈ varNames pre') :
    (checkStmt .top (treeAt (pre ++ x :: rest) pre) x).codes =
      (checkStmt .top (treeAt (pre' ++ x' :: rest') pre') x').codes := by
  have hsees := sees_treeAt h hordered hordered'
  have hsees' := sees_treeAt (.refl h.symm.names) hordered' hordered'
  have hcodes := (checkStmt_echoes x (c := .top) hsees fun y hy => .inl (hreads y hy)).codes
  have hcodes' := (checkStmt_echoes x' (c := .top) hsees' fun y _ => .inl Iff.rfl).codes
  rw [hcodes, hcodes', herase]

theorem codes_checkReachable (diverged : Bool) (stmts : List Stmt) :
    (checkReachable diverged stmts).codes = [] := by
  cases stmts with
  | nil => rfl
  | cons => cases diverged <;> rfl

theorem codes_checkStmts (items pre rest : List Stmt) (warned : Bool) :
    (checkStmts .top (treeAt items pre) warned rest).codes =
      (Stmt.placed pre rest).flatMap fun place => (checkStmt .top (treeAt items place.1) place.2).codes := by
  induction rest generalizing pre warned with
  | nil => rfl
  | cons item rest ih =>
    simp only [checkStmts, Checked.codes_bind, codes_checkReachable, List.nil_append, Stmt.placed,
      List.flatMap_cons]
    rw [← treeAt_append_singleton, ih]

theorem lookups_checkStmts {entry : Ident × Lookup} {warned : Bool}
    (h : entry ∈ (checkStmts .top (treeAt items pre) warned rest).lookups) :
    ∃ place ∈ Stmt.placed pre rest, entry ∈ (checkStmt .top (treeAt items place.1) place.2).lookups := by
  induction rest generalizing pre warned with
  | nil => cases h
  | cons item rest ih =>
    have hreachable (diverged : Bool) : (checkReachable diverged rest).lookups = [] := by
      cases rest with
      | nil => rfl
      | cons => cases diverged <;> rfl
    simp only [checkStmts, Checked.lookups_bind, hreachable, List.nil_append, List.mem_append] at h
    rcases h with h | h
    · exact ⟨(pre, item), List.mem_cons_self, h⟩
    · rw [← treeAt_append_singleton] at h
      obtain ⟨place, hplace, hentry⟩ := ih h
      exact ⟨place, List.mem_cons_of_mem _ hplace, hentry⟩

/-- No name is taken when it is declared. -/
theorem codes_declareItems (hnames : (declaredNames items).Nodup) (htop : Top tree)
    (hfree : ∀ y ∈ declaredNames items, tree.lookupLocal 0 y = none) : (declareItems items tree).codes = [] := by
  induction items generalizing tree with
  | nil => rfl
  | cons item items ih =>
    cases hsymbol : symbol? item with
    | none =>
      have hnone : item.declared? = none := by cases item <;> cases hsymbol <;> rfl
      rw [declaredNames, List.filterMap_cons_none hnone] at hnames hfree
      rw [declareItems_cons_of_none hsymbol]
      exact ih hnames htop hfree
    | some symbol =>
      rw [declaredNames, List.filterMap_cons_some (declared?_of_symbol? hsymbol), List.map_cons] at hnames hfree
      rw [List.nodup_cons] at hnames
      have hdeclare : declare tree 0 symbol = pure (tree.addSymbol 0 symbol) := by
        rw [declare, ScopeTree.declare, hfree symbol.name List.mem_cons_self]
      rw [declareItems_cons_of_some hsymbol, hdeclare]
      refine ih hnames.2 (htop.addSymbol symbol) fun y hy => ?_
      have hne : y ≠ symbol.name := by
        rintro rfl
        exact hnames.1 hy
      rw [Checked.value_pure, htop.lookupLocal_addSymbol, if_neg hne]
      exact hfree y (List.mem_cons_of_mem _ hy)

end Check

namespace Stmt

/-! ### Pairing the items -/

/-- An item and, unless it is a function, what stands before it without the functions. -/
def key (place : List Stmt × Stmt) : Stmt × Option (List Stmt) :=
  (place.2.erase, if place.2.isFunction then none else some ((plain place.1).map erase))

/-- The keys of items other than functions. -/
def plainKeys (pre : List Stmt) : List Stmt → List (Stmt × Option (List Stmt))
  | [] => []
  | item :: items => (item, some pre) :: plainKeys (pre ++ [item]) items

theorem keys_placed (pre items : List Stmt) : ((placed pre items).map key).Perm
    (((items.filter isFunction).map erase).map (·, none) ++
      plainKeys ((plain pre).map erase) ((plain items).map erase)) := by
  induction items generalizing pre with
  | nil => exact .nil
  | cons item items ih =>
    have hrest := ih (pre ++ [item])
    rw [placed, List.map_cons, key]
    unfold plain at hrest ⊢
    rw [List.filter_append] at hrest
    cases hitem : item.isFunction with
    | true =>
      simp only [List.filter_cons, List.filter_nil, hitem, Bool.not_true, if_true, Bool.false_eq_true, if_false,
        List.append_nil, List.map_cons, List.cons_append] at hrest ⊢
      exact hrest.cons _
    | false =>
      simp only [List.filter_cons, List.filter_nil, hitem, Bool.not_false, if_true, Bool.false_eq_true, if_false,
        List.map_cons, List.map_append, List.map_nil, plainKeys] at hrest ⊢
      exact (hrest.cons _).trans List.perm_middle.symm

/-- What an item reads has been passed in both texts or in neither: for a function this is assumed, and before
any other item the same variables are declared. -/
theorem ReadsInPlace.passed (h : ReadsInPlace items items') (hplace : (pre, x) ∈ placed [] items)
    (hplace' : (pre', x') ∈ placed [] items') (hkey : key (pre, x) = key (pre', x')) :
    ∀ y ∈ x.reads, y ∈ varNames pre ↔ y ∈ varNames pre' := by
  intro y hy
  have herase : x.erase = x'.erase := congrArg Prod.fst hkey
  have hfunction : x'.isFunction = x.isFunction := by
    rw [← isFunction_erase, ← herase, isFunction_erase]
  cases hx : x.isFunction with
  | true =>
    refine h _ hplace _ hplace' hx ?_ y hy
    have hname := congrArg (fun s => s.declared?.map (·.name)) herase
    simp only [declared?_erase, Option.map_map] at hname
    exact hname
  | false =>
    have hplain : (plain pre).map erase = (plain pre').map erase := by
      simpa [key, hfunction, hx] using congrArg Prod.snd hkey
    rw [varNames_eq, varNames_eq, hplain]

theorem Rearranged.keys (h : Rearranged items items') :
    ((placed [] items).map key).Perm ((placed [] items').map key) := by
  refine (keys_placed [] items).trans (.trans ?_ (keys_placed [] items').symm)
  rw [h.others]
  exact (h.functions.map _).append_right _

end Stmt

/-- Two lists whose elements can be paired by their keys, with the same results for each pair. -/
theorem flatMap_perm_of_keys {α β γ : Type} {l l' : List α} {key : α → γ} {f g : α → List β}
    (hkeys : (l.map key).Perm (l'.map key)) (h : ∀ a ∈ l, ∀ b ∈ l', key a = key b → f a = g b) :
    (l.flatMap f).Perm (l'.flatMap g) := by
  induction l generalizing l' with
  | nil =>
    obtain rfl : l' = [] := List.map_eq_nil_iff.1 (List.nil_perm.1 hkeys)
    exact .nil
  | cons a l ih =>
    obtain ⟨b, hb, hkey⟩ := List.mem_map.1 (hkeys.subset (List.mem_map_of_mem List.mem_cons_self))
    obtain ⟨l₁, l₂, rfl⟩ := List.append_of_mem hb
    have hrest : (l.map key).Perm ((l₁ ++ l₂).map key) := by
      have hcons := hkeys.trans (List.perm_middle.map key : ((l₁ ++ b :: l₂).map key).Perm _)
      rw [List.map_cons, List.map_cons, hkey] at hcons
      exact hcons.cons_inv
    have hperm := ih hrest fun a' ha' b' hb' =>
      h a' (List.mem_cons_of_mem _ ha') b' (List.perm_middle.symm.subset (List.mem_cons_of_mem b hb'))
    rw [List.flatMap_cons, h a List.mem_cons_self b hb hkey.symm]
    have hmiddle : ((b :: (l₁ ++ l₂)).flatMap g).Perm ((l₁ ++ b :: l₂).flatMap g) :=
      List.perm_middle.symm.flatMap_right g
    exact (hperm.append_left _).trans hmiddle

/-! ### Programs -/

theorem ScopeTree.mem_globals {tree : ScopeTree} {name : String} {symbol : Symbol}
    (h : tree.lookupLocal 0 name = some symbol) : symbol ∈ tree.globals :=
  List.mem_mergeSort.2 (List.mem_map.2 ⟨_, Table.mem_entries_of_get? h, rfl⟩)

namespace Program

variable {p p' : Program}

/-- The errors of a check come from its items, if no name is declared twice. -/
theorem codes_check (hnames : (Stmt.declaredNames p.items).Nodup) : p.check.errors.map (·.code) =
    (Stmt.placed [] p.items).flatMap fun place => (checkStmt .top (treeAt p.items place.1) place.2).codes := by
  have hcodes : p.check.errors.map (·.code) = (declareGlobals p.items >>= fun tree =>
      checkStmts .top tree false p.items).codes := rfl
  have hglobals : (declareGlobals p.items).codes = [] := by
    rw [declareGlobals, Checked.codes_bind, codes_declareItems hnames Top.new fun _ _ => rfl]
    rfl
  rw [hcodes, Checked.codes_bind, hglobals, List.nil_append]
  exact codes_checkStmts p.items [] p.items false

/-- A global that is looked up has the type that it has from its declaration. -/
theorem lookups_global (hordered : Stmt.Ordered p.items) (hnames : (Stmt.declaredNames p.items).Nodup)
    {name : Ident} {symbol : Symbol} (h : (name, .found symbol) ∈ p.check.lookups) (hdepth : symbol.depth = 0) :
    ∃ declared, (ahead p.items p.items).lookupLocal 0 name.name = some declared ∧
      declared.kind = symbol.kind ∧ declared.type = symbol.type := by
  have hdeclaring : (declareGlobals p.items).lookups = [] := by
    have hnames := names_declareItems p.items .new
    rw [Checked.names, List.map_eq_nil_iff] at hnames
    rw [declareGlobals, Checked.lookups_bind, hnames]
    rfl
  have hlookups : p.check.lookups = (declareGlobals p.items >>= fun tree =>
      checkStmts .top tree false p.items).lookups := rfl
  rw [hlookups, Checked.lookups_bind, hdeclaring, List.nil_append] at h
  replace h : _ ∈ (checkStmts .top (treeAt p.items []) false p.items).lookups := h
  obtain ⟨⟨pre, x⟩, hplace, hentry⟩ := lookups_checkStmts h
  obtain ⟨rest, hitems⟩ := Stmt.mem_placed hplace
  rw [List.nil_append] at hitems
  rw [hitems] at hordered hnames hentry ⊢
  have hsees := sees_treeAt (.refl hnames) hordered hordered
  obtain ⟨_, hagrees⟩ := (checkStmt_echoes x (c := .top) hsees fun y _ => .inl Iff.rfl).found _ _ hentry
  exact hagrees.isGlobal hdepth

theorem mem_symbols (hordered : Stmt.Ordered p.items) {y : String} {declared : Symbol}
    (h : (ahead p.items p.items).lookupLocal 0 y = some declared) :
    ∃ symbol ∈ p.check.symbols, symbol.name = y ∧ symbol.kind = declared.kind ∧ symbol.type = declared.type := by
  have hseen : Seen (p.items ++ []) [] (treeAt (p.items ++ []) p.items) :=
    seen_treeAt (by rwa [List.append_nil])
  rw [List.append_nil] at hseen
  have hsymbol := hseen.symbols y
  rw [h, Option.map_some] at hsymbol
  exact ⟨_, ScopeTree.mem_globals hsymbol, (ahead_depth h).2, rfl, rfl⟩

/-- Two texts of the same items, the functions in other places. A global has the same type in the one text as
in the other, wherever it is looked up. And if no function is moved across a variable that it reads, checking
reports errors with the same codes. -/
theorem check_rearranged (source source' : String) :
    let p := (ofTokens (Tokens.ofText source).tokens).program
    let p' := (ofTokens (Tokens.ofText source').tokens).program
    Stmt.Rearranged p.items p'.items →
      (∀ name symbol, (name, .found symbol) ∈ p.check.lookups → symbol.depth = 0 →
        ∃ symbol' ∈ p'.check.symbols, symbol'.name = name.name ∧ symbol'.kind = symbol.kind ∧
          symbol'.type = symbol.type) ∧
      (Stmt.ReadsInPlace p.items p'.items →
        (p.check.errors.map (·.code)).Perm (p'.check.errors.map (·.code))) := by
  intro p p' h
  have hordered : Stmt.Ordered p.items := items_ordered source
  have hordered' : Stmt.Ordered p'.items := items_ordered source'
  constructor
  · intro name symbol hentry hdepth
    obtain ⟨declared, hdeclared, hkind, htype⟩ := lookups_global hordered h.names hentry hdepth
    obtain ⟨declared', hdeclared', hkind', htype'⟩ := types_agree h hordered hordered' hdeclared
    obtain ⟨symbol', hmem, hname, hkind'', htype''⟩ := mem_symbols hordered' hdeclared'
    exact ⟨symbol', hmem, hname, hkind''.trans (hkind'.trans hkind), htype''.trans (htype'.trans htype)⟩
  · intro hreads
    rw [codes_check h.names, codes_check h.symm.names]
    refine flatMap_perm_of_keys h.keys ?_
    rintro ⟨pre, x⟩ hplace ⟨pre', x'⟩ hplace' hkey
    obtain ⟨rest, hitems⟩ := Stmt.mem_placed hplace
    obtain ⟨rest', hitems'⟩ := Stmt.mem_placed hplace'
    rw [List.nil_append] at hitems hitems'
    have herase : x.erase = x'.erase := congrArg Prod.fst hkey
    have hpassed := hreads.passed hplace hplace' hkey
    rw [hitems, hitems'] at h
    rw [hitems] at hordered ⊢
    rw [hitems'] at hordered' ⊢
    exact item_codes h hordered hordered' herase hpassed

/-- The function assigns to the variable, and to do so it may stand before it or after it. The assignment is
an error in both places, and so is the operator. -/
theorem check_rearranged_assignment :
    let p := (ofTokens (Tokens.ofText "func f() \x7b x = true; \x7d let x = 1; print(x && true);").tokens).program
    let p' := (ofTokens (Tokens.ofText "let x = 1; print(x && true); func f() \x7b x = true; \x7d").tokens).program
    Stmt.Rearranged p.items p'.items ∧ Stmt.ReadsInPlace p.items p'.items ∧
      (p.check.errors.map (·.code)).Perm (p'.check.errors.map (·.code)) := by
  intro p p'
  let number : Stmt := .varDecl ⟨"x", default⟩ none (some (.literal (.int 1) default)) default
  let test : Stmt := .print (.binary .and (.ident ⟨"x", default⟩) (.literal (.bool true) default) default) default
  let f : Stmt := .function ⟨"f", default⟩ []
    [.expr (.assign ⟨"x", default⟩ (.literal (.bool true) default) default) default] default default
  have hfirst : p.items.map Stmt.erase = [f, number, test] := by with_unfolding_all rfl
  have hlast : p'.items.map Stmt.erase = [number, test, f] := by with_unfolding_all rfl
  have hrearranged : Stmt.Rearranged p.items p'.items := .of_erase hfirst hlast rfl (.refl _) (by decide)
  have hreads : Stmt.ReadsInPlace p.items p'.items := by
    unfold p p'
    decide +kernel
  exact ⟨hrearranged, hreads, (check_rearranged _ _ hrearranged).2 hreads⟩

/-- The function reads the variable. The error in it is found only if the variable stands before it. -/
theorem read_before_declaration :
    let r := ofTokens (Tokens.ofText "func f() \x7b print(x && true); \x7d let x = 1;").tokens
    let r' := ofTokens (Tokens.ofText "let x = 1; func f() \x7b print(x && true); \x7d").tokens
    r.diagnostics = [] ∧ r'.diagnostics = [] ∧ Stmt.Rearranged r.program.items r'.program.items ∧
      r.program.check.errors.map (·.code) = [] ∧ r'.program.check.errors.map (·.code) = [.typeMismatch] := by
  intro r r'
  let number : Stmt := .varDecl ⟨"x", default⟩ none (some (.literal (.int 1) default)) default
  let f : Stmt := .function ⟨"f", default⟩ []
    [.print (.binary .and (.ident ⟨"x", default⟩) (.literal (.bool true) default) default) default] default default
  have hfirst : r.program.items.map Stmt.erase = [f, number] := by with_unfolding_all rfl
  have hlast : r'.program.items.map Stmt.erase = [number, f] := by with_unfolding_all rfl
  obtain ⟨hquiet, hquiet', hcodes⟩ : r.diagnostics = [] ∧ r'.diagnostics = [] ∧
      r.program.check.errors.map (·.code) = [] ∧ r'.program.check.errors.map (·.code) = [.typeMismatch] := by
    unfold r r'
    decide +kernel
  exact ⟨hquiet, hquiet', .of_erase hfirst hlast rfl (.refl _) (by decide), hcodes⟩

end Program

end Scriptlet
