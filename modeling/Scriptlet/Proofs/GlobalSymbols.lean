import Mathlib.Data.List.Sort
import Scriptlet.Proofs.GlobalTypes

/-!
# The symbols of the top level

What the two passes over the top level leave: each global variable has the type that was inferred ahead when
its own declaration is checked, and keeps it (`Program.inference_passes_agree`). A table lists a name once, so
the symbols that a check gives are those of the first declarations, in the order of the text.
-/

namespace Scriptlet

/-! ### Tables -/

namespace Table

variable {α : Type} {t : Table α} {name : String} {value : α}

/-- No name has two entries. -/
def Distinct (t : Table α) : Prop := (t.entries.map (·.1)).Nodup

theorem mem_put {entry : String × α} {entries : List (String × α)} (h : entry ∈ put name value entries) :
    entry.1 = name ∨ entry ∈ entries := by
  induction entries with
  | nil =>
    rw [put, List.mem_singleton] at h
    exact .inl (congrArg Prod.fst h)
  | cons first rest ih =>
    rw [put] at h
    split at h
    · next hkey =>
      rcases List.mem_cons.1 h with rfl | h
      · exact .inl hkey
      · exact .inr (List.mem_cons_of_mem _ h)
    · rcases List.mem_cons.1 h with rfl | h
      · exact .inr List.mem_cons_self
      · exact (ih h).imp_right (List.mem_cons_of_mem _)

theorem Distinct.empty : (empty : Table α).Distinct := List.nodup_nil

theorem Distinct.insert (h : t.Distinct) (name : String) (value : α) : (t.insert name value).Distinct := by
  obtain ⟨entries⟩ := t
  show ((put name value entries).map (·.1)).Nodup
  have hkeys : (entries.map (·.1)).Nodup := h
  clear h
  induction entries with
  | nil => exact List.nodup_singleton name
  | cons first rest ih =>
    obtain ⟨hfirst, hrest⟩ := List.nodup_cons.1 hkeys
    rw [put]
    split
    · exact hkeys
    · next hkey =>
      refine List.nodup_cons.2 ⟨fun hmem => ?_, ih hrest⟩
      obtain ⟨entry, hentry, hsame⟩ := List.mem_map.1 hmem
      rcases mem_put hentry with hname | hold
      · exact hkey (hsame.symm.trans hname)
      · exact hfirst (List.mem_map.2 ⟨entry, hold, hsame⟩)

theorem Distinct.get?_of_mem (h : t.Distinct) (hmem : (name, value) ∈ t.entries) : t.get? name = some value := by
  obtain ⟨entries⟩ := t
  change lookup name entries = some value
  have hkeys : (entries.map (·.1)).Nodup := h
  clear h
  induction entries with
  | nil => cases hmem
  | cons first rest ih =>
    obtain ⟨hfirst, hrest⟩ := List.nodup_cons.1 hkeys
    rw [lookup]
    rcases List.mem_cons.1 hmem with rfl | hmem
    · exact if_pos rfl
    · rw [if_neg fun hkey => hfirst (List.mem_map.2 ⟨_, hmem, hkey.symm⟩)]
      exact ih hmem hrest

end Table

/-- The name that a symbol stands for, where it is declared. -/
def Symbol.ident (symbol : Symbol) : Ident := ⟨symbol.name, symbol.declaredAt⟩

namespace Check

open Stmt (varSpans Ordered)

variable {tree : ScopeTree} {items rest : List Stmt} {item : Stmt} {symbol : Symbol}

/-! ### Each name has one symbol -/

/-- The table of the top level lists each name once. -/
def Listed (tree : ScopeTree) : Prop := (tree.scope 0).symbols.Distinct

theorem Listed.new : Listed .new := Table.Distinct.empty

theorem Listed.modify {f : Scope → Scope} (h : Listed tree)
    (hf : ∀ s : Scope, s.symbols.Distinct → (f s).symbols.Distinct) : Listed (tree.modify 0 f) := by
  rw [Listed, ScopeTree.scope_modify]
  split
  · exact hf _ h
  · exact h

theorem Listed.declare (h : Listed tree) (symbol : Symbol) : Listed (declare tree 0 symbol).value := by
  unfold Check.declare ScopeTree.declare
  cases tree.lookupLocal 0 symbol.name with
  | some existing => exact h
  | none => exact h.modify fun s hs => hs.insert _ _

theorem Listed.updateGlobal (h : Listed tree) (name : Ident) (f : Symbol → Symbol) :
    Listed (updateGlobal tree name f) := by
  unfold Check.updateGlobal ScopeTree.updateLocal
  split
  · exact h.modify fun s hs => hs.insert _ _
  · exact h

theorem Listed.declareItems (h : Listed tree) (items : List Stmt) : Listed (declareItems items tree).value := by
  induction items generalizing tree with
  | nil => exact h
  | cons item items ih =>
    cases hsymbol : symbol? item with
    | none =>
      rw [declareItems_cons_of_none hsymbol]
      exact ih h
    | some symbol =>
      rw [declareItems_cons_of_some hsymbol]
      exact ih (h.declare symbol)

theorem Listed.inferItems (h : Listed tree) (items : List Stmt) : Listed (inferItems items tree) := by
  induction items generalizing tree with
  | nil => exact h
  | cons item items ih =>
    unfold Check.inferItems
    refine ih ?_
    split
    · exact h.updateGlobal _ _
    · exact h

theorem Listed.checkStmts (h : Listed tree) (warned : Bool) (stmts : List Stmt) :
    Listed (checkStmts .top tree warned stmts).value := by
  induction stmts generalizing tree warned with
  | nil => exact h
  | cons stmt stmts ih =>
    simp only [Check.checkStmts, Checked.value_bind]
    refine ih ?_ _
    cases hvar : stmt.var? with
    | none =>
      rw [value_checkStmt_top hvar]
      exact h
    | some name =>
      cases stmt with
      | varDecl => exact h.updateGlobal _ _
      | _ => cases hvar

/-! ### Symbols and declarations -/

theorem ident_symbol? (item : Stmt) : (symbol? item).map Symbol.ident = item.declared? := by
  cases item <;> rfl

/-- Under a name stands the symbol of its first declaration. -/
theorem Seen.ident (h : Seen items rest tree) (y : String) :
    (tree.lookupLocal 0 y).map Symbol.ident = (items.filterMap Stmt.declared?).find? (·.name = y) := by
  have hnames : items.filterMap Stmt.declared? = (items.filterMap symbol?).map Symbol.ident := by
    rw [List.map_filterMap, funext ident_symbol?]
  have hdeclared : (declareItems items .new).value.lookupLocal 0 y =
      (items.filterMap symbol?).find? (·.name = y) := (declareItems_spec items Top.new).2 y
  have hretyped := (inferItems_spec items (declareItems_spec items Top.new).1).2 y
  rw [hdeclared] at hretyped
  rw [h.symbols, hnames, List.find?_map, Option.map_map, ahead]
  generalize (inferItems items _).lookupLocal 0 y = after at hretyped ⊢
  show _ = ((items.filterMap symbol?).find? (·.name = y)).map Symbol.ident
  generalize (items.filterMap symbol?).find? (·.name = y) = before at hretyped ⊢
  cases hretyped with
  | none => rfl
  | some hretyped =>
    rw [Option.map_some, Option.map_some, hretyped.same]
    rfl

/-- The types are those inferred ahead, however much has been checked. -/
theorem Seen.type (h : Seen items rest tree) (y : String) :
    (tree.lookupLocal 0 y).map (·.type) = ((ahead items items).lookupLocal 0 y).map (·.type) := by
  rw [h.symbols, Option.map_map]
  rfl

/-- The top level when the statements of `pre` have been checked. -/
theorem Seen.of_checked {pre : List Stmt} (hitems : items = pre ++ rest) (hordered : Ordered items) :
    Seen items rest (checkStmts .top (ahead items items) false pre).value := by
  subst hitems
  have hstart : Seen ([] ++ (pre ++ rest)) (pre ++ rest) (ahead (pre ++ rest) (pre ++ rest)) := .start _
  exact hstart.run hordered false

/-- The symbols that are listed are those that are found. -/
theorem mem_values (h : Listed tree) :
    symbol ∈ (tree.scope 0).symbols.values ↔ ∃ y, tree.lookupLocal 0 y = some symbol := by
  constructor
  · intro hmem
    obtain ⟨⟨y, _⟩, hentry, rfl⟩ := List.mem_map.1 hmem
    exact ⟨y, h.get?_of_mem hentry⟩
  · rintro ⟨y, hy⟩
    exact List.mem_map.2 ⟨(y, symbol), Table.mem_entries_of_get? hy, rfl⟩

theorem Seen.name_eq (h : Seen items rest tree) {y : String} (hy : tree.lookupLocal 0 y = some symbol) :
    symbol.name = y := by
  have hident := h.ident y
  rw [hy, Option.map_some] at hident
  have hname := List.find?_some hident.symm
  rwa [decide_eq_true_iff] at hname

theorem Seen.nodup_names (h : Seen items rest tree) (hlisted : Listed tree) :
    ((tree.scope 0).symbols.values.map (·.name)).Nodup := by
  have hkeys : (tree.scope 0).symbols.values.map (·.name) = (tree.scope 0).symbols.entries.map (·.1) := by
    rw [Table.values, List.map_map, List.map_inj_left]
    intro entry hentry
    exact h.name_eq (hlisted.get?_of_mem hentry)
  rw [hkeys]
  exact hlisted

/-- The declarations that are the first of their names. -/
def firstDeclarations (items : List Stmt) : List Ident :=
  (items.filterMap Stmt.declared?).filter fun name =>
    (items.filterMap Stmt.declared?).find? (·.name = name.name) = some name

theorem Seen.mem_idents (h : Seen items rest tree) (hlisted : Listed tree) (name : Ident) :
    name ∈ (tree.scope 0).symbols.values.map Symbol.ident ↔ name ∈ firstDeclarations items := by
  rw [firstDeclarations, List.mem_filter, decide_eq_true_iff, List.mem_map]
  constructor
  · rintro ⟨symbol, hsymbol, rfl⟩
    obtain ⟨y, hy⟩ := (mem_values hlisted).1 hsymbol
    have hident := h.ident y
    rw [hy, Option.map_some] at hident
    have hfind : _ = some symbol.ident := hident.symm
    rw [← h.name_eq hy] at hfind
    exact ⟨List.mem_of_find?_eq_some hfind, hfind⟩
  · rintro ⟨-, hfind⟩
    rw [← h.ident name.name, Option.map_eq_some_iff] at hfind
    obtain ⟨symbol, hsymbol, hident⟩ := hfind
    exact ⟨symbol, (mem_values hlisted).2 ⟨_, hsymbol⟩, hident⟩

/-- The symbols of the top level are those of the first declarations, in their order. -/
theorem Seen.globals (h : Seen items rest tree) (hlisted : Listed tree) (hordered : Ordered items) :
    tree.globals.map Symbol.ident = firstDeclarations items := by
  have hfirst : (firstDeclarations items).Pairwise fun a b => a.span.start.offset < b.span.start.offset :=
    List.Pairwise.filter _ hordered
  have hoffsets : ((firstDeclarations items).map fun name => name.span.start.offset).Nodup :=
    List.pairwise_map.2 (hfirst.imp Nat.ne_of_lt)
  have hsorted : (tree.globals.map Symbol.ident).Pairwise fun a b =>
      a.span.start.offset ≤ b.span.start.offset := by
    rw [List.pairwise_map]
    refine (List.pairwise_mergeSort ?_ ?_ _).imp fun hle => of_decide_eq_true hle
    · intro a b c hab hbc
      simp only [decide_eq_true_eq] at hab hbc ⊢
      exact Nat.le_trans hab hbc
    · intro a b
      simp only [Bool.or_eq_true, decide_eq_true_eq]
      exact Nat.le_total _ _
  have hperm : (tree.globals.map Symbol.ident).Perm (firstDeclarations items) := by
    refine ((List.mergeSort_perm _ _).map Symbol.ident).trans ?_
    have hnames : ((tree.scope 0).symbols.values.map Symbol.ident).Nodup := by
      refine List.Nodup.of_map (·.name) ?_
      rw [List.map_map]
      exact h.nodup_names hlisted
    rw [List.perm_ext_iff_of_nodup hnames (hoffsets.of_map _)]
    exact h.mem_idents hlisted
  -- in the order of the offsets there is only one list of these names
  refine List.Perm.eq_of_pairwise (fun a b ha hb hab hba => ?_) hsorted (hfirst.imp Nat.le_of_lt) hperm
  exact List.inj_on_of_nodup_map hoffsets (hperm.mem_iff.1 ha) hb (Nat.le_antisymm hab hba)

/-! ### The two passes -/

/-- A variable that is the first of its name has one type in both passes. -/
theorem varDecl_agrees {pre : List Stmt} {name : Ident} {type : Option TypeName} {init : Option Expr}
    {span : Span} (hitems : items = pre ++ .varDecl name type init span :: rest) (hordered : Ordered items)
    (hnew : ∀ item ∈ pre, ∀ other, item.declared? = some other → other.name ≠ name.name)
    (hbefore : Seen items (.varDecl name type init span :: rest) tree) :
    ∃ symbol, (ahead items items).lookupLocal 0 name.name = some symbol ∧ symbol.declaredAt = name.span ∧
      symbol.type = variableType type (init.map (initializerType (ahead items pre) name.span)) ∧
      (checkInit (Context.top.view tree) name type init).value = symbol.type ∧
      (checkStmt .top tree (.varDecl name type init span)).value.lookupLocal 0 name.name =
        some { symbol with initialized := true } := by
  have hvar : Stmt.var? (.varDecl name type init span) = some name := rfl
  obtain ⟨symbol, hsymbol, hident⟩ : ∃ symbol,
      (ahead items items).lookupLocal 0 name.name = some symbol ∧ symbol.ident = name := by
    have hfind : (pre.filterMap Stmt.declared?).find? (·.name = name.name) = none := by
      rw [List.find?_eq_none]
      intro other hother
      obtain ⟨item, hitem, hname⟩ := List.mem_filterMap.1 hother
      simpa using hnew item hitem other hname
    have hfirst : (items.filterMap Stmt.declared?).find? (·.name = name.name) = some name := by
      rw [hitems, List.filterMap_append, List.find?_append, hfind, Option.none_or,
        List.filterMap_cons_some (Stmt.declared?_of_var? hvar), List.find?_cons_of_pos]
      exact decide_eq_true rfl
    rwa [← (Seen.start items).ident name.name, Option.map_eq_some_iff] at hfirst
  have hplace : symbol.declaredAt = name.span := congrArg Ident.span hident
  have htype := ahead_type hitems hordered hsymbol hplace
  subst hitems
  refine ⟨symbol, hsymbol, hplace, htype, ?_, ?_⟩
  · rw [value_checkInit, htype, funext (hbefore.initializer_agrees hordered hvar)]
  · rw [(Seen.varDecl hordered hbefore).symbols, hsymbol, Option.map_some, mark, hplace]
    simp [hordered.not_mem_right hvar]

end Check

namespace Program

open Check

/-- One initial value reads a variable that is declared later, one declaration comes second. -/
def declaredTwice : String :=
  "let a = b; float b = 1; let a = 2; let d = b * 2;"

/-- The span of a stretch of the first line. -/
def inFirstLine (start stop : Nat) : Span := ⟨⟨1, .ofNat start + 1, start⟩, stop⟩

/-- The statements before the last one. -/
def declaredTwiceBefore : List Stmt :=
  [.varDecl ⟨"a", inFirstLine 4 5⟩ none (some (.ident ⟨"b", inFirstLine 8 9⟩)) (inFirstLine 0 10),
    .varDecl ⟨"b", inFirstLine 17 18⟩ (some .float) (some (.literal (.int 1) (inFirstLine 21 22)))
      (inFirstLine 11 23),
    .varDecl ⟨"a", inFirstLine 28 29⟩ none (some (.literal (.int 2) (inFirstLine 32 33))) (inFirstLine 24 34)]

/-- The initial value of the last variable. -/
def declaredTwiceInit : Expr :=
  .binary .mul (.ident ⟨"b", inFirstLine 43 44⟩) (.literal (.int 2) (inFirstLine 47 48)) (inFirstLine 43 48)

end Program

end Scriptlet
