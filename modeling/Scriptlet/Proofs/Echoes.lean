import Scriptlet.Proofs.GlobalTypes
import Scriptlet.Proofs.Passes
import Scriptlet.Proofs.Shape

/-!
# The same code in other scopes

A statement is checked twice, the second time without its spans and in other scopes. The scopes of the two
checks hold the same symbols, but not the same global variables need be initialized. If a name is read and
not bound by the statement itself, its flag has to be the same. Then the two checks report errors with the
same codes (`checkStmt_echoes`); a name that is only assigned to does not matter.
-/

namespace Scriptlet

/-! ### Names that are read -/

mutual

/-- The names that an expression reads. To assign to a name is not to read it. -/
def Expr.reads : Expr → List String
  | .literal .. => []
  | .ident name => [name.name]
  | .assign _ value _ => value.reads
  | .binary _ lhs rhs _ => lhs.reads ++ rhs.reads
  | .unary _ operand _ => operand.reads
  | .call callee args _ => callee.reads ++ Expr.readsAll args

def Expr.readsAll : List Expr → List String
  | [] => []
  | e :: es => e.reads ++ Expr.readsAll es

end

def Expr.readsOption : Option Expr → List String
  | none => []
  | some e => e.reads

/-- The names that the statements declare where they stand. -/
def Stmt.declaredNames (body : List Stmt) : List String := (body.filterMap declared?).map (·.name)

mutual

/-- The names that a statement reads, without those that it binds itself. -/
def Stmt.reads : Stmt → List String
  | .varDecl _ _ init _ => Expr.readsOption init
  | .expr e _ | .print e _ => e.reads
  | .block body _ => (Stmt.readsAll body).filter (· ∉ Stmt.declaredNames body)
  | .branch cond thenStmt none _ => cond.reads ++ thenStmt.reads
  | .branch cond thenStmt (some elseStmt) _ => cond.reads ++ (thenStmt.reads ++ elseStmt.reads)
  | .loop cond body _ => cond.reads ++ body.reads
  | .function _ params body _ _ =>
    (Stmt.readsAll body).filter (· ∉ params.map (·.name.name) ++ Stmt.declaredNames body)
  | .returnWith value _ => Expr.readsOption value
  | .breakLoop _ | .continueLoop _ => []

def Stmt.readsAll : List Stmt → List String
  | [] => []
  | s :: ss => s.reads ++ Stmt.readsAll ss

end

theorem Stmt.declared?_erase (s : Stmt) : s.erase.declared? = s.declared?.map Ident.erase := by
  cases s with
  | branch cond thenStmt elseStmt span => cases elseStmt <;> rfl
  | _ => rfl

/-! ### Names that do not reach the top level -/

namespace ScopeTree

variable {t t' t'' : ScopeTree} {id parent : Nat} {name : String}

/-- A scope between `id` and the top level knows the name. -/
inductive Hides (t : ScopeTree) (name : String) : Nat → Prop
  | here {id : Nat} : id ≠ 0 → (t.scope id).local? name ≠ none → Hides t name id
  | outer {id parent : Nat} : (t.scope id).parent = some parent → parent < id → Hides t name parent →
    Hides t name id

/-- Only the symbols of the top level have depth 0. -/
structure Deep (t : ScopeTree) : Prop where
  depth : ∀ id, id ≠ 0 → id < t.size → t.depth id ≠ 0
  symbols : ∀ id, id ≠ 0 → ∀ name symbol, t.lookupLocal id name = some symbol → symbol.depth ≠ 0

/-- A symbol that is found in a scope other than the top level. -/
theorem Deep.found {symbol : Symbol} (h : t.Deep) (hid : id ≠ 0) (hknown : (t.scope id).local? name ≠ none)
    (hlookup : t.lookup id name = .found symbol) : symbol.depth ≠ 0 := by
  refine h.symbols id hid name symbol ?_
  rw [ScopeTree.lookup, Scope.local?] at hlookup
  rw [Scope.local?] at hknown
  rw [lookupLocal]
  cases hsymbol : (t.scope id).symbols.get? name with
  | some other =>
    rw [hsymbol] at hlookup
    cases hlookup
    rfl
  | none =>
    rw [hsymbol] at hlookup hknown
    cases hpending : (t.scope id).pending.get? name with
    | some span =>
      rw [hpending] at hlookup
      cases hlookup
    | none =>
      rw [hpending] at hknown
      exact absurd rfl hknown

theorem Hides.depth {symbol : Symbol} (h : t.Hides name id) (hdeep : t.Deep)
    (hlookup : t.lookup id name = .found symbol) : symbol.depth ≠ 0 := by
  induction h with
  | here hid hknown => exact hdeep.found hid hknown hlookup
  | @outer id parent hparent hlt _ ih =>
    by_cases hknown : (t.scope id).local? name = none
    · rw [ScopeTree.lookup, hknown, hparent] at hlookup
      simp only [hlt, if_true] at hlookup
      exact ih hlookup
    · exact hdeep.found (Nat.ne_of_gt (Nat.lt_of_le_of_lt (Nat.zero_le parent) hlt)) hknown hlookup

/-- The second tree has the scopes of the first, and they know as much. -/
structure Grows (t t' : ScopeTree) : Prop where
  parent : ∀ id parent, (t.scope id).parent = some parent → (t'.scope id).parent = some parent
  known : ∀ id name, (t.scope id).local? name ≠ none → (t'.scope id).local? name ≠ none

namespace Grows

theorem refl (t : ScopeTree) : t.Grows t := ⟨fun _ _ h => h, fun _ _ h => h⟩

theorem trans (h : t.Grows t') (h' : t'.Grows t'') : t.Grows t'' :=
  ⟨fun id parent hparent => h'.parent id parent (h.parent id parent hparent),
    fun id name hknown => h'.known id name (h.known id name hknown)⟩

theorem hides (h : t.Grows t') (hhides : t.Hides name id) : t'.Hides name id := by
  induction hhides with
  | here hid hknown => exact .here hid (h.known _ _ hknown)
  | outer hparent hlt _ ih => exact .outer (h.parent _ _ hparent) hlt ih

theorem modify {f : Scope → Scope} (hparent : (f (t.scope id)).parent = (t.scope id).parent)
    (hknown : ∀ name, (t.scope id).local? name ≠ none → (f (t.scope id)).local? name ≠ none) :
    t.Grows (t.modify id f) := by
  constructor
  · intro j parent hj
    rw [scope_modify]
    split
    · next heq => rw [heq.1, hparent, ← heq.1, hj]
    · exact hj
  · intro j name hj
    rw [scope_modify]
    split
    · next heq => rw [heq.1] at hj ⊢; exact hknown name hj
    · exact hj

theorem push : t.Grows (t.push parent) := by
  -- no scope of the tree has the number of the new one
  have hfresh : t.scope t.size = .global := scope_of_size_le (Nat.le_refl _)
  constructor
  · intro j parent hj
    rw [scope_push]
    split
    · next heq =>
      rw [heq, hfresh] at hj
      cases hj
    · exact hj
  · intro j name hj
    rw [scope_push]
    split
    · next heq =>
      rw [heq, hfresh] at hj
      exact absurd rfl hj
    · exact hj

theorem announce (id : Nat) (name : String) (span : Span) : t.Grows (t.announce id name span) := by
  refine modify ?_ fun other hknown => ?_
  · split <;> rfl
  · split
    · exact hknown
    · rw [Ne, Scope.local?_eq_none] at hknown ⊢
      refine fun hnone => hknown ⟨hnone.1, ?_⟩
      have hpending := hnone.2
      rw [Table.get?_insert] at hpending
      split at hpending
      · cases hpending
      · exact hpending

theorem addSymbol (id : Nat) (symbol : Symbol) : t.Grows (t.addSymbol id symbol) := by
  refine modify rfl fun other hknown => ?_
  rw [Ne, Scope.local?_eq_none] at hknown ⊢
  refine fun hnone => hknown ?_
  rw [Table.get?_insert, Table.get?_erase] at hnone
  split at hnone
  · cases hnone.1
  · exact hnone

end Grows

/-- A name that is announced in a scope does not mean anything further out. -/
theorem local?_announce (hid : id < t.size) (span : Span) :
    ((t.announce id name span).scope id).local? name ≠ none := by
  rw [announce, scope_modify_self _ hid, Ne, Scope.local?_eq_none]
  rintro ⟨-, hpending⟩
  split at hpending
  · next hcontains => simp [Table.contains, hpending] at hcontains
  · rw [Table.get?_insert_self] at hpending
    cases hpending

theorem local?_addSymbol (hid : id < t.size) (symbol : Symbol) :
    ((t.addSymbol id symbol).scope id).local? symbol.name ≠ none := by
  rw [addSymbol, scope_modify_self _ hid, Ne, Scope.local?_eq_none, Table.get?_insert_self]
  intro hnone
  cases hnone.1

namespace Deep

theorem modify {f : Scope → Scope} (h : t.Deep) (hdepth : (f (t.scope id)).depth = (t.scope id).depth)
    (hsymbols : id ≠ 0 → ∀ name symbol, (f (t.scope id)).symbols.get? name = some symbol →
      symbol.depth ≠ 0) : (t.modify id f).Deep := by
  constructor
  · intro j hj hsize
    rw [size_modify] at hsize
    rw [ScopeTree.depth, scope_modify]
    split
    · next heq =>
      rw [heq.1, hdepth, ← heq.1]
      exact h.depth j hj hsize
    · exact h.depth j hj hsize
  · intro j hj name symbol hsymbol
    rw [lookupLocal, scope_modify] at hsymbol
    split at hsymbol
    · next heq =>
      rw [heq.1] at hj hsymbol
      exact hsymbols hj name symbol hsymbol
    · exact h.symbols j hj name symbol hsymbol

theorem push (h : t.Deep) (parent : Nat) : (t.push parent).Deep := by
  constructor
  · intro j hj hsize
    rw [ScopeTree.depth, scope_push]
    split
    · exact Nat.succ_ne_zero _
    · next hne =>
      rw [size_push] at hsize
      exact h.depth j hj (by omega)
  · intro j hj name symbol hsymbol
    rw [lookupLocal, scope_push] at hsymbol
    split at hsymbol
    · cases hsymbol
    · exact h.symbols j hj name symbol hsymbol

theorem announce (h : t.Deep) (id : Nat) (name : String) (span : Span) : (t.announce id name span).Deep := by
  refine h.modify ?_ fun hid other symbol hsymbol => h.symbols id hid other symbol ?_
  · split <;> rfl
  · split at hsymbol <;> exact hsymbol

theorem addSymbol {symbol : Symbol} (h : t.Deep) (hdepth : symbol.depth ≠ 0) : (t.addSymbol id symbol).Deep := by
  refine h.modify rfl fun hid other symbol' hsymbol => ?_
  rw [Table.get?_insert] at hsymbol
  split at hsymbol
  · cases hsymbol
    exact hdepth
  · exact h.symbols id hid other symbol' hsymbol

end Deep

end ScopeTree

/-! ### Two checks that report the same -/

namespace Checked

variable {α β : Type} {R : String → Symbol → Symbol → Prop} {P : α → α → Prop} {Q : β → β → Prop}
  {x x' : Checked α}

/-- The codes of the errors, in their order. -/
def codes (x : Checked α) : List Code := x.errors.map (·.code)

@[simp] theorem codes_pure (a : α) : (pure a : Checked α).codes = [] := rfl

@[simp] theorem codes_bind (x : Checked α) (f : α → Checked β) :
    (x >>= f).codes = x.codes ++ (f x.value).codes := by
  rw [codes, errors_bind, List.map_append]
  rfl

theorem codes_report (f : Check.Fault) (span : Span) :
    (report f span).codes = if f.code.isWarning then [] else [f.code] := by
  rw [codes, errors_report]
  split <;> rfl

/-- The two results are related by `P`, and the errors have the same codes. Every symbol that the first check
has found under a name is related by `R` to one of the second. -/
structure Echoes (R : String → Symbol → Symbol → Prop) (P : α → α → Prop) (x x' : Checked α) : Prop where
  value : P x.value x'.value
  codes : x.codes = x'.codes
  found : ∀ name symbol, (name, .found symbol) ∈ x.lookups → ∃ symbol', R name.name symbol symbol'

namespace Echoes

theorem pure {a a' : α} (h : P a a') : Echoes R P (pure a) (pure a') := ⟨h, rfl, nofun⟩

theorem mono {P' : α → α → Prop} (h : Echoes R P x x') (hP : ∀ a a', P a a' → P' a a') : Echoes R P' x x' :=
  ⟨hP _ _ h.value, h.codes, h.found⟩

theorem bind {f f' : α → Checked β} (hx : Echoes R P x x')
    (hf : ∀ a a', P a a' → Echoes R Q (f a) (f' a')) : Echoes R Q (x >>= f) (x' >>= f') := by
  have hnext := hf _ _ hx.value
  refine ⟨hnext.value, ?_, fun name symbol hmem => ?_⟩
  · rw [codes_bind, codes_bind, hx.codes, hnext.codes]
  · rcases List.mem_append.1 hmem with hmem | hmem
    · exact hx.found name symbol hmem
    · exact hnext.found name symbol hmem

theorem report {f f' : Check.Fault} (span span' : Span) (hcode : f.code = f'.code) :
    Echoes R (fun _ _ => True) (report f span) (report f' span') := by
  refine ⟨trivial, ?_, nofun⟩
  rw [codes_report, codes_report, hcode]

end Echoes

end Checked

namespace Check

open Checked (Echoes)

/-- The symbols that two checks have under a name. For a global variable, `X` says that they are both
initialized or both not, and `G` says what its symbol is. -/
structure Agrees (X : String → Prop) (G : String → Symbol → Prop) (name : String)
    (symbol symbol' : Symbol) : Prop where
  kind : symbol.kind = symbol'.kind
  type : symbol.type = symbol'.type
  depth : symbol.depth = symbol'.depth
  initialized : symbol.depth ≠ 0 ∨ X name → symbol.initialized = symbol'.initialized
  isGlobal : symbol.depth = 0 → G name symbol

variable {X : String → Prop} {G : String → Symbol → Prop} {tree tree' : ScopeTree} {scope : Nat}
  {inFunction : Bool}

/-- What two checks know where the same code stands. -/
structure Sees (X : String → Prop) (G : String → Symbol → Prop) (scope : Nat) (tree tree' : ScopeTree) :
    Prop where
  alike : tree.Alike (Agrees X G) tree'
  deep : tree.Deep
  inside : scope < tree.size

/-- What is read under these names is initialized in both checks or in neither. -/
def ReadsAgree (X : String → Prop) (tree : ScopeTree) (scope : Nat) (names : List String) : Prop :=
  ∀ y ∈ names, X y ∨ tree.Hides y scope

theorem ReadsAgree.append {names names' : List String} (h : ReadsAgree X tree scope (names ++ names')) :
    ReadsAgree X tree scope names ∧ ReadsAgree X tree scope names' :=
  List.forall_mem_append.1 h

/-! ### Expressions -/

theorem symbol_echoes (h : Sees X G scope tree tree') (name : Ident) :
    Echoes (Agrees X G)
      (Option.Rel fun symbol symbol' => Agrees X G name.name symbol symbol' ∧
        tree.lookup scope name.name = .found symbol)
      (View.symbol ⟨tree, scope, inFunction⟩ name) (View.symbol ⟨tree', scope, inFunction⟩ name.erase) := by
  have hlookup := h.alike.lookup scope name.name
  have hname : name.erase.name = name.name := rfl
  simp only [View.symbol, hname]
  generalize hfound : tree.lookup scope name.name = found at hlookup ⊢
  generalize tree'.lookup scope name.name = found' at hlookup ⊢
  cases hlookup with
  | @found symbol symbol' hagrees =>
    refine ⟨.some ⟨hagrees, rfl⟩, rfl, fun name' symbol'' hmem => ?_⟩
    have hentry : (name', Lookup.found symbol'') = (name, .found symbol) := List.mem_singleton.1 hmem
    cases hentry
    exact ⟨symbol', hagrees⟩
  | notYetDeclared span span' =>
    refine ⟨.none, rfl, fun name' symbol'' hmem => ?_⟩
    have hentry : (name', Lookup.found symbol'') = (name, .notYetDeclared span) := List.mem_singleton.1 hmem
    cases hentry
  | missing =>
    refine ⟨.none, rfl, fun name' symbol'' hmem => ?_⟩
    have hentry : (name', Lookup.found symbol'') = (name, .missing) := List.mem_singleton.1 hmem
    cases hentry

/-- Two symbols that are the same to one who reads them. -/
structure ReadSame (symbol symbol' : Symbol) : Prop where
  kind : symbol.kind = symbol'.kind
  type : symbol.type = symbol'.type
  initialized : symbol.initialized = symbol'.initialized

theorem readSymbol_echoes (h : Sees X G scope tree tree') {name : Ident}
    (hread : ReadsAgree X tree scope [name.name]) :
    Echoes (Agrees X G) (Option.Rel ReadSame) (View.readSymbol ⟨tree, scope, inFunction⟩ name)
      (View.readSymbol ⟨tree', scope, inFunction⟩ name.erase) := by
  refine (symbol_echoes h name).bind fun symbol symbol' hsymbol => ?_
  cases hsymbol with
  | none => exact .pure .none
  | @some symbol symbol' hsymbol =>
    obtain ⟨hagrees, hlookup⟩ := hsymbol
    have hflag : symbol.initialized = symbol'.initialized := by
      refine hagrees.initialized ?_
      rcases hread name.name List.mem_cons_self with hX | hhides
      · exact .inr hX
      · exact .inl (hhides.depth h.deep hlookup)
    have hsame : Option.Rel ReadSame (some symbol) (some symbol') := .some ⟨hagrees.kind, hagrees.type, hflag⟩
    simp only [hflag, hagrees.depth]
    split
    · exact Echoes.bind (.report _ _ rfl) fun _ _ _ => .pure hsame
    · exact .pure hsame

theorem readType_eq {symbol symbol' : Option Symbol} (h : Option.Rel ReadSame symbol symbol') :
    readType symbol = readType symbol' := by
  cases h with
  | none => rfl
  | some hsame => simp only [readType, hsame.initialized, hsame.type]

theorem checkAssign_echoes {R : String → Symbol → Symbol → Prop} {symbol symbol' : Option Symbol}
    (h : Option.Rel (fun s s' => s.kind = s'.kind ∧ s.type = s'.type) symbol symbol')
    (target target' : Ident) (found : Ty) (span span' : Span) :
    Echoes R (fun _ _ => True) (checkAssign target symbol found span)
      (checkAssign target' symbol' found span') := by
  cases h with
  | none => exact .pure trivial
  | some hsame =>
    simp only [checkAssign, hsame.1, hsame.2]
    split
    · exact .report _ _ rfl
    · split
      · exact .pure trivial
      · exact .report _ _ rfl

theorem checkCallable_echoes {R : String → Symbol → Symbol → Prop} (name name' : String) (type : Ty)
    (span span' : Span) :
    Echoes R (fun _ _ => True) (checkCallable name type span) (checkCallable name' type span') := by
  unfold checkCallable
  split
  · exact .pure trivial
  · exact .report _ _ rfl

theorem checkArgTypes_echoes {R : String → Symbol → Symbol → Prop} (name name' : String) (index : Nat)
    (params : List Ty) {args args' : List (Ty × Span)} (h : args.map (·.1) = args'.map (·.1)) :
    Echoes R (fun _ _ => True) (checkArgTypes name index params args)
      (checkArgTypes name' index params args') := by
  induction params generalizing index args args' with
  | nil => exact .pure trivial
  | cons expected params ih =>
    cases args with
    | nil =>
      obtain rfl : args' = [] := List.map_eq_nil_iff.1 h.symm
      exact .pure trivial
    | cons arg args =>
      obtain ⟨arg', args', rfl, harg, hargs⟩ := List.map_eq_cons_iff.1 h.symm
      simp only [checkArgTypes, harg]
      split
      · exact Echoes.bind (.report _ _ rfl) fun _ _ _ => ih (index + 1) hargs.symm
      · exact ih (index + 1) hargs.symm

theorem checkKnownCall_echoes {R : String → Symbol → Symbol → Prop} (name name' : String) (params : List Ty)
    {args args' : List (Ty × Span)} (h : args.map (·.1) = args'.map (·.1)) (span span' : Span) :
    Echoes R (fun _ _ => True) (checkKnownCall name params args span)
      (checkKnownCall name' params args' span') := by
  have hlength : args.length = args'.length := by simpa using congrArg List.length h
  unfold checkKnownCall
  rw [hlength]
  split
  · exact checkArgTypes_echoes name name' 1 params h
  · exact .report _ _ rfl

theorem checkNamedCall_echoes {R : String → Symbol → Symbol → Prop} {symbol symbol' : Option Symbol}
    (hsymbol : Option.Rel ReadSame symbol symbol') {args args' : List (Ty × Span)}
    (hargs : args.map (·.1) = args'.map (·.1)) (name name' : Ident) (span span' : Span) :
    Echoes R Eq (checkNamedCall name symbol args span) (checkNamedCall name' symbol' args' span') := by
  cases hsymbol with
  | none => exact .pure rfl
  | @some symbol symbol' hsame =>
    simp only [checkNamedCall, hsame.kind, hsame.type, hsame.initialized]
    cases symbol'.kind with
    | function params =>
      exact (checkKnownCall_echoes _ _ params hargs span span').bind fun _ _ _ => .pure rfl
    | var | param =>
      cases symbol'.initialized with
      | true => exact (checkCallable_echoes _ _ symbol'.type _ _).bind fun _ _ _ => .pure rfl
      | false => exact .pure rfl

theorem erase_ne_ident {e : Expr} (h : ∀ name, e ≠ .ident name) (name : Ident) : e.erase ≠ .ident name := by
  cases e with
  | ident other => exact absurd rfl (h other)
  | _ => nofun

mutual

theorem checkExpr_echoes (h : Sees X G scope tree tree') : ∀ e : Expr, ReadsAgree X tree scope e.reads →
    Echoes (Agrees X G) Eq (checkExpr ⟨tree, scope, inFunction⟩ e)
      (checkExpr ⟨tree', scope, inFunction⟩ e.erase)
  | .literal .., hreads => .pure rfl
  | .ident name, hreads => by
    simp only [checkExpr, Expr.erase]
    exact (readSymbol_echoes h hreads).bind fun _ _ hsame => .pure (readType_eq hsame)
  | .assign target value _, hreads => by
    simp only [checkExpr, Expr.erase]
    refine (checkExpr_echoes h value hreads).bind fun found _ hfound => ?_
    subst hfound
    refine (symbol_echoes h target).bind fun symbol symbol' hsymbol => ?_
    have hsame : Option.Rel (fun s s' => s.kind = s'.kind ∧ s.type = s'.type) symbol symbol' := by
      cases hsymbol with
      | none => exact .none
      | some hagrees => exact .some ⟨hagrees.1.kind, hagrees.1.type⟩
    exact (checkAssign_echoes hsame _ _ found _ _).bind fun _ _ _ => .pure rfl
  | .binary op lhs rhs _, hreads => by
    obtain ⟨hlhs, hrhs⟩ := hreads.append
    simp only [checkExpr, Expr.erase]
    refine (checkExpr_echoes h lhs hlhs).bind fun l _ hl => ?_
    refine (checkExpr_echoes h rhs hrhs).bind fun r _ hr => ?_
    subst hl hr
    cases op.result? l r with
    | some type => exact .pure rfl
    | none => exact Echoes.bind (.report _ _ rfl) fun _ _ _ => .pure rfl
  | .unary op operand _, hreads => by
    simp only [checkExpr, Expr.erase]
    refine (checkExpr_echoes h operand hreads).bind fun type _ htype => ?_
    subst htype
    cases op.result? type with
    | some type => exact .pure rfl
    | none => exact Echoes.bind (.report _ _ rfl) fun _ _ _ => .pure rfl
  | .call callee args _, hreads => by
    obtain ⟨hcallee, hargs⟩ := hreads.append
    have hechoes := checkArgs_echoes h args hargs
    by_cases hident : ∃ name, callee = .ident name
    · obtain ⟨name, rfl⟩ := hident
      rw [Expr.erase, Expr.erase, checkExpr_call_ident, checkExpr_call_ident]
      refine hechoes.bind fun found found' hfound => ?_
      refine (readSymbol_echoes h hcallee).bind fun symbol symbol' hsame => ?_
      exact checkNamedCall_echoes hsame hfound _ _ _ _
    · have hne : ∀ name, callee ≠ .ident name := fun name heq => hident ⟨name, heq⟩
      have hvalue := checkExpr_echoes h callee hcallee
      rw [Expr.erase, checkExpr_call_of_ne_ident hne, checkExpr_call_of_ne_ident (erase_ne_ident hne)]
      refine hechoes.bind fun _ _ _ => hvalue.bind fun type _ htype => ?_
      subst htype
      exact (checkCallable_echoes _ _ type _ _).bind fun _ _ _ => .pure rfl

theorem checkArgs_echoes (h : Sees X G scope tree tree') : ∀ es : List Expr,
    ReadsAgree X tree scope (Expr.readsAll es) →
    Echoes (Agrees X G) (fun args args' => args.map (·.1) = args'.map (·.1))
      (checkArgs ⟨tree, scope, inFunction⟩ es) (checkArgs ⟨tree', scope, inFunction⟩ (Expr.eraseAll es))
  | [], hreads => .pure rfl
  | e :: es, hreads => by
    obtain ⟨he, hes⟩ := hreads.append
    simp only [checkArgs, Expr.eraseAll]
    refine (checkExpr_echoes h e he).bind fun type type' htype => ?_
    refine (checkArgs_echoes h es hes).bind fun args args' hargs => .pure ?_
    rw [List.map_cons, List.map_cons, htype, hargs]

end

theorem checkOption_echoes (h : Sees X G scope tree tree') (e : Option Expr)
    (hreads : ReadsAgree X tree scope (Expr.readsOption e)) :
    Echoes (Agrees X G) Eq (checkOption ⟨tree, scope, inFunction⟩ e)
      (checkOption ⟨tree', scope, inFunction⟩ (e.map Expr.erase)) := by
  cases e with
  | none => exact .pure rfl
  | some e => exact (checkExpr_echoes h e hreads).bind fun _ _ htype => .pure (congrArg some htype)

theorem checkInit_echoes (h : Sees X G scope tree tree') (name : Ident) (type : Option TypeName)
    (init : Option Expr) (hreads : ReadsAgree X tree scope (Expr.readsOption init)) :
    Echoes (Agrees X G) Eq (checkInit ⟨tree, scope, inFunction⟩ name type init)
      (checkInit ⟨tree', scope, inFunction⟩ name.erase type (init.map Expr.erase)) := by
  refine (checkOption_echoes h init hreads).bind fun found _ hfound => ?_
  subst hfound
  cases type with
  | none => cases found <;> exact .pure rfl
  | some type =>
    cases found with
    | none => exact .pure rfl
    | some found =>
      cases init with
      | none => exact .pure rfl
      | some init =>
        simp only [Option.map_some]
        split
        · exact Echoes.bind (.report _ _ rfl) fun _ _ _ => .pure rfl
        · exact .pure rfl

theorem checkCondition_echoes (h : Sees X G scope tree tree') (word : String) (cond : Expr)
    (hreads : ReadsAgree X tree scope cond.reads) :
    Echoes (Agrees X G) (fun _ _ => True) (checkCondition ⟨tree, scope, inFunction⟩ word cond)
      (checkCondition ⟨tree', scope, inFunction⟩ word cond.erase) := by
  refine (checkExpr_echoes h cond hreads).bind fun type _ htype => ?_
  subst htype
  split
  · exact .report _ _ rfl
  · exact .pure trivial

/-! ### Scopes that are opened -/

theorem ReadsAgree.mono {tree₁ : ScopeTree} {names : List String} (h : ReadsAgree X tree scope names)
    (hgrows : tree.Grows tree₁) : ReadsAgree X tree₁ scope names :=
  fun y hy => (h y hy).imp_right hgrows.hides

theorem Sees.push (h : Sees X G scope tree tree') :
    Sees X G tree.size (tree.push scope) (tree'.push scope) :=
  ⟨h.alike.push scope, h.deep.push scope, by rw [ScopeTree.size_push]; exact Nat.lt_succ_self _⟩

/-- In a scope that has been opened, the names that it knows are hidden, and all others mean what they meant. -/
theorem Sees.reads_opened (h : Sees X G scope tree tree') {opened : ScopeTree} {names bound : List String}
    (hgrows : (tree.push scope).Grows opened)
    (hbound : ∀ y ∈ bound, (opened.scope tree.size).local? y ≠ none)
    (hreads : ReadsAgree X tree scope (names.filter (· ∉ bound))) : ReadsAgree X opened tree.size names := by
  intro y hy
  by_cases hmem : y ∈ bound
  · exact .inr (.here (Nat.ne_of_gt (Nat.lt_of_le_of_lt (Nat.zero_le scope) h.inside)) (hbound y hmem))
  · refine (hreads y (List.mem_filter.2 ⟨hy, decide_eq_true hmem⟩)).imp_right fun hhides => hgrows.hides ?_
    exact .outer (by rw [ScopeTree.scope_push_self]) h.inside (ScopeTree.Grows.push.hides hhides)

theorem announce_grows (scope : Nat) (body : List Stmt) (tree : ScopeTree) :
    tree.Grows (announce scope body tree) := by
  induction body generalizing tree with
  | nil => exact .refl tree
  | cons s body ih =>
    rw [announce_cons]
    refine .trans ?_ (ih _)
    cases s.declared? with
    | none => exact .refl tree
    | some name => exact .announce scope name.name name.span

theorem announce_knows {body : List Stmt} (hinside : scope < tree.size) {y : String}
    (hy : y ∈ Stmt.declaredNames body) : ((announce scope body tree).scope scope).local? y ≠ none := by
  induction body generalizing tree with
  | nil => cases hy
  | cons s body ih =>
    rw [announce_cons]
    unfold Stmt.declaredNames at hy
    cases hname : s.declared? with
    | none =>
      rw [List.filterMap_cons_none hname] at hy
      exact ih hinside hy
    | some name =>
      rw [List.filterMap_cons_some hname, List.map_cons, List.mem_cons] at hy
      rcases hy with rfl | hy
      · exact (announce_grows _ _ _).known _ _ (ScopeTree.local?_announce hinside _)
      · exact ih (by rw [ScopeTree.size_announce]; exact hinside) hy

theorem Sees.announce (h : Sees X G scope tree tree') (body : List Stmt) :
    Sees X G scope (announce scope body tree) (announce scope (Stmt.eraseAll body) tree') := by
  induction body generalizing tree tree' with
  | nil => exact h
  | cons s body ih =>
    rw [Stmt.eraseAll, announce_cons, announce_cons, Stmt.declared?_erase]
    refine ih ?_
    cases s.declared? with
    | none => exact h
    | some name =>
      refine ⟨h.alike.announce scope _ _ _, h.deep.announce _ _ _, ?_⟩
      rw [ScopeTree.size_announce]
      exact h.inside

/-- A symbol that is declared in a scope, in both checks. It is known there from then on. -/
theorem declare_echoes {R : String → Symbol → Symbol → Prop} {symbol symbol' : Symbol}
    (h : Sees X G scope tree tree') (hscope : scope ≠ 0)
    (hsame : symbol' = { symbol with declaredAt := symbol'.declaredAt })
    (hdepth : symbol.depth = tree.depth scope) :
    Echoes R (fun t t' => Sees X G scope t t' ∧ tree.Grows t ∧ (t.scope scope).local? symbol.name ≠ none)
      (declare tree scope symbol) (declare tree' scope symbol') := by
  have hname : symbol'.name = symbol.name := by rw [hsame]
  have hlocal := h.alike.lookupLocal scope symbol.name
  unfold declare ScopeTree.declare
  rw [hname]
  generalize htaken : tree.lookupLocal scope symbol.name = taken at hlocal ⊢
  generalize tree'.lookupLocal scope symbol.name = taken' at hlocal ⊢
  cases hlocal with
  | some _ =>
    refine Echoes.bind (.report _ _ rfl) fun _ _ _ => .pure ⟨h, .refl tree, fun hnone => ?_⟩
    rw [ScopeTree.lookupLocal, (Scope.local?_eq_none.1 hnone).1] at htaken
    cases htaken
  | none =>
    have hdeep : symbol.depth ≠ 0 := hdepth ▸ h.deep.depth scope hscope h.inside
    have hagrees : Agrees X G symbol.name symbol symbol' := by
      rw [hsame]
      exact ⟨rfl, rfl, rfl, fun _ => rfl, fun hzero => absurd hzero hdeep⟩
    have hinside : scope < (tree.addSymbol scope symbol).size := by
      rw [ScopeTree.size_addSymbol]
      exact h.inside
    exact .pure ⟨⟨h.alike.addSymbol scope hname.symm hagrees, h.deep.addSymbol hdeep, hinside⟩,
      .addSymbol scope symbol, ScopeTree.local?_addSymbol h.inside symbol⟩

theorem declareParams_echoes {R : String → Symbol → Symbol → Prop} (params : List Param)
    (h : Sees X G scope tree tree') (hscope : scope ≠ 0) :
    Echoes R (fun t t' => Sees X G scope t t' ∧ tree.Grows t ∧
        ∀ y ∈ params.map (·.name.name), (t.scope scope).local? y ≠ none)
      (declareParams scope params tree) (declareParams scope (params.map Param.erase) tree') := by
  induction params generalizing tree tree' with
  | nil => exact .pure ⟨h, .refl tree, nofun⟩
  | cons param params ih =>
    simp only [declareParams, List.map_cons, ← h.alike.depth]
    refine (declare_echoes h hscope rfl rfl).bind fun tree₁ tree₁' hparam => ?_
    obtain ⟨hsees, hgrows, hknown⟩ := hparam
    refine (ih hsees).mono fun tree₂ tree₂' hparams => ?_
    obtain ⟨hsees', hgrows', hknown'⟩ := hparams
    refine ⟨hsees', hgrows.trans hgrows', fun y hy => ?_⟩
    rcases List.mem_cons.1 hy with rfl | hy
    · exact hgrows'.known _ _ hknown
    · exact hknown' y hy

/-! ### Statements -/

theorem checkReachable_echoes {R : String → Symbol → Symbol → Prop} (diverged : Bool) (stmts : List Stmt) :
    Echoes R (fun _ _ => True) (checkReachable diverged stmts)
      (checkReachable diverged (Stmt.eraseAll stmts)) := by
  cases stmts with
  | nil => exact .pure trivial
  | cons stmt stmts =>
    simp only [checkReachable, Stmt.eraseAll]
    split
    · exact .report _ _ rfl
    · exact .pure trivial

theorem needsScope_erase (s : Stmt) : needsScope s.erase = needsScope s := by
  cases s with
  | branch cond thenStmt elseStmt span => cases elseStmt <;> rfl
  | _ => rfl

theorem diverges_erase (s : Stmt) : s.erase.diverges = s.diverges := by
  cases s with
  | branch cond thenStmt elseStmt span => cases elseStmt <;> rfl
  | _ => rfl

theorem Sees.branch {c : Context} (h : Sees X G c.scope tree tree') (s : Stmt) :
    branchContext c tree' s.erase = branchContext c tree s ∧
      Sees X G (branchContext c tree s).scope (branchTree c tree s) (branchTree c tree' s.erase) ∧
      ∀ names, ReadsAgree X tree c.scope names →
        ReadsAgree X (branchTree c tree s) (branchContext c tree s).scope names := by
  unfold branchContext branchTree
  rw [needsScope_erase, h.alike.size]
  split
  · refine ⟨rfl, h.alike.size ▸ h.push, fun names hreads => h.alike.size ▸ ?_⟩
    exact h.reads_opened (.refl _) (fun y hy => absurd hy List.not_mem_nil)
      (by simpa [ReadsAgree] using hreads)
  · exact ⟨rfl, h, fun _ hreads => hreads⟩

mutual

/-- A statement is checked with the same errors in scopes that agree on what it reads. -/
theorem checkStmt_echoes : ∀ (s : Stmt) {c : Context} {tree tree' : ScopeTree}, Sees X G c.scope tree tree' →
    ReadsAgree X tree c.scope s.reads →
    Echoes (Agrees X G) (fun t t' => c.scope ≠ 0 → Sees X G c.scope t t' ∧ tree.Grows t) (checkStmt c tree s)
      (checkStmt c tree' s.erase)
  | .varDecl name type init _, c, tree, tree', h, hreads => by
    simp only [checkStmt, Stmt.erase]
    refine (checkInit_echoes h name type init hreads).bind fun found _ hfound => ?_
    subst hfound
    unfold declareVariable
    by_cases hscope : c.scope = 0
    · rw [if_pos hscope, if_pos hscope]
      exact .pure fun hne => absurd hscope hne
    · rw [if_neg hscope, if_neg hscope, ← h.alike.depth]
      refine Echoes.mono (declare_echoes h hscope rfl rfl) fun _ _ hdeclared _ => ?_
      exact ⟨hdeclared.1, hdeclared.2.1⟩
  | .expr e _, c, tree, tree', h, hreads | .print e _, c, tree, tree', h, hreads =>
    (checkExpr_echoes h e hreads).bind fun _ _ _ => .pure fun _ => ⟨h, .refl tree⟩
  | .block body _, c, tree, tree', h, hreads => by
    simp only [checkStmt, Stmt.erase, ← h.alike.size]
    have hgrows := announce_grows tree.size body (tree.push c.scope)
    have hbody := h.reads_opened hgrows (fun y hy => announce_knows h.push.inside hy) hreads
    refine (checkStmts_echoes body (c := { c with scope := tree.size }) (h.push.announce body) ?_ hbody).bind
      fun _ _ _ => .pure fun _ => ⟨h, .refl tree⟩
    exact Nat.ne_of_gt (Nat.lt_of_le_of_lt (Nat.zero_le _) h.inside)
  | .branch cond thenStmt none _, c, tree, tree', h, hreads => by
    obtain ⟨hcond, hthen⟩ := hreads.append
    obtain ⟨hcontext, hsees, hopened⟩ := h.branch thenStmt
    simp only [checkStmt, Stmt.erase, hcontext]
    refine (checkCondition_echoes h "if" cond hcond).bind fun _ _ _ => ?_
    exact (checkStmt_echoes thenStmt hsees (hopened _ hthen)).bind fun _ _ _ => .pure fun _ => ⟨h, .refl tree⟩
  | .branch cond thenStmt (some elseStmt) _, c, tree, tree', h, hreads => by
    obtain ⟨hcond, hbranches⟩ := hreads.append
    obtain ⟨hthen, helse⟩ := hbranches.append
    obtain ⟨hcontext, hsees, hopened⟩ := h.branch thenStmt
    obtain ⟨hcontext', hsees', hopened'⟩ := h.branch elseStmt
    simp only [checkStmt, Stmt.erase, hcontext, hcontext']
    refine (checkCondition_echoes h "if" cond hcond).bind fun _ _ _ => ?_
    refine (checkStmt_echoes thenStmt hsees (hopened _ hthen)).bind fun _ _ _ => ?_
    exact (checkStmt_echoes elseStmt hsees' (hopened' _ helse)).bind fun _ _ _ => .pure fun _ => ⟨h, .refl tree⟩
  | .loop cond body _, c, tree, tree', h, hreads => by
    obtain ⟨hcond, hbody⟩ := hreads.append
    obtain ⟨hcontext, hsees, hopened⟩ := Sees.branch (c := { c with inLoop := true }) h body
    simp only [checkStmt, Stmt.erase, hcontext]
    refine (checkCondition_echoes h "while" cond hcond).bind fun _ _ _ => ?_
    exact (checkStmt_echoes body hsees (hopened _ hbody)).bind fun _ _ _ => .pure fun _ => ⟨h, .refl tree⟩
  | .function name params body _ _, c, tree, tree', h, hreads => by
    -- the body, once the name of the function is declared
    have hrest (tree₁ tree₁' : ScopeTree) (h₁ : Sees X G c.scope tree₁ tree₁') (hgrows : tree.Grows tree₁) :
        Echoes (Agrees X G) (fun t t' => c.scope ≠ 0 → Sees X G c.scope t t' ∧ tree.Grows t)
          (do
            let opened ← declareParams tree₁.size params (tree₁.push c.scope)
            let _ ← checkStmts ⟨tree₁.size, true, false⟩ (announce tree₁.size body opened) false body
            return tree₁)
          (do
            let body' := Stmt.eraseAll body
            let opened ← declareParams tree₁'.size (params.map Param.erase) (tree₁'.push c.scope)
            let _ ← checkStmts ⟨tree₁'.size, true, false⟩ (announce tree₁'.size body' opened) false body'
            return tree₁') := by
      have hsize : tree₁.size ≠ 0 := Nat.ne_of_gt (Nat.lt_of_le_of_lt (Nat.zero_le _) h₁.inside)
      rw [← h₁.alike.size]
      refine (declareParams_echoes params h₁.push hsize).bind fun opened opened' hopened => ?_
      obtain ⟨hsees, hparams, hknown⟩ := hopened
      have hannounced := announce_grows tree₁.size body opened
      have hbody := h₁.reads_opened (hparams.trans hannounced) (fun y hy => ?_) (hreads.mono hgrows)
      · refine (checkStmts_echoes body (c := ⟨tree₁.size, true, false⟩) (hsees.announce body) hsize hbody).bind
          fun _ _ _ => .pure fun _ => ⟨h₁, hgrows⟩
      · rcases List.mem_append.1 hy with hy | hy
        · exact hannounced.known _ _ (hknown y hy)
        · exact announce_knows hsees.inside hy
    simp only [checkStmt, Stmt.erase]
    by_cases hscope : c.scope = 0
    · rw [if_pos hscope, if_pos hscope]
      exact hrest tree tree' h (.refl tree)
    · rw [if_neg hscope, if_neg hscope, ← h.alike.depth]
      have hsymbol : functionSymbol name.erase (params.map Param.erase) (tree.depth c.scope) =
          { functionSymbol name params (tree.depth c.scope) with declaredAt := name.erase.span } := by
        simp only [functionSymbol, List.map_map]
        rfl
      have hdeclared := declare_echoes (R := Agrees X G) h hscope hsymbol
        (rfl : (functionSymbol name params (tree.depth c.scope)).depth = _)
      exact hdeclared.bind fun tree₁ tree₁' hnext => hrest tree₁ tree₁' hnext.1 hnext.2.1
  | .returnWith value _, c, tree, tree', h, hreads => by
    have hvalue : Echoes (Agrees X G) (fun t t' => c.scope ≠ 0 → Sees X G c.scope t t' ∧ tree.Grows t)
        (checkOption (c.view tree) value >>= fun _ => pure tree)
        (checkOption (c.view tree') (value.map Expr.erase) >>= fun _ => pure tree') :=
      (checkOption_echoes h value hreads).bind fun _ _ _ => .pure fun _ => ⟨h, .refl tree⟩
    simp only [checkStmt, Stmt.erase]
    split
    · exact Echoes.bind (.report _ _ rfl) fun _ _ _ => hvalue
    · exact hvalue
  | .breakLoop _, c, tree, tree', h, hreads | .continueLoop _, c, tree, tree', h, hreads => by
    simp only [checkStmt, Stmt.erase]
    split
    · exact Echoes.bind (.report _ _ rfl) fun _ _ _ => .pure fun _ => ⟨h, .refl tree⟩
    · exact .pure fun _ => ⟨h, .refl tree⟩

theorem checkStmts_echoes : ∀ (body : List Stmt) {c : Context} {tree tree' : ScopeTree} {warned : Bool},
    Sees X G c.scope tree tree' → c.scope ≠ 0 → ReadsAgree X tree c.scope (Stmt.readsAll body) →
    Echoes (Agrees X G) (fun _ _ => True) (checkStmts c tree warned body)
      (checkStmts c tree' warned (Stmt.eraseAll body))
  | [], c, tree, tree', warned, h, hscope, hreads => .pure trivial
  | s :: body, c, tree, tree', warned, h, hscope, hreads => by
    obtain ⟨hs, hbody⟩ := hreads.append
    simp only [checkStmts, Stmt.eraseAll, diverges_erase]
    refine (checkStmt_echoes s h hs).bind fun tree₁ tree₁' hnext => ?_
    obtain ⟨hsees, hgrows⟩ := hnext hscope
    refine (checkReachable_echoes _ body).bind fun _ _ _ => ?_
    exact checkStmts_echoes body hsees hscope (hbody.mono hgrows)

end

end Check

end Scriptlet
