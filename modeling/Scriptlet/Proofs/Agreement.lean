import Scriptlet.Proofs.Passes
import Scriptlet.Proofs.ScopeChain

/-!
# Check and run side by side

`Agree R scope tree scopes`: a check that stands in the scope `scope` of `tree`, and a run that sees
the scopes `scopes`, have the same names in the same scopes, and what they have under a name is related
by `R`. Each step of a check that changes its scopes keeps the two in agreement with a run that makes the
change of its own; `declareGlobals_agree` says that they agree at the start of a program.
-/

namespace Scriptlet

open Check
open Run (Vars Binding Slots slotsOf hoist)

variable {β γ : Type}

structure Agree (R : Symbol → β → Prop) (scope : Nat) (tree : ScopeTree) (scopes : List (Names β)) :
    Prop where
  visible : Matches R (tree.chain scope) scopes
  inside : scope < tree.size
  top : scope = 0 ↔ scopes.length = 1

namespace Agree

variable {R : Symbol → β → Prop} {scope : Nat} {tree : ScopeTree} {scopes : List (Names β)}
  {strict : Bool} {log : List (Ident × Lookup)}

/-- A scope that is opened is not that of the top level. -/
theorem size_ne_zero (h : Agree R scope tree scopes) : tree.size ≠ 0 :=
  Nat.ne_of_gt (Nat.zero_lt_of_lt h.inside)

/-- The same scopes of the check, with others of a run. -/
theorem of_visible {scopes' : List (Names β)} (h : Agree R scope tree scopes)
    (hvisible : Matches R (tree.chain scope) scopes') : Agree R scope tree scopes' := by
  refine ⟨hvisible, h.inside, ?_⟩
  rw [← hvisible.length_eq, h.visible.length_eq]
  exact h.top

/-- The same scopes of a run, with less known of what they hold. -/
theorem map {R' : Symbol → γ → Prop} {f : β → γ} (h : Agree R scope tree scopes)
    (hR : ∀ symbol b, R symbol b → R' symbol (f b)) :
    Agree R' scope tree (scopes.map fun names name => (names name).map f) := by
  refine ⟨?_, h.inside, by rw [List.length_map]; exact h.top⟩
  refine List.forall₂_map_right_iff.2 (h.visible.imp fun s names hfits name => ?_)
  have hname := hfits name
  simp only
  generalize s.symbols.get? name = symbol at hname ⊢
  generalize names name = b at hname ⊢
  cases hname with
  | none => exact .none
  | some h => exact .some (hR _ _ h)

theorem push (h : Agree R scope tree scopes) :
    Agree R tree.size (tree.push scope) (.none :: scopes) := by
  refine ⟨h.visible.push h.inside, ?_, iff_of_false h.size_ne_zero ?_⟩
  · rw [ScopeTree.size_push]
    exact Nat.lt_succ_self _
  · obtain ⟨names, rest, rfl, -, -⟩ := h.visible.head
    simp

/-- Names that are announced do not show in the run. -/
theorem announce (stmts : List Stmt) (h : Agree R scope tree scopes) :
    Agree R scope (announce scope stmts tree) scopes := by
  induction stmts generalizing tree with
  | nil => exact h
  | cons stmt stmts ih =>
    refine ih ?_
    split
    · exact ⟨h.visible.announce _ _ h.inside, by simpa using h.inside, h.top⟩
    · exact ⟨h.visible.announce _ _ h.inside, by simpa using h.inside, h.top⟩
    · exact h

theorem declare {symbol : Symbol} {b : β} (h : Agree R scope tree scopes)
    (hpasses : (declare tree scope symbol).Passes strict log) (hR : R symbol b) :
    Agree R scope (Check.declare tree scope symbol).value
      (scopes.modifyHead (·.add symbol.name b)) := by
  rw [(declare_passes hpasses).2]
  exact ⟨h.visible.addSymbol h.inside hR, by simpa using h.inside, by simpa using h.top⟩

theorem updateGlobal {names : Names β} {name : Ident} {f : Symbol → Symbol}
    (h : Agree R 0 tree [names])
    (hf : ∀ symbol b, names name.name = some b → R symbol b → R (f symbol) b) :
    Agree R 0 (updateGlobal tree name f) [names] := by
  refine ⟨?_, by simpa [Check.updateGlobal] using h.inside, h.top⟩
  refine h.visible.updateLocal h.inside fun symbol b hb hR => ?_
  split
  · exact hf symbol b hb hR
  · exact hR

end Agree

/-! ### The top level -/

/-- The statement `n` places after the one at `path`. -/
def TreePath.skip (path : TreePath) (n : Nat) : TreePath := { path with index := path.index + n }

theorem TreePath.next_skip (path : TreePath) (n : Nat) : path.next.skip n = path.skip (n + 1) := by
  simp only [skip, next, Nat.add_assoc, Nat.add_comm 1]

/-- The symbol that a statement of the top level, at the path given, declares for the check, and the
variable that it declares for the run, before the first statement is run. -/
inductive Declares (path : TreePath) : Stmt → Symbol → Binding → Prop
  | function (name : Ident) (params : List Param) (body : List Stmt) (braces span : Span) :
    Declares path (.function name params body braces span) (functionSymbol name params 0)
      ⟨.function ⟨⟨name, params, body⟩, path⟩, none, name.span⟩
  | var (name : Ident) (type : Option TypeName) (init : Option Expr) (span : Span) :
    Declares path (.varDecl name type init span)
      (variableSymbol name (Ty.ofAnnotation type) 0 false)
      ⟨.nil, type.map Ty.ofTypeName, name.span⟩

/-- A variable declaration of the top level has its variable there. -/
def Placed (globals : Slots) (scope : Nat) : Stmt → Prop
  | .varDecl name type _ _ =>
    scope = 0 → globals name.name = some ⟨type.map Ty.ofTypeName, name.span⟩
  | _ => True

theorem placed_of_ne_zero {globals : Slots} {scope : Nat} (h : scope ≠ 0) (stmt : Stmt) :
    Placed globals scope stmt := by
  cases stmt with
  | varDecl => exact fun hscope => absurd hscope h
  | _ => trivial

section Globals

variable {R : Symbol → Binding → Prop} {path : TreePath} {items : List Stmt} {tree : ScopeTree} {vars : Vars}
  {strict : Bool} {log : List (Ident × Lookup)}

/-- A statement of the top level declares one name, for the check and for the run, or none. -/
theorem declareItems_cons (path : TreePath) (item : Stmt) (items : List Stmt) :
    (∃ symbol b, Declares path item symbol b ∧
      (∀ symbol' b', Declares path item symbol' b' → symbol' = symbol ∧ b' = b) ∧
      (∀ tree, declareItems (item :: items) tree = declare tree 0 symbol >>= declareItems items) ∧
      ∀ vars, hoist path (item :: items) vars = hoist path.next items (vars.insert symbol.name b)) ∨
    ((∀ symbol b, ¬ Declares path item symbol b) ∧
      (∀ tree, declareItems (item :: items) tree = declareItems items tree) ∧
      ∀ vars, hoist path (item :: items) vars = hoist path.next items vars) := by
  cases item with
  | function name params body braces span =>
    exact .inl ⟨_, _, .function name params body braces span,
      fun _ _ h => (by cases h; exact ⟨rfl, rfl⟩), fun _ => rfl, fun _ => rfl⟩
  | varDecl name type init span =>
    exact .inl ⟨_, _, .var name type init span,
      fun _ _ h => (by cases h; exact ⟨rfl, rfl⟩), fun _ => rfl, fun _ => rfl⟩
  | _ => exact .inr ⟨fun _ _ h => (by cases h), fun _ => rfl, fun _ => rfl⟩

/-- Before the first declaration there is nothing at the top level. -/
theorem Agree.new : Agree R 0 .new [(Table.empty : Vars).get?] := by
  refine ⟨?_, Nat.zero_lt_one, iff_of_true rfl rfl⟩
  rw [ScopeTree.chain]
  exact .cons .empty .nil

/-- The top level of a check, and the variables of the top level that come from `vars` by running the
declarations of `items` ahead. -/
structure Hoisted (R : Symbol → Binding → Prop) (path : TreePath) (items : List Stmt) (tree : ScopeTree)
    (vars : Vars) : Prop where
  agree : Agree R 0 tree [(hoist path items vars).get?]
  /-- No name is declared twice. -/
  kept : ∀ name b, vars.get? name = some b → (hoist path items vars).get? name = some b
  own : ∀ i item, items[i]? = some item → ∀ symbol b, Declares (path.skip i) item symbol b →
    (hoist path items vars).get? symbol.name = some b

/-- A name that may be declared at the top level is new there. -/
theorem declare_fresh {symbol : Symbol} (h : Agree R 0 tree [vars.get?])
    (hpasses : (Check.declare tree 0 symbol).Passes strict log) : vars.get? symbol.name = none := by
  by_contra hsome
  obtain ⟨b, hb⟩ := Option.ne_none_iff_exists'.1 hsome
  obtain ⟨_, _, ⟨⟩, hfits, -⟩ := h.visible.head
  obtain ⟨existing, hexisting, -⟩ := hfits.symbol hb
  have hfresh := (declare_passes hpasses).1
  rw [ScopeTree.lookupLocal, hexisting] at hfresh
  cases hfresh

theorem declare_global {symbol : Symbol} {b : Binding} (h : Agree R 0 tree [vars.get?])
    (hpasses : (Check.declare tree 0 symbol).Passes strict log) (hR : R symbol b) :
    Agree R 0 (Check.declare tree 0 symbol).value [(vars.insert symbol.name b).get?] ∧
      ∀ name b', vars.get? name = some b' → (vars.insert symbol.name b).get? name = some b' := by
  refine ⟨Names.get?_insert vars symbol.name b ▸ h.declare hpasses hR, fun name b' hb' => ?_⟩
  have hne : name ≠ symbol.name := by
    rintro rfl
    rw [declare_fresh h hpasses] at hb'
    cases hb'
  rw [Table.get?_insert_of_ne hne, hb']

theorem declareItems_hoisted (path : TreePath) (h : Agree R 0 tree [vars.get?])
    (hpasses : (declareItems items tree).Passes strict log)
    (hR : ∀ item ∈ items, ∀ path symbol b, Declares path item symbol b → R symbol b) :
    Hoisted R path items (declareItems items tree).value vars := by
  induction items generalizing path tree vars with
  | nil => exact ⟨h, fun _ _ hb => hb, nofun⟩
  | cons item items ih =>
    obtain ⟨hitem, hitems⟩ := List.forall_mem_cons.1 hR
    obtain ⟨symbol, b, hdeclares, honly, hcheck, hrun⟩ | ⟨hnone, hcheck, hrun⟩ :=
      declareItems_cons path item items
    · rw [hcheck, Checked.passes_bind] at hpasses
      -- What stands in the table stays there, as the name is new.
      obtain ⟨hnext, hkept⟩ := declare_global h hpasses.1 (hitem path symbol b hdeclares)
      have hrest := ih path.next hnext hpasses.2 hitems
      refine ⟨?_, fun name b' hb' => ?_, ?_⟩
      · rw [hcheck, hrun]
        exact hrest.agree
      · rw [hrun]
        exact hrest.kept name b' (hkept name b' hb')
      · rw [hrun]
        rintro (_ | i) item' hitem' symbol' b' hown
        · cases hitem'
          obtain ⟨rfl, rfl⟩ := honly symbol' b' hown
          exact hrest.kept _ _ (Table.get?_insert_self vars _ _)
        · exact hrest.own i item' hitem' symbol' b' (path.next_skip i ▸ hown)
    · rw [hcheck] at hpasses
      have hrest := ih path.next h hpasses hitems
      refine ⟨?_, ?_, ?_⟩
      · rw [hcheck, hrun]
        exact hrest.agree
      · rw [hrun]
        exact hrest.kept
      · rw [hrun]
        rintro (_ | i) item' hitem' symbol b hown
        · cases hitem'
          exact absurd hown (hnone symbol b)
        · exact hrest.own i item' hitem' symbol b (path.next_skip i ▸ hown)

/-- The types that are inferred for the variables of the top level do not show in the run. -/
theorem Agree.inferItems {names : Names Binding} (h : Agree R 0 tree [names])
    (hinfer : ∀ name init span, Stmt.varDecl name none (some init) span ∈ items →
      ∀ symbol b type, R symbol b → R { symbol with type } b) :
    Agree R 0 (inferItems items tree) [names] := by
  induction items generalizing tree with
  | nil => exact h
  | cons item items ih =>
    refine ih ?_ fun name init span hmem => hinfer name init span (List.mem_cons_of_mem _ hmem)
    split
    · next name init span =>
      exact h.updateGlobal fun symbol b _ =>
        hinfer name init span List.mem_cons_self symbol b _
    · exact h

theorem Hoisted.variable {name : Ident} {type : Option TypeName} {init : Option Expr} {span : Span}
    (h : Hoisted R path items tree vars) (hmem : .varDecl name type init span ∈ items) :
    (hoist path items vars).get? name.name = some ⟨.nil, type.map Ty.ofTypeName, name.span⟩ := by
  obtain ⟨i, hi⟩ := List.mem_iff_getElem?.1 hmem
  exact h.own i _ hi _ _ (.var name type init span)

theorem Hoisted.placed (h : Hoisted R path items tree vars) :
    ∀ item ∈ items, Placed (slotsOf (hoist path items vars)) 0 item := by
  intro item hmem
  cases item with
  | varDecl => exact fun _ => congrArg (Option.map Binding.slot) (h.variable hmem)
  | _ => trivial

/-- Check and run agree at the start of a program whose declarations pass. -/
theorem declareGlobals_hoisted (hpasses : (declareGlobals items).Passes strict log)
    (hR : ∀ item ∈ items, ∀ path symbol b, Declares path item symbol b → R symbol b)
    (hinfer : ∀ name init span, Stmt.varDecl name none (some init) span ∈ items →
      ∀ symbol b type, R symbol b → R { symbol with type } b) :
    Hoisted R .first items (declareGlobals items).value .empty := by
  simp only [declareGlobals, Checked.passes_bind] at hpasses
  have hhoisted := declareItems_hoisted .first .new hpasses.1 hR
  exact { hhoisted with agree := hhoisted.agree.inferItems hinfer }

theorem declareGlobals_agree (hpasses : (declareGlobals items).Passes strict log)
    (hR : ∀ item ∈ items, ∀ path symbol b, Declares path item symbol b → R symbol b)
    (hinfer : ∀ name init span, Stmt.varDecl name none (some init) span ∈ items →
      ∀ symbol b type, R symbol b → R { symbol with type } b) :
    Agree R 0 (declareGlobals items).value [(hoist .first items .empty).get?] ∧
      ∀ item ∈ items, Placed (slotsOf (hoist .first items .empty)) 0 item :=
  have hhoisted := declareGlobals_hoisted hpasses hR hinfer
  ⟨hhoisted.agree, hhoisted.placed⟩

end Globals

end Scriptlet
