import Scriptlet.Proofs.Agreement
import Scriptlet.Proofs.ExprTypes

/-!
# States as the check takes them

`Typed globals scope tree s`: no call is active in the state `s`, and the variables that top-level code
sees in it are those that the check, in the scope `scope` of `tree`, takes them to be, with values of
their types (`Holds`). Storing a value of the right type, opening and leaving a block, and declaring a
name keep it so.
-/

namespace Scriptlet

open Check Run

theorem Matches.replaceIn {R : Symbol → Binding → Prop} {symbols : List Scope} {scopes : List Vars}
    {name : String} {b b' : Binding} (h : Matches R symbols (scopes.map Table.get?))
    (hb : scopes.findSome? (·.get? name) = some b) (hR : ∀ symbol, R symbol b → R symbol b') :
    Matches R symbols ((Frame.replaceIn name b' scopes).map Table.get?) := by
  induction scopes generalizing symbols with
  | nil => exact h
  | cons vars scopes ih =>
    rw [List.map_cons] at h
    cases h with
    | cons hhead htail =>
      rw [Frame.replaceIn]
      cases hvars : vars.get? name with
      | none =>
        simp only [List.findSome?_cons, hvars] at hb
        simp only [Table.contains, hvars]
        exact .cons hhead (ih htail hb)
      | some found =>
        simp only [List.findSome?_cons, hvars] at hb
        cases hb
        simp only [Table.contains, hvars]
        refine .cons (fun other => ?_) htail
        rw [Table.get?_insert]
        split
        · next heq =>
          subst heq
          obtain ⟨symbol, hsymbol, hholds⟩ := hhead.symbol hvars
          rw [hsymbol]
          exact .some (hR symbol hholds)
        · exact hhead other

/-- What a symbol says of its variable. A function is not assigned to. Any other variable has a type, and
its value has that type as soon as there is one; only names of the top level can be without. -/
inductive Holds : Symbol → Binding → Prop
  | function {symbol : Symbol} {b : Binding} (kind : symbol.kind.isFunction = true)
    (type : symbol.type = .function) (known : symbol.initialized = true)
    (declared : b.declared = none) (value : b.value.type = .function) : Holds symbol b
  | var {symbol : Symbol} {b : Binding} (t : TypeName) (kind : symbol.kind.isFunction = false)
    (type : symbol.type = .ofTypeName t) (known : symbol.initialized = false → symbol.depth = 0)
    (declared : b.declared = some (.ofTypeName t))
    (value : symbol.initialized = true → b.value.type = .ofTypeName t) : Holds symbol b

namespace Holds

variable {symbol : Symbol} {b : Binding}

theorem definite (h : Holds symbol b) : symbol.type.Definite := by
  cases h with
  | function _ type => rw [type]; exact ⟨nofun, nofun⟩
  | var t _ type => rw [type]; cases t <;> exact ⟨nofun, nofun⟩

theorem depth_eq_zero (h : Holds symbol b) (hinit : symbol.initialized = false) : symbol.depth = 0 := by
  cases h with
  | function _ _ known => rw [known] at hinit; cases hinit
  | var _ _ _ known => exact known hinit

theorem value_type (h : Holds symbol b) (hinit : symbol.initialized = true) :
    b.value.type = symbol.type := by
  cases h with
  | function _ type _ _ value => rw [type, value]
  | var _ _ type _ _ value => rw [type, value hinit]

theorem declared_eq (h : Holds symbol b) (hkind : symbol.kind.isFunction = false) :
    b.declared = some symbol.type := by
  cases h with
  | function kind => rw [kind] at hkind; cases hkind
  | var _ _ type _ declared => rw [type, declared]

theorem store {value : Value} {t : Ty} (h : Holds symbol b) (hdeclared : b.declared = some t)
    (hvalue : value.type = t) : Holds symbol { b with value } := by
  cases h with
  | function _ _ _ declared => simp [declared] at hdeclared
  | var t' kind type known declared =>
    have ht : Ty.ofTypeName t' = t := by simpa [declared] using hdeclared
    exact .var t' kind type known declared fun _ => hvalue.trans ht.symm

end Holds

/-- A run of top-level code, with variables as the check in the scope `scope` of `tree` takes them. -/
structure Typed (globals : Slots) (scope : Nat) (tree : ScopeTree) (s : State) : Prop where
  calls : s.calls = []
  base : slotsOf s.globals.base = globals
  agree : Agree Holds scope tree (s.globals.scopes.map Table.get?)

namespace Typed

variable {globals : Slots} {scope : Nat} {tree : ScopeTree} {s s' : State} {name : String}

theorem binding?_eq (h : Typed globals scope tree s) (name : String) :
    s.binding? name = s.globals.binding? name := by
  rw [State.binding?, h.calls]

theorem mapFrame_eq (h : Typed globals scope tree s) (f : Frame → Frame) :
    s.mapFrame f = { s with globals := f s.globals } := by
  rw [State.mapFrame, h.calls]

/-- A name that the check has found has a variable, of which the symbol tells the truth. -/
theorem lookup {symbol : Symbol} (h : Typed globals scope tree s)
    (hfound : tree.lookup scope name = .found symbol) :
    ∃ b, s.binding? name = some b ∧ Holds symbol b := by
  obtain ⟨b, hb, hholds⟩ := h.agree.visible.lookup hfound
  rw [List.findSome?_map] at hb
  exact ⟨b, by rw [h.binding?_eq, ← Frame.findSome_scopes]; exact hb, hholds⟩

theorem known (h : Typed globals scope tree s) (inFunction : Bool) :
    Known ⟨tree, scope, inFunction⟩ := by
  intro name symbol hfound
  obtain ⟨b, -, hholds⟩ := h.lookup hfound
  exact ⟨hholds.definite, hholds.depth_eq_zero⟩

theorem tick (h : Typed globals scope tree s) :
    Typed globals scope tree { s with steps := s.steps + 1 } := ⟨h.calls, h.base, h.agree⟩

theorem replace {b : Binding} {value : Value} {t : Ty} (h : Typed globals scope tree s)
    (hb : s.binding? name = some b) (hdeclared : b.declared = some t) (hvalue : value.type = t) :
    Typed globals scope tree (s.replace name { b with value }) := by
  rw [h.binding?_eq] at hb
  rw [State.replace, h.calls]
  refine ⟨rfl, ?_, h.agree.of_visible ?_⟩
  · have hlayout : (s.globals.replace name { b with value }).layout = s.globals.layout :=
      Frame.replace_layout hb rfl
    rw [← h.base]
    exact (Frame.layout_inj hlayout).2
  · rw [Frame.scopes_replace hb]
    exact h.agree.visible.replaceIn ((s.globals.findSome_scopes name).trans hb)
      fun _ hholds => hholds.store hdeclared hvalue

theorem push (h : Typed globals scope tree s) :
    Typed globals tree.size (tree.push scope) (s.mapFrame Frame.pushBlock) := by
  rw [h.mapFrame_eq]
  exact ⟨h.calls, h.base, h.agree.push⟩

/-- Leaving a block, with the scopes that were there before it. -/
theorem pop {scope' : Nat} {tree' : ScopeTree} (h : Typed globals scope tree s)
    (h' : Typed globals scope' tree' s') (htail : (tree'.chain scope').tail = tree.chain scope) :
    Typed globals scope tree (s'.mapFrame Frame.popBlock) := by
  rw [h'.mapFrame_eq]
  refine ⟨h'.calls, h'.base, h.agree.of_visible ?_⟩
  obtain ⟨names, rest, hscopes, -, hrest⟩ := h'.agree.visible.head
  rw [htail] at hrest
  cases hblocks : s'.globals.blocks with
  | nil =>
    rw [tree.chain_eq_cons] at hrest
    rw [Frame.scopes, hblocks] at hscopes
    cases hscopes
    cases hrest
  | cons block blocks =>
    rw [Frame.scopes, hblocks] at hscopes
    cases hscopes
    rw [Frame.scopes, Frame.popBlock, hblocks]
    exact hrest

theorem blocks_eq_nil (h : Typed globals 0 tree s) : s.globals.blocks = [] := by
  simpa [Frame.scopes] using h.agree.top.1 rfl

theorem binding?_top (h : Typed globals 0 tree s) (name : String) :
    s.binding? name = s.globals.base.get? name := by
  rw [h.binding?_eq, Frame.binding?, h.blocks_eq_nil]
  rfl

theorem atTopLevel_iff (h : Typed globals scope tree s) : s.atTopLevel = true ↔ scope = 0 := by
  rw [h.agree.top, State.atTopLevel, h.calls]
  simp [Frame.scopes]

theorem declare {symbol : Symbol} {b : Binding} {strict : Bool} {log : List (Ident × Lookup)}
    (h : Typed globals scope tree s) (hscope : scope ≠ 0)
    (hpasses : (Check.declare tree scope symbol).Passes strict log) (hholds : Holds symbol b) :
    Typed globals scope (Check.declare tree scope symbol).value
      (s.mapFrame (·.declare symbol.name b)) := by
  have hblocks : s.globals.blocks ≠ [] := by
    intro hnil
    exact hscope (h.agree.top.2 (by simp [Frame.scopes, hnil]))
  obtain ⟨block, blocks, hcons⟩ := List.exists_cons_of_ne_nil hblocks
  have hagree := h.agree.declare hpasses hholds
  rw [Frame.scopes, hcons] at hagree
  rw [h.mapFrame_eq, Frame.declare, hcons]
  refine ⟨h.calls, h.base, ?_⟩
  rw [Frame.scopes, List.cons_append, List.map_cons, Names.get?_insert]
  exact hagree

/-- A variable of the top level gets its initial value. -/
theorem initial {name : Ident} {t : TypeName} {b : Binding} {value : Value}
    (h : Typed globals 0 tree s) (hb : s.globals.base.get? name.name = some b)
    (hdeclared : b.declared = some (.ofTypeName t)) (hvalue : value.type = .ofTypeName t) :
    Typed globals 0
      (updateGlobal tree name fun symbol => { symbol with type := .ofTypeName t, initialized := true })
      (s.replace name.name { b with value }) := by
  have hs := h.replace ((h.binding?_top name.name).trans hb) hdeclared hvalue
  have hscopes : (s.replace name.name { b with value }).globals.scopes =
      [s.globals.base.insert name.name { b with value }] := by
    rw [State.replace, h.calls]
    simp [Frame.replace, Frame.scopes, h.blocks_eq_nil]
  refine ⟨hs.calls, hs.base, ?_⟩
  have hagree := hs.agree
  rw [hscopes] at hagree ⊢
  refine hagree.updateGlobal fun symbol b' hb' hholds => ?_
  rw [Table.get?_insert_self] at hb'
  cases hb'
  cases hholds with
  | function _ _ _ declared =>
    rw [hdeclared] at declared
    cases declared
  | var _ kind => exact .var t kind rfl (by simp) hdeclared fun _ => hvalue

end Typed

end Scriptlet
