import Mathlib.Logic.Relation
import Scriptlet.Proofs.LikeScopes

/-!
# Trees of scopes after any history

A tree of scopes starts as the global scope alone and is changed step by step (`ScopeTree.Step`): a scope is opened
inside another, a symbol is declared or found to clash, a name is announced, a symbol is updated under its name.
Every tree that is reached is well-formed (`Reached.wellFormed`), so the walk from a scope outward always ends.

`t.Clear name s c` says that the walk from `s` comes to `c` before any scope that knows `name`. In these terms a
lookup is settled in the first scope that knows the name (`lookup_found`, `lookup_pending`, `lookup_missing`), and a
declaration in `c` is seen exactly from the scopes that are clear up to `c` (`lookup_declared`, `lookup_unaffected`).
-/

namespace Scriptlet

namespace ScopeTree

variable {t t' : ScopeTree} {id parent s c : Nat} {name : String} {symbol : Symbol}

/-! ### Histories -/

/-- One change of a tree of scopes. A declaration that clashes is a step as well. -/
inductive Step (t : ScopeTree) : ScopeTree → Prop
  | push (parent : Nat) (h : parent < t.size) : Step t (t.push parent)
  | declare (id : Nat) (symbol : Symbol) (h : id < t.size) : Step t (Check.declare t id symbol).value
  | announce (id : Nat) (name : String) (span : Span) (h : id < t.size) : Step t (t.announce id name span)
  | update (id : Nat) (name : String) (f : Symbol → Symbol) (h : id < t.size)
    (hname : ∀ symbol, t.lookupLocal id name = some symbol → (f symbol).name = symbol.name) :
    Step t (t.updateLocal id name f)

/-- The tree comes about by some sequence of changes. -/
def Reached (t : ScopeTree) : Prop := Relation.ReflTransGen Step new t

structure WellFormed (t : ScopeTree) : Prop where
  root : (t.scope 0).parent = none ∧ t.depth 0 = 0
  /-- Every other scope lies inside an earlier one, one level deeper. -/
  inner : ∀ id, 0 < id → id < t.size →
    ∃ parent < id, (t.scope id).parent = some parent ∧ t.depth id = t.depth parent + 1
  named : ∀ id name symbol, t.lookupLocal id name = some symbol → symbol.name = name

/-- A declaration leaves the tree as it is if the name is taken. -/
theorem declare_eq (t : ScopeTree) (id : Nat) (symbol : Symbol) :
    (∃ existing, t.lookupLocal id symbol.name = some existing ∧ t.declare id symbol = .error existing ∧
        (Check.declare t id symbol).value = t) ∨
      t.lookupLocal id symbol.name = none ∧ t.declare id symbol = .ok (t.addSymbol id symbol) ∧
        (Check.declare t id symbol).value = t.addSymbol id symbol := by
  unfold Check.declare declare
  cases t.lookupLocal id symbol.name with
  | some existing => exact .inl ⟨existing, rfl, rfl, rfl⟩
  | none => exact .inr ⟨rfl, rfl, rfl⟩

namespace WellFormed

theorem new : ScopeTree.new.WellFormed where
  root := ⟨rfl, rfl⟩
  inner := fun id hpos hlt => absurd hpos (Nat.not_lt.2 (Nat.le_of_lt_succ hlt))
  named := fun id name symbol h => by cases id <;> cases h

theorem push (h : t.WellFormed) (hparent : parent < t.size) : (t.push parent).WellFormed := by
  have hold {j : Nat} (hj : j < t.size) : (t.push parent).scope j = t.scope j := scope_push_of_lt hj
  refine ⟨?_, fun id hpos hlt => ?_, fun id name symbol hsymbol => ?_⟩
  · rw [depth, hold (Nat.zero_lt_of_lt hparent)]
    exact h.root
  · rw [size_push] at hlt
    obtain rfl | hlt := Nat.eq_or_lt_of_le (Nat.le_of_lt_succ hlt)
    · refine ⟨parent, hparent, ?_⟩
      rw [depth, depth, scope_push_self, hold hparent]
      exact ⟨rfl, rfl⟩
    · obtain ⟨outer, houter, hscope⟩ := h.inner id hpos hlt
      refine ⟨outer, houter, ?_⟩
      rw [depth, depth, hold hlt, hold (Nat.lt_trans houter hlt)]
      exact hscope
  · rw [lookupLocal, scope_push] at hsymbol
    split at hsymbol
    · cases hsymbol
    · exact h.named id name symbol hsymbol

theorem modify {f : Scope → Scope} (h : t.WellFormed) (hparent : (f (t.scope id)).parent = (t.scope id).parent)
    (hdepth : (f (t.scope id)).depth = (t.scope id).depth)
    (hnamed : ∀ name symbol, (f (t.scope id)).symbols.get? name = some symbol → symbol.name = name) :
    (t.modify id f).WellFormed := by
  have hshape (j : Nat) : ((t.modify id f).scope j).parent = (t.scope j).parent ∧
      (t.modify id f).depth j = t.depth j := by
    rw [depth, depth, scope_modify]
    split
    · next heq => rw [heq.1]; exact ⟨hparent, hdepth⟩
    · exact ⟨rfl, rfl⟩
  refine ⟨?_, fun j hpos hlt => ?_, fun j name symbol hsymbol => ?_⟩
  · rw [(hshape 0).1, (hshape 0).2]
    exact h.root
  · rw [size_modify] at hlt
    obtain ⟨parent, hlt', hscope⟩ := h.inner j hpos hlt
    refine ⟨parent, hlt', ?_⟩
    rw [(hshape j).1, (hshape j).2, (hshape parent).2]
    exact hscope
  · rw [lookupLocal, scope_modify] at hsymbol
    split at hsymbol
    · next heq => exact hnamed name symbol (heq.1 ▸ hsymbol)
    · exact h.named j name symbol hsymbol

theorem insert (h : t.WellFormed) (hname : symbol.name = name) {other : String} {found : Symbol}
    (hfound : ((t.scope id).symbols.insert name symbol).get? other = some found) : found.name = other := by
  rw [Table.get?_insert] at hfound
  split at hfound
  · next heq =>
    cases hfound
    rw [hname, heq]
  · exact h.named id other found hfound

theorem addSymbol (h : t.WellFormed) (id : Nat) (symbol : Symbol) : (t.addSymbol id symbol).WellFormed :=
  h.modify rfl rfl fun _ _ hfound => h.insert rfl hfound

theorem announce (h : t.WellFormed) (id : Nat) (name : String) (span : Span) :
    (t.announce id name span).WellFormed := by
  refine h.modify ?_ ?_ fun other symbol hsymbol => h.named id other symbol ?_
  · split <;> rfl
  · split <;> rfl
  · split at hsymbol <;> exact hsymbol

theorem updateLocal {f : Symbol → Symbol} (h : t.WellFormed)
    (hname : ∀ symbol, t.lookupLocal id name = some symbol → (f symbol).name = symbol.name) :
    (t.updateLocal id name f).WellFormed := by
  unfold ScopeTree.updateLocal
  split
  · next symbol hsymbol =>
    have hkept : (f symbol).name = name := (hname symbol hsymbol).trans (h.named id name symbol hsymbol)
    exact h.modify rfl rfl fun _ _ hfound => h.insert hkept hfound
  · exact h

theorem step (h : t.WellFormed) (hstep : t.Step t') : t'.WellFormed := by
  cases hstep with
  | push parent hparent => exact h.push hparent
  | declare id symbol =>
    obtain ⟨existing, -, -, htree⟩ | ⟨-, -, htree⟩ := t.declare_eq id symbol
    · rw [htree]
      exact h
    · rw [htree]
      exact h.addSymbol id symbol
  | announce id name span => exact h.announce id name span
  | update id name f _ hname => exact h.updateLocal hname

end WellFormed

theorem Reached.wellFormed (h : t.Reached) : t.WellFormed := by
  induction h with
  | refl => exact .new
  | tail _ hstep ih => exact ih.step hstep

/-! ### The first scope that knows a name -/

/-- The scope has the name declared or announced. -/
def Knows (t : ScopeTree) (id : Nat) (name : String) : Prop :=
  (t.lookupLocal id name).isSome = true ∨ (t.scope id).pending.contains name = true

/-- The walk outward from the first scope comes to the second, and no scope before that one knows the name. -/
inductive Clear (t : ScopeTree) (name : String) : Nat → Nat → Prop
  | here (s : Nat) : Clear t name s s
  | outward {s parent c : Nat} (hparent : (t.scope s).parent = some parent) (hunknown : ¬ t.Knows s name)
    (hclear : Clear t name parent c) : Clear t name s c

theorem not_knows_iff : ¬ t.Knows id name ↔ (t.scope id).local? name = none := by
  rw [Scope.local?_eq_none, Knows, lookupLocal, Table.contains]
  simp

/-- A scope that knows the name settles what it means. -/
theorem lookup_of_local {result : Lookup} (h : (t.scope s).local? name = some result) : t.lookup s name = result := by
  rw [lookup, h]

theorem lookup_of_outermost (hunknown : (t.scope s).local? name = none) (h : (t.scope s).parent = none) :
    t.lookup s name = .missing := by
  rw [lookup, hunknown, h]

namespace WellFormed

theorem parent_lt (h : t.WellFormed) (hparent : (t.scope s).parent = some parent) : parent < s := by
  have hpos : 0 < s := by
    refine Nat.pos_of_ne_zero fun hzero => ?_
    rw [hzero, h.root.1] at hparent
    cases hparent
  have hlt : s < t.size := by
    refine Nat.lt_of_not_le fun hle => ?_
    rw [scope_of_size_le hle] at hparent
    cases hparent
  obtain ⟨outer, houter, hscope, -⟩ := h.inner s hpos hlt
  cases hparent.symm.trans hscope
  exact houter

/-- A scope that does not know the name hands the question on. -/
theorem lookup_outward (h : t.WellFormed) (hunknown : (t.scope s).local? name = none)
    (hparent : (t.scope s).parent = some parent) : t.lookup s name = t.lookup parent name := by
  rw [lookup, hunknown, hparent]
  exact if_pos (h.parent_lt hparent)

theorem lookup_clear (h : t.WellFormed) (hclear : t.Clear name s c) : t.lookup s name = t.lookup c name := by
  induction hclear with
  | here => rfl
  | outward hparent hunknown _ ih => rw [h.lookup_outward (not_knows_iff.1 hunknown) hparent, ih]

theorem lookup_found (h : t.WellFormed) (hclear : t.Clear name s c) (hsymbol : t.lookupLocal c name = some symbol) :
    t.lookup s name = .found symbol := by
  rw [h.lookup_clear hclear]
  refine lookup_of_local ?_
  rw [lookupLocal] at hsymbol
  rw [Scope.local?, hsymbol]

theorem lookup_pending {span : Span} (h : t.WellFormed) (hclear : t.Clear name s c)
    (hundeclared : t.lookupLocal c name = none) (hspan : (t.scope c).pending.get? name = some span) :
    t.lookup s name = .notYetDeclared span := by
  rw [h.lookup_clear hclear]
  refine lookup_of_local ?_
  rw [lookupLocal] at hundeclared
  rw [Scope.local?, hundeclared, hspan]
  rfl

-- The walk goes to smaller numbers, so the induction is on the number of the scope.
theorem lookup_missing (h : t.WellFormed) (hunknown : ∀ c, t.Clear name s c → ¬ t.Knows c name) :
    t.lookup s name = .missing := by
  induction s using Nat.strongRecOn with
  | ind s ih =>
    have hhere := hunknown s (.here s)
    cases hparent : (t.scope s).parent with
    | none => exact lookup_of_outermost (not_knows_iff.1 hhere) hparent
    | some parent =>
      rw [h.lookup_outward (not_knows_iff.1 hhere) hparent]
      exact ih parent (h.parent_lt hparent) fun c hclear => hunknown c (.outward hparent hhere hclear)

end WellFormed

/-! ### What a declaration changes -/

theorem parent_addSymbol (t : ScopeTree) (c : Nat) (symbol : Symbol) (s : Nat) :
    ((t.addSymbol c symbol).scope s).parent = (t.scope s).parent := by
  rw [addSymbol, scope_modify]
  split <;> rfl

theorem local?_addSymbol_self (hc : c < t.size) (symbol : Symbol) :
    ((t.addSymbol c symbol).scope c).local? symbol.name = some (.found symbol) := by
  rw [addSymbol, scope_modify_self _ hc, Scope.local?, Table.get?_insert_self]

/-- A declaration does not show under other names, nor in other scopes. -/
theorem local?_addSymbol_of_ne (h : s = c → name ≠ symbol.name) :
    ((t.addSymbol c symbol).scope s).local? name = (t.scope s).local? name := by
  rw [addSymbol, scope_modify]
  split
  · next heq =>
    have hne := h heq.1
    simp only [Scope.local?, Table.get?_insert, Table.get?_erase, if_neg hne]
  · rfl

namespace WellFormed

theorem lookup_declared (h : t.WellFormed) (hc : c < t.size) (hclear : t.Clear symbol.name s c) :
    (t.addSymbol c symbol).lookup s symbol.name = .found symbol := by
  induction hclear with
  | here c => exact lookup_of_local (local?_addSymbol_self hc symbol)
  | @outward s parent c hparent hunknown _ ih =>
    by_cases hs : s = c
    · rw [hs]
      exact lookup_of_local (local?_addSymbol_self hc symbol)
    · have hlocal : ((t.addSymbol c symbol).scope s).local? symbol.name = none := by
        rw [local?_addSymbol_of_ne fun heq => absurd heq hs]
        exact not_knows_iff.1 hunknown
      rw [(h.addSymbol c symbol).lookup_outward hlocal ((t.parent_addSymbol c symbol s).trans hparent)]
      exact ih hc

theorem lookup_unaffected (h : t.WellFormed) (hclear : ¬ (name = symbol.name ∧ t.Clear name s c)) :
    (t.addSymbol c symbol).lookup s name = t.lookup s name := by
  induction s using Nat.strongRecOn with
  | ind s ih =>
    have hlocal : ((t.addSymbol c symbol).scope s).local? name = (t.scope s).local? name := by
      refine local?_addSymbol_of_ne fun heq hname => hclear ⟨hname, ?_⟩
      rw [heq]
      exact .here c
    cases hresult : (t.scope s).local? name with
    | some result => rw [lookup_of_local hresult, lookup_of_local (hlocal.trans hresult)]
    | none =>
      have hparent' := t.parent_addSymbol c symbol s
      cases hparent : (t.scope s).parent with
      | none =>
        rw [lookup_of_outermost hresult hparent,
          lookup_of_outermost (hlocal.trans hresult) (hparent'.trans hparent)]
      | some parent =>
        rw [h.lookup_outward hresult hparent,
          (h.addSymbol c symbol).lookup_outward (hlocal.trans hresult) (hparent'.trans hparent)]
        exact ih parent (h.parent_lt hparent) fun hsees =>
          hclear ⟨hsees.1, .outward hparent (not_knows_iff.2 hresult) hsees.2⟩

end WellFormed

/-- The laws of scopes, for a tree with any history. Every scope but the global one lies inside an earlier scope, one
level deeper. A name means what the first scope outward that knows it says, where a declaration comes before an
announcement, and it is missing if there is none. A declaration that clashes changes no lookup. A declaration that
succeeds is found from the scopes from which it is the first to know its name, and changes no other lookup. -/
theorem reached_lawful (t : ScopeTree) (h : t.Reached) :
    ((t.scope 0).parent = none ∧ t.depth 0 = 0 ∧ ∀ id, 0 < id → id < t.size →
      ∃ parent < id, (t.scope id).parent = some parent ∧ t.depth id = t.depth parent + 1) ∧
    (∀ s name,
      (∀ c symbol, t.Clear name s c → t.lookupLocal c name = some symbol →
        t.lookup s name = .found symbol ∧ symbol.name = name) ∧
      (∀ c span, t.Clear name s c → t.lookupLocal c name = none → (t.scope c).pending.get? name = some span →
        t.lookup s name = .notYetDeclared span) ∧
      ((∀ c, t.Clear name s c → ¬ t.Knows c name) → t.lookup s name = .missing)) ∧
    ∀ c < t.size, ∀ symbol,
      (∀ existing, t.lookupLocal c symbol.name = some existing →
        t.declare c symbol = .error existing ∧
          ∀ s name, (Check.declare t c symbol).value.lookup s name = t.lookup s name) ∧
      (t.lookupLocal c symbol.name = none → ∃ t', t.declare c symbol = .ok t' ∧ ∀ s name,
        (name = symbol.name ∧ t.Clear name s c → t'.lookup s name = .found symbol) ∧
        (¬ (name = symbol.name ∧ t.Clear name s c) → t'.lookup s name = t.lookup s name)) := by
  have hwf := h.wellFormed
  refine ⟨⟨hwf.root.1, hwf.root.2, hwf.inner⟩, fun s name => ⟨?_, ?_, hwf.lookup_missing⟩, fun c hc symbol => ?_⟩
  · exact fun c symbol hclear hsymbol => ⟨hwf.lookup_found hclear hsymbol, hwf.named c name symbol hsymbol⟩
  · exact fun c span hclear hundeclared hspan => hwf.lookup_pending hclear hundeclared hspan
  · obtain ⟨existing, hlocal, herror, htree⟩ | ⟨hlocal, hok, -⟩ := t.declare_eq c symbol
    · refine ⟨fun other hother => ?_, fun hnone => ?_⟩
      · cases hlocal.symm.trans hother
        exact ⟨herror, fun s name => by rw [htree]⟩
      · cases hlocal.symm.trans hnone
    · refine ⟨fun other hother => ?_, fun _ => ⟨_, hok, fun s name => ⟨?_, hwf.lookup_unaffected⟩⟩⟩
      · cases hlocal.symm.trans hother
      · rintro ⟨rfl, hclear⟩
        exact hwf.lookup_declared hc hclear

/-- A global `x`, and a block inside a block that announces an `x` of its own. From the inner block the name is not
yet declared; once it is declared in the outer block it is found there, and the global one is found as before. -/
theorem reached_lawful_shadowing : ∃ t t' : ScopeTree, t.Reached ∧
    t.lookup 2 "x" = .notYetDeclared default ∧
    t.declare 1 (Check.variableSymbol ⟨"x", default⟩ .str 1 true) = .ok t' ∧
    t'.lookup 2 "x" = .found (Check.variableSymbol ⟨"x", default⟩ .str 1 true) ∧
    t'.lookup 0 "x" = .found (Check.variableSymbol ⟨"x", default⟩ .int 0 true) := by
  let global := Check.variableSymbol ⟨"x", default⟩ .int 0 true
  let shadow := Check.variableSymbol ⟨"x", default⟩ .str 1 true
  let t := (((Check.declare new 0 global).value.push 0).announce 1 "x" default).push 1
  have hreached : t.Reached :=
    (((Relation.ReflTransGen.single (.declare 0 global (by decide))).tail (.push 0 (by decide))).tail
      (.announce 1 "x" default (by decide))).tail (.push 1 (by decide))
  obtain ⟨-, hlookup, hdeclare⟩ := reached_lawful t hreached
  have hclear : t.Clear "x" 2 1 := .outward rfl (by rintro (h | h) <;> cases h) (.here 1)
  have hglobal : ¬ t.Clear "x" 0 1 := by
    rintro (_ | ⟨hparent, -, -⟩)
    cases hparent
  obtain ⟨t', hok, hafter⟩ := (hdeclare 1 (by decide) shadow).2 rfl
  refine ⟨t, t', hreached, (hlookup 2 "x").2.1 1 default hclear rfl rfl, hok, (hafter 2 "x").1 ⟨rfl, hclear⟩, ?_⟩
  rw [(hafter 0 "x").2 fun h => hglobal h.2]
  exact ((hlookup 0 "x").1 0 global (.here 0) rfl).1

end ScopeTree

end Scriptlet
