import Scriptlet.Proofs.ScopeChain

/-!
# Two checks side by side

`t.Alike R t'`: the scopes of two checks have the same names, declared or announced, and what they have
under a name is related by `R`. Then a name that is looked up means the same in both, up to `R`. Each
change that a check makes to its scopes keeps them alike if both checks make it. `t.Lacks name` says that no
scope knows a name.
-/

namespace Scriptlet

variable {R : String → Symbol → Symbol → Prop} {name : String}

/-- The scopes hold the same names, and their symbols are related by `R`. -/
structure Scope.Alike (R : String → Symbol → Symbol → Prop) (s s' : Scope) : Prop where
  parent : s.parent = s'.parent
  depth : s.depth = s'.depth
  symbols : ∀ name, Option.Rel (R name) (s.symbols.get? name) (s'.symbols.get? name)
  pending : ∀ name, (s.pending.get? name).isSome = (s'.pending.get? name).isSome

/-- Two answers to the question what a name means. -/
inductive Lookup.Alike (R : Symbol → Symbol → Prop) : Lookup → Lookup → Prop
  | found {symbol symbol' : Symbol} : R symbol symbol' → Alike R (.found symbol) (.found symbol')
  | notYetDeclared (span span' : Span) : Alike R (.notYetDeclared span) (.notYetDeclared span')
  | missing : Alike R .missing .missing

namespace Scope

variable {s s' : Scope}

theorem local?_eq_none : s.local? name = none ↔
    s.symbols.get? name = none ∧ s.pending.get? name = none := by
  unfold local?
  cases s.symbols.get? name <;> simp

theorem Alike.local? (h : s.Alike R s') (name : String) :
    Option.Rel (Lookup.Alike (R name)) (s.local? name) (s'.local? name) := by
  have hsymbols := h.symbols name
  have hpending := h.pending name
  unfold Scope.local?
  generalize s.symbols.get? name = symbol at hsymbols ⊢
  generalize s'.symbols.get? name = symbol' at hsymbols ⊢
  cases hsymbols with
  | some hR => exact .some (.found hR)
  | none =>
    generalize s.pending.get? name = span at hpending ⊢
    generalize s'.pending.get? name = span' at hpending ⊢
    cases span with
    | none =>
      cases span' with
      | none => exact .none
      | some => cases hpending
    | some span =>
      cases span' with
      | none => cases hpending
      | some span' => exact .some (.notYetDeclared span span')

theorem Alike.contains_pending (h : s.Alike R s') (name : String) :
    s.pending.contains name = s'.pending.contains name := h.pending name

theorem Alike.insert {symbol symbol' : Symbol} (h : s.Alike R s') (hR : R name symbol symbol')
    {pending pending' : Table Span}
    (hpending : ∀ other, (pending.get? other).isSome = (pending'.get? other).isSome) :
    Scope.Alike R { s with symbols := s.symbols.insert name symbol, pending }
      { s' with symbols := s'.symbols.insert name symbol', pending := pending' } := by
  refine ⟨h.parent, h.depth, fun other => ?_, hpending⟩
  simp only [Table.get?_insert]
  split
  · next heq => exact .some (heq ▸ hR)
  · exact h.symbols other

end Scope

namespace ScopeTree

variable {t t' : ScopeTree} {id parent : Nat}

theorem scope_modify (f : Scope → Scope) (j : Nat) :
    (t.modify id f).scope j = if j = id ∧ id < t.size then f (t.scope j) else t.scope j := by
  by_cases hj : j = id
  · subst hj
    by_cases hlt : j < t.size
    · rw [scope_modify_self f hlt, if_pos ⟨rfl, hlt⟩]
    · rw [if_neg fun h => hlt h.2]
      have hsize : t.scopes.size ≤ j := Nat.le_of_not_lt hlt
      simp [scope, modify, Array.getD_eq_getD_getElem?, hsize]
  · rw [scope_modify_of_ne f hj, if_neg fun h => hj h.1]

theorem scope_push (j : Nat) : (t.push parent).scope j =
    if j = t.size then ⟨some parent, t.depth parent + 1, .empty, .empty⟩ else t.scope j := by
  split
  · next h => rw [h, scope_push_self]
  · next h =>
    simp only [scope, push, Array.getD_eq_getD_getElem?, Array.getElem?_push]
    rw [if_neg (show j ≠ t.scopes.size from h)]

theorem scope_of_size_le (h : t.size ≤ id) : t.scope id = .global := by
  have hsize : t.scopes.size ≤ id := h
  simp [scope, Array.getD_eq_getD_getElem?, hsize]

structure Alike (R : String → Symbol → Symbol → Prop) (t t' : ScopeTree) : Prop where
  size : t.size = t'.size
  scope : ∀ id, (t.scope id).Alike R (t'.scope id)

namespace Alike

theorem refl (hR : ∀ name symbol, R name symbol symbol) (t : ScopeTree) : t.Alike R t := by
  refine ⟨rfl, fun id => ⟨rfl, rfl, fun name => ?_, fun _ => rfl⟩⟩
  cases (t.scope id).symbols.get? name with
  | none => exact .none
  | some symbol => exact .some (hR name symbol)

theorem depth (h : t.Alike R t') (id : Nat) : t.depth id = t'.depth id := (h.scope id).depth

/-- What a name means in the one check it means in the other. -/
theorem lookup (h : t.Alike R t') (id : Nat) (name : String) :
    Lookup.Alike (R name) (t.lookup id name) (t'.lookup id name) := by
  induction id using Nat.strongRecOn with
  | ind id ih =>
    have hlocal := (h.scope id).local? name
    have hparent := (h.scope id).parent
    rw [ScopeTree.lookup, ScopeTree.lookup, ← hparent]
    generalize (t.scope id).local? name = found at hlocal ⊢
    generalize (t'.scope id).local? name = found' at hlocal ⊢
    cases hlocal with
    | some hfound => exact hfound
    | none =>
      dsimp only
      split
      · split
        · next hlt => exact ih _ hlt
        · exact .missing
      · exact .missing

theorem lookupLocal (h : t.Alike R t') (id : Nat) (name : String) :
    Option.Rel (R name) (t.lookupLocal id name) (t'.lookupLocal id name) := (h.scope id).symbols name

theorem modify (h : t.Alike R t') {f f' : Scope → Scope}
    (hf : (t.scope id).Alike R (t'.scope id) → (f (t.scope id)).Alike R (f' (t'.scope id))) :
    (t.modify id f).Alike R (t'.modify id f') := by
  refine ⟨by rw [size_modify, size_modify, h.size], fun j => ?_⟩
  rw [scope_modify, scope_modify, h.size]
  split
  · next hj => rw [hj.1]; exact hf (h.scope id)
  · exact h.scope j

theorem push (h : t.Alike R t') (parent : Nat) : (t.push parent).Alike R (t'.push parent) := by
  refine ⟨by rw [size_push, size_push, h.size], fun j => ?_⟩
  rw [scope_push, scope_push, h.size, h.depth]
  split
  · exact ⟨rfl, rfl, fun _ => .none, fun _ => rfl⟩
  · exact h.scope j

theorem announce (h : t.Alike R t') (id : Nat) (name : String) (span span' : Span) :
    (t.announce id name span).Alike R (t'.announce id name span') := by
  refine h.modify fun hscope => ?_
  rw [hscope.contains_pending]
  split
  · exact hscope
  · refine ⟨hscope.parent, hscope.depth, hscope.symbols, fun other => ?_⟩
    simp only [Table.get?_insert]
    split
    · rfl
    · exact hscope.pending other

theorem addSymbol {symbol symbol' : Symbol} (h : t.Alike R t') (id : Nat)
    (hname : symbol.name = symbol'.name) (hR : R symbol.name symbol symbol') :
    (t.addSymbol id symbol).Alike R (t'.addSymbol id symbol') := by
  refine h.modify fun hscope => ?_
  rw [← hname]
  refine hscope.insert hR fun other => ?_
  rw [Table.get?_erase, Table.get?_erase]
  split
  · rfl
  · exact hscope.pending other

theorem updateLocal {f f' : Symbol → Symbol} (h : t.Alike R t') (id : Nat)
    (hf : ∀ symbol symbol', t.lookupLocal id name = some symbol → R name symbol symbol' →
      R name (f symbol) (f' symbol')) :
    (t.updateLocal id name f).Alike R (t'.updateLocal id name f') := by
  have hlocal := h.lookupLocal id name
  unfold ScopeTree.updateLocal
  generalize hsymbol : t.lookupLocal id name = symbol at hlocal ⊢
  generalize t'.lookupLocal id name = symbol' at hlocal ⊢
  cases hlocal with
  | none => exact h
  | some hR => exact h.modify fun hscope => hscope.insert (hf _ _ hsymbol hR) hscope.pending

/-- A name is taken in both checks or in neither. -/
theorem declare {symbol symbol' : Symbol} (h : t.Alike R t') (id : Nat)
    (hname : symbol.name = symbol'.name) :
    (∃ existing existing', t.declare id symbol = .error existing ∧ t'.declare id symbol' = .error existing') ∨
      t.declare id symbol = .ok (t.addSymbol id symbol) ∧
        t'.declare id symbol' = .ok (t'.addSymbol id symbol') := by
  have hlocal := h.lookupLocal id symbol.name
  unfold ScopeTree.declare
  rw [← hname]
  generalize t.lookupLocal id symbol.name = found at hlocal ⊢
  generalize t'.lookupLocal id symbol.name = found' at hlocal ⊢
  cases hlocal with
  | none => exact .inr ⟨rfl, rfl⟩
  | some _ => exact .inl ⟨_, _, rfl, rfl⟩

end Alike

/-! ### Names that no scope knows -/

def Lacks (t : ScopeTree) (name : String) : Prop := ∀ id, (t.scope id).local? name = none

namespace Lacks

theorem new : ScopeTree.new.Lacks name := fun id => by cases id <;> rfl

theorem lookupLocal (h : t.Lacks name) (id : Nat) : t.lookupLocal id name = none :=
  (Scope.local?_eq_none.1 (h id)).1

theorem lookup (h : t.Lacks name) (id : Nat) : t.lookup id name = .missing := by
  induction id using Nat.strongRecOn with
  | ind id ih =>
    rw [ScopeTree.lookup, h id]
    dsimp only
    split
    · split
      · next hlt => exact ih _ hlt
      · rfl
    · rfl

theorem modify {f : Scope → Scope} (h : t.Lacks name) (hf : (f (t.scope id)).local? name = none) :
    (t.modify id f).Lacks name := by
  intro j
  rw [scope_modify]
  split
  · next hj => rw [hj.1]; exact hf
  · exact h j

theorem push (h : t.Lacks name) : (t.push parent).Lacks name := by
  intro j
  rw [scope_push]
  split
  · rfl
  · exact h j

theorem announce {other : String} {span : Span} (h : t.Lacks name) (hne : name ≠ other) :
    (t.announce id other span).Lacks name := by
  refine h.modify ?_
  split
  · exact h id
  · have hid := Scope.local?_eq_none.1 (h id)
    exact Scope.local?_eq_none.2 ⟨hid.1, by rw [Table.get?_insert_of_ne hne, hid.2]⟩

theorem addSymbol {symbol : Symbol} (h : t.Lacks name) (hne : name ≠ symbol.name) :
    (t.addSymbol id symbol).Lacks name := by
  refine h.modify (Scope.local?_eq_none.2 ?_)
  have hid := Scope.local?_eq_none.1 (h id)
  refine ⟨by rw [Table.get?_insert_of_ne hne, hid.1], ?_⟩
  rw [Table.get?_erase, if_neg hne, hid.2]

theorem updateLocal {other : String} {f : Symbol → Symbol} (h : t.Lacks name) :
    (t.updateLocal id other f).Lacks name := by
  unfold ScopeTree.updateLocal
  split
  · next symbol hsymbol =>
    have hid := Scope.local?_eq_none.1 (h id)
    have hne : name ≠ other := by
      rintro rfl
      rw [ScopeTree.lookupLocal, hid.1] at hsymbol
      cases hsymbol
    refine h.modify (Scope.local?_eq_none.2 ⟨?_, hid.2⟩)
    rw [Table.get?_insert_of_ne hne, hid.1]
  · exact h

end Lacks

end ScopeTree

end Scriptlet
