import Mathlib.Data.List.Forall2
import Scriptlet.Check
import Scriptlet.Proofs.Layout

/-!
# Scopes of a check and scopes of a run

`ScopeTree.chain`: the scopes that a name is looked up in, innermost first. `Matches R scopes slots` says
that these scopes and those of a run hold the same names, with symbols and variables that are related by
`R`. Then a name that is found in the one is found in the other (`Matches.lookup`). Opening a scope,
announcing names and declaring them keep the two in step.
-/

namespace Scriptlet

namespace ScopeTree

def chain (t : ScopeTree) (id : Nat) : List Scope :=
  t.scope id ::
    match (t.scope id).parent with
    | some parent => if parent < id then t.chain parent else []
    | none => []
termination_by id

variable {t t' : ScopeTree} {id j parent : Nat}

theorem chain_of_parent (h : (t.scope id).parent = some parent) (hlt : parent < id) :
    t.chain id = t.scope id :: t.chain parent := by
  rw [chain, h]
  simp only [if_pos hlt]

/-- The scopes that come later do not matter. -/
theorem chain_congr (h : ∀ j ≤ id, t.scope j = t'.scope j) : t.chain id = t'.chain id := by
  induction id using Nat.strongRecOn with
  | ind id ih =>
    rw [chain, chain, h id (Nat.le_refl id)]
    split
    · split
      · next parent _ hlt =>
        rw [ih parent hlt fun j hj => h j (Nat.le_trans hj (Nat.le_of_lt hlt))]
      · rfl
    · rfl

theorem scope_modify_self (f : Scope → Scope) (h : id < t.size) :
    (t.modify id f).scope id = f (t.scope id) := by
  simp only [scope, modify, Array.getD_eq_getD_getElem?, Array.getElem?_modify]
  simp [Array.getElem?_eq_getElem h]

theorem scope_modify_of_ne (f : Scope → Scope) (h : j ≠ id) :
    (t.modify id f).scope j = t.scope j := by
  simp only [scope, modify, Array.getD_eq_getD_getElem?, Array.getElem?_modify]
  simp [Ne.symm h]

theorem scope_push_self : (t.push parent).scope t.size =
    ⟨some parent, t.depth parent + 1, .empty, .empty⟩ := by
  simp [scope, push, size]

theorem scope_push_of_lt (h : j < t.size) : (t.push parent).scope j = t.scope j := by
  simp only [scope, push, Array.getD_eq_getD_getElem?, Array.getElem?_push]
  rw [if_neg (show j ≠ t.scopes.size from Nat.ne_of_lt h)]

@[simp] theorem size_modify (f : Scope → Scope) : (t.modify id f).size = t.size := by
  simp [modify, size]

@[simp] theorem size_push : (t.push parent).size = t.size + 1 := by
  simp [push, size]

@[simp] theorem size_announce (name : String) (span : Span) :
    (t.announce id name span).size = t.size := size_modify _

@[simp] theorem size_addSymbol (symbol : Symbol) : (t.addSymbol id symbol).size = t.size :=
  size_modify _

@[simp] theorem size_updateLocal (name : String) (f : Symbol → Symbol) :
    (t.updateLocal id name f).size = t.size := by
  unfold updateLocal
  split
  · exact size_modify _
  · rfl

theorem chain_push (h : parent < t.size) : (t.push parent).chain t.size =
    ⟨some parent, t.depth parent + 1, .empty, .empty⟩ :: t.chain parent := by
  rw [chain_of_parent (by rw [scope_push_self]) h, scope_push_self]
  congr 1
  exact chain_congr fun j hj => scope_push_of_lt (Nat.lt_of_le_of_lt hj h)

/-- A change of a scope shows at the head of its chain. -/
theorem chain_modify {f : Scope → Scope} (hf : ∀ s, (f s).parent = s.parent) (h : id < t.size) :
    (t.modify id f).chain id = f (t.scope id) :: (t.chain id).tail := by
  rw [chain, chain, scope_modify_self f h, hf]
  split
  · split
    · next parent _ hlt =>
      simp only [List.tail_cons, List.cons.injEq, true_and]
      exact chain_congr fun j hj => scope_modify_of_ne f (Nat.ne_of_lt (Nat.lt_of_le_of_lt hj hlt))
    · rfl
  · rfl

theorem tail_chain_modify {f : Scope → Scope} (hf : ∀ s, (f s).parent = s.parent) (h : id < t.size) :
    ((t.modify id f).chain id).tail = (t.chain id).tail := by
  rw [chain_modify hf h, List.tail_cons]

theorem tail_chain_addSymbol (symbol : Symbol) (h : id < t.size) :
    ((t.addSymbol id symbol).chain id).tail = (t.chain id).tail :=
  tail_chain_modify (fun _ => rfl) h

theorem tail_chain_announce (name : String) (span : Span) (h : id < t.size) :
    ((t.announce id name span).chain id).tail = (t.chain id).tail :=
  tail_chain_modify (fun _ => by split <;> rfl) h

theorem tail_chain_updateLocal (name : String) (f : Symbol → Symbol) (h : id < t.size) :
    ((t.updateLocal id name f).chain id).tail = (t.chain id).tail := by
  unfold updateLocal
  split
  · exact tail_chain_modify (fun _ => rfl) h
  · rfl

theorem chain_eq_cons (t : ScopeTree) (id : Nat) : t.chain id = t.scope id :: (t.chain id).tail := by
  rw [chain]
  rfl

end ScopeTree

variable {β γ : Type}

/-- A scope of a check and one of a run hold the same names. -/
def Scope.Fits (R : Symbol → β → Prop) (scope : Scope) (names : Names β) : Prop :=
  ∀ name, Option.Rel R (scope.symbols.get? name) (names name)

/-- Scopes of a check and scopes of a run hold the same names, one by one. -/
def Matches (R : Symbol → β → Prop) : List Scope → List (Names β) → Prop :=
  List.Forall₂ (Scope.Fits R)

variable {R : Symbol → β → Prop} {t : ScopeTree} {id : Nat} {l : List (Names β)} {names : Names β}

namespace Scope.Fits

theorem empty {parent : Option Nat} {depth : Nat} {pending : Table Span} :
    Scope.Fits R ⟨parent, depth, .empty, pending⟩ .none := fun _ => .none

theorem insert {scope : Scope} {symbol : Symbol} {b : β} {name : String} (h : scope.Fits R names)
    (hR : R symbol b) {pending : Table Span} :
    Scope.Fits R { scope with symbols := scope.symbols.insert name symbol, pending }
      (names.add name b) := by
  intro other
  simp only [Table.get?_insert, Names.add]
  split
  · exact .some hR
  · exact h other

theorem symbol {scope : Scope} {name : String} {b : β} (h : scope.Fits R names)
    (hb : names name = some b) : ∃ symbol, scope.symbols.get? name = some symbol ∧ R symbol b := by
  have hname := h name
  rw [hb] at hname
  generalize scope.symbols.get? name = found at hname
  cases hname with
  | some hR => exact ⟨_, rfl, hR⟩

theorem binding {scope : Scope} {name : String} {symbol : Symbol} (h : scope.Fits R names)
    (hsymbol : scope.symbols.get? name = some symbol) : ∃ b, names name = some b ∧ R symbol b := by
  have hname := h name
  rw [hsymbol] at hname
  generalize names name = found at hname
  cases hname with
  | some hR => exact ⟨_, rfl, hR⟩

theorem eq_none_iff {scope : Scope} {name : String} (h : scope.Fits R names) :
    scope.symbols.get? name = none ↔ names name = none := by
  have hname := h name
  generalize scope.symbols.get? name = symbol at hname
  generalize names name = found at hname
  cases hname <;> simp

end Scope.Fits

namespace Matches

theorem head (h : Matches R (t.chain id) l) : ∃ names rest, l = names :: rest ∧
    (t.scope id).Fits R names ∧ Matches R (t.chain id).tail rest := by
  rw [t.chain_eq_cons id] at h
  cases h with
  | cons hhead hrest => exact ⟨_, _, rfl, hhead, hrest⟩

/-- A name that the check has found is found in the run. -/
theorem lookup {name : String} {symbol : Symbol} (h : Matches R (t.chain id) l)
    (hfound : t.lookup id name = .found symbol) :
    ∃ b, l.findSome? (· name) = some b ∧ R symbol b := by
  fun_induction t.lookup id name generalizing l with
  | case1 id result hlocal =>
    obtain ⟨names, rest, rfl, hfits, -⟩ := h.head
    subst hfound
    have hsymbol : (t.scope id).symbols.get? name = some symbol := by
      unfold Scope.local? at hlocal
      split at hlocal
      · next hget => cases hlocal; exact hget
      · simp at hlocal
    obtain ⟨b, hb, hR⟩ := hfits.binding hsymbol
    exact ⟨b, by simp [hb], hR⟩
  | case2 id hlocal parent hparent hlt ih =>
    rw [ScopeTree.chain_of_parent hparent hlt] at h
    cases h with
    | cons hfits hrest =>
      have hsymbol : (t.scope id).symbols.get? name = none := by
        unfold Scope.local? at hlocal
        split at hlocal
        · cases hlocal
        · next hget => exact hget
      -- The run does not know the name here either, so both look further out.
      obtain ⟨b, hfind, hR⟩ := ih hrest hfound
      exact ⟨b, by simpa [hfits.eq_none_iff.1 hsymbol] using hfind, hR⟩
  | case3 => cases hfound
  | case4 => cases hfound

theorem push (h : Matches R (t.chain id) l) (hid : id < t.size) :
    Matches R ((t.push id).chain t.size) (.none :: l) := by
  rw [ScopeTree.chain_push hid]
  exact .cons .empty h

theorem addSymbol {symbol : Symbol} {b : β} (h : Matches R (t.chain id) l) (hid : id < t.size)
    (hR : R symbol b) :
    Matches R ((t.addSymbol id symbol).chain id) (l.modifyHead (·.add symbol.name b)) := by
  obtain ⟨names, rest, rfl, hhead, hrest⟩ := h.head
  rw [ScopeTree.addSymbol, ScopeTree.chain_modify ?_ hid]
  · exact .cons (hhead.insert hR) hrest
  · exact fun _ => rfl

/-- A change of the innermost scope that does not show in the run. -/
theorem modify_left {f : Scope → Scope} (h : Matches R (t.chain id) (names :: l)) (hid : id < t.size)
    (hparent : ∀ s, (f s).parent = s.parent)
    (hfits : (t.scope id).Fits R names → (f (t.scope id)).Fits R names) :
    Matches R ((t.modify id f).chain id) (names :: l) := by
  rw [ScopeTree.chain_modify hparent hid]
  rw [t.chain_eq_cons id] at h
  cases h with
  | cons hhead hrest => exact .cons (hfits hhead) hrest

theorem announce (name : String) (span : Span) (h : Matches R (t.chain id) l) (hid : id < t.size) :
    Matches R ((t.announce id name span).chain id) l := by
  obtain ⟨names, rest, rfl, -, -⟩ := h.head
  refine h.modify_left hid (fun s => ?_) fun hfits => ?_
  · split <;> rfl
  · split <;> exact hfits

/-- A change of a symbol that keeps what it is related to. -/
theorem updateLocal {name : String} {f : Symbol → Symbol} (h : Matches R (t.chain id) (names :: l))
    (hid : id < t.size)
    (hf : ∀ symbol b, names name = some b → R symbol b → R (f symbol) b) :
    Matches R ((t.updateLocal id name f).chain id) (names :: l) := by
  unfold ScopeTree.updateLocal
  split
  · next symbol hsymbol =>
    refine h.modify_left hid (fun _ => rfl) fun hfits other => ?_
    simp only [Table.get?_insert]
    split
    · next heq =>
      subst heq
      obtain ⟨b, hb, hR⟩ := hfits.binding hsymbol
      rw [hb]
      exact .some (hf symbol b hb hR)
    · exact hfits other
  · exact h

end Matches

end Scriptlet
