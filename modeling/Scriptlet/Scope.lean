import Scriptlet.Span
import Scriptlet.Table
import Scriptlet.Typing

/-!
# Symbols and scopes

A tree of scopes. Scope 0 is the global one; every other scope has a parent with a smaller number. A
scope holds the symbols declared in it, and the names that are announced: declared further down, and
not to be used yet. `ScopeTree.lookup` walks from a scope outward to the first one that knows a name.
-/

namespace Scriptlet

inductive SymbolKind where
  | var
  | param
  | function (params : List Ty)
deriving DecidableEq, Repr

def SymbolKind.isFunction : SymbolKind → Bool
  | function _ => true
  | _ => false

structure Symbol where
  name : String
  kind : SymbolKind
  type : Ty
  depth : Nat
  /-- where the declared name stands -/
  declaredAt : Span
  /-- false for a global variable until its declaration has been passed -/
  initialized : Bool
deriving DecidableEq, Repr

structure Scope where
  parent : Option Nat
  depth : Nat
  symbols : Table Symbol
  pending : Table Span

namespace Scope

def global : Scope := ⟨none, 0, .empty, .empty⟩

instance : Inhabited Scope := ⟨global⟩

end Scope

inductive Lookup where
  | found (symbol : Symbol)
  /-- The innermost declaration of the name comes later, at `span`. -/
  | notYetDeclared (span : Span)
  | missing
deriving DecidableEq, Repr

/-- What a scope by itself knows about a name. A declaration comes before an announcement. -/
def Scope.local? (s : Scope) (name : String) : Option Lookup :=
  match s.symbols.get? name with
  | some symbol => some (.found symbol)
  | none => (s.pending.get? name).map .notYetDeclared

structure ScopeTree where
  scopes : Array Scope

namespace ScopeTree

def new : ScopeTree := ⟨#[.global]⟩

def scope (t : ScopeTree) (id : Nat) : Scope :=
  t.scopes.getD id .global

def modify (t : ScopeTree) (id : Nat) (f : Scope → Scope) : ScopeTree :=
  ⟨t.scopes.modify id f⟩

def size (t : ScopeTree) : Nat := t.scopes.size

def depth (t : ScopeTree) (id : Nat) : Nat := (t.scope id).depth

/-- Opens a scope inside `parent`. Its number is the size of the tree before. -/
def push (t : ScopeTree) (parent : Nat) : ScopeTree :=
  ⟨t.scopes.push ⟨some parent, t.depth parent + 1, .empty, .empty⟩⟩

def lookupLocal (t : ScopeTree) (id : Nat) (name : String) : Option Symbol :=
  (t.scope id).symbols.get? name

/-- Declares a symbol that is not there yet; the name is no longer pending. -/
def addSymbol (t : ScopeTree) (id : Nat) (symbol : Symbol) : ScopeTree :=
  t.modify id fun s =>
    { s with
      symbols := s.symbols.insert symbol.name symbol
      pending := s.pending.erase symbol.name }

/-- Declares a symbol. If the scope already has one of that name, that one is returned instead and
nothing changes. -/
def declare (t : ScopeTree) (id : Nat) (symbol : Symbol) : Except Symbol ScopeTree :=
  match t.lookupLocal id symbol.name with
  | some existing => .error existing
  | none => .ok (t.addSymbol id symbol)

/-- Announces that `name` is declared later in the scope. The first announcement counts. -/
def announce (t : ScopeTree) (id : Nat) (name : String) (span : Span) : ScopeTree :=
  t.modify id fun s =>
    if s.pending.contains name then s else { s with pending := s.pending.insert name span }

def updateLocal (t : ScopeTree) (id : Nat) (name : String) (f : Symbol → Symbol) : ScopeTree :=
  match t.lookupLocal id name with
  | some symbol => t.modify id fun s => { s with symbols := s.symbols.insert name (f symbol) }
  | none => t

/-- Resolves a name, innermost scope first. -/
def lookup (t : ScopeTree) (id : Nat) (name : String) : Lookup :=
  match (t.scope id).local? name with
  | some result => result
  | none =>
    match (t.scope id).parent with
    | some parent => if parent < id then t.lookup parent name else .missing
    | none => .missing
termination_by id

/-- The global symbols, in the order of their declarations in the text. -/
def globals (t : ScopeTree) : List Symbol :=
  (t.scope 0).symbols.values.mergeSort fun a b =>
    a.declaredAt.start.offset ≤ b.declaredAt.start.offset

end ScopeTree

end Scriptlet
