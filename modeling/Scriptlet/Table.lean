/-!
# Tables of names

A finite table from names to values. An entry keeps its place when its value is replaced; new entries
go to the end.
-/

namespace Scriptlet

structure Table (α : Type) where
  entries : List (String × α)
deriving Repr

namespace Table

variable {α : Type}

def empty : Table α := ⟨[]⟩

instance : Inhabited (Table α) := ⟨empty⟩

/-- The value of the first entry under `name`. -/
def lookup (name : String) : List (String × α) → Option α
  | [] => none
  | (key, value) :: rest => if key = name then some value else lookup name rest

def get? (t : Table α) (name : String) : Option α :=
  lookup name t.entries

def contains (t : Table α) (name : String) : Bool :=
  (t.get? name).isSome

def values (t : Table α) : List α :=
  t.entries.map (·.2)

/-- The entries with `value` under `name`, in place of an old value or at the end. -/
def put (name : String) (value : α) : List (String × α) → List (String × α)
  | [] => [(name, value)]
  | (key, old) :: rest =>
    if key = name then (key, value) :: rest else (key, old) :: put name value rest

def insert (t : Table α) (name : String) (value : α) : Table α :=
  ⟨put name value t.entries⟩

def erase (t : Table α) (name : String) : Table α :=
  ⟨t.entries.filter (·.1 ≠ name)⟩

theorem lookup_put (name other : String) (value : α) (entries : List (String × α)) :
    lookup other (put name value entries) =
      if other = name then some value else lookup other entries := by
  induction entries with
  | nil => simp [put, lookup, eq_comm]
  | cons entry rest ih =>
    obtain ⟨key, old⟩ := entry
    by_cases hk : key = name
    · subst hk
      by_cases h : other = key
      · simp [put, lookup, h]
      · simp [put, lookup, h, Ne.symm h]
    · by_cases h : other = name
      · subst h
        simp [put, lookup, hk, ih]
      · simp [put, lookup, hk, h, ih]

theorem lookup_filter_ne (name other : String) (entries : List (String × α)) :
    lookup other (entries.filter (·.1 ≠ name)) =
      if other = name then none else lookup other entries := by
  induction entries with
  | nil => simp [lookup]
  | cons entry rest ih =>
    obtain ⟨key, old⟩ := entry
    by_cases hk : key = name
    · subst hk
      by_cases h : other = key
      · simp_all
      · simp_all [lookup, Ne.symm h]
    · by_cases h : other = name
      · subst h
        simp_all [lookup]
      · by_cases hko : key = other <;> simp_all [lookup]

@[simp] theorem get?_empty (name : String) : (empty : Table α).get? name = none := rfl

theorem get?_insert (t : Table α) (name other : String) (value : α) :
    (t.insert name value).get? other = if other = name then some value else t.get? other :=
  lookup_put name other value t.entries

theorem get?_erase (t : Table α) (name other : String) :
    (t.erase name).get? other = if other = name then none else t.get? other :=
  lookup_filter_ne name other t.entries

@[simp] theorem get?_insert_self (t : Table α) (name : String) (value : α) :
    (t.insert name value).get? name = some value := by
  simp [get?_insert]

theorem get?_insert_of_ne {name other : String} (h : other ≠ name) (t : Table α) (value : α) :
    (t.insert name value).get? other = t.get? other := by
  simp [get?_insert, h]

/-- A new entry goes to the end. -/
theorem insert_of_fresh {t : Table α} {name : String} (h : t.get? name = none) (value : α) :
    t.insert name value = ⟨t.entries ++ [(name, value)]⟩ := by
  obtain ⟨entries⟩ := t
  change lookup name entries = none at h
  refine congrArg mk ?_
  induction entries with
  | nil => rfl
  | cons first rest ih =>
    rw [lookup] at h
    split at h
    · cases h
    · next hkey => rw [put, if_neg hkey, ih h, List.cons_append]

theorem mem_entries_of_get? {t : Table α} {name : String} {value : α} (h : t.get? name = some value) :
    (name, value) ∈ t.entries := by
  obtain ⟨entries⟩ := t
  change lookup name entries = some value at h
  induction entries with
  | nil => cases h
  | cons first rest ih =>
    rw [lookup] at h
    split at h
    · next hkey =>
      cases h
      rw [← hkey]
      exact List.mem_cons_self
    · exact List.mem_cons_of_mem _ (ih h)

end Table

end Scriptlet
