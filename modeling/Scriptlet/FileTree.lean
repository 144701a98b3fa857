/-!
# Directories in memory

A tree of files, addressed by the names on the way down from its root, and what becomes of a path given
as text: it is walked name by name from the working directory, each name but the last has to lead to a
directory, `.` stays and `..` goes up. A path that ends in `/` has to lead to a directory too. Names and
paths are limited in length, by the bytes of their text.
-/

namespace Scriptlet

inductive IoFault where
  | notFound
  | alreadyExists
  | notADirectory
  | isADirectory
  | nameTooLong
  | notText
  | other (text : String)
deriving DecidableEq, Repr

def IoFault.message : IoFault → String
  | notFound => "No such file or directory (os error 2)"
  | alreadyExists => "File exists (os error 17)"
  | notADirectory => "Not a directory (os error 20)"
  | isADirectory => "Is a directory (os error 21)"
  | nameTooLong => "File name too long (os error 36)"
  | notText => "stream did not contain valid UTF-8"
  | other text => text

def decodeText (bytes : ByteArray) : Except IoFault String :=
  match String.fromUTF8? bytes with
  | some s => .ok s
  | none => .error .notText

structure Path where
  absolute : Bool
  names : List String
  /-- whether it ends in a slash -/
  directory : Bool
deriving DecidableEq, Repr

namespace Path

def limit : Nat := 4095

def nameLimit : Nat := 255

def ofText (text : String) : Except IoFault Path :=
  if text.utf8ByteSize ≤ limit then
    .ok ⟨text.startsWith "/", (text.splitOn "/").filter (· ≠ ""), text.endsWith "/"⟩
  else .error .nameTooLong

/-- Whether a name may be left out of a path, unless it comes first. -/
def idle (name : String) : Bool :=
  name = "" || name = "."

/-- The text of a path without its last name. There is none if the path has no name; it is empty if
the path has only one. -/
def parentText? (text : String) : Option String :=
  match text.splitOn "/" with
  | [] => none
  | first :: rest =>
    match rest.reverse.dropWhile idle with
    | [] => if first = "" then none else some ""
    | _ :: before =>
      let kept := (before.dropWhile idle).reverse
      if first = "" ∧ kept = [] then some "/" else some ("/".intercalate (first :: kept))

end Path

inductive Entry (γ : Type) where
  | dir
  | file (content : γ)

/-- The entries below the root, by the names that lead to them, and the directory that paths start
from. -/
structure FileTree (γ : Type) where
  entries : List (List String × Entry γ) := []
  working : List String := []

namespace FileTree

variable {γ : Type}

def get? (t : FileTree γ) (place : List String) : Option (Entry γ) :=
  if place = [] then some .dir else t.entries.lookup place

def put (t : FileTree γ) (place : List String) (e : Entry γ) : FileTree γ :=
  { t with entries := (place, e) :: t.entries.filter (·.1 ≠ place) }

def isDir (t : FileTree γ) (place : List String) : Bool :=
  match t.get? place with
  | some .dir => true
  | _ => false

def find (t : FileTree γ) (place : List String) (name : String) :
    Except IoFault (Option (Entry γ)) :=
  if name.utf8ByteSize ≤ Path.nameLimit then .ok (t.get? (place ++ [name])) else .error .nameTooLong

def walk (t : FileTree γ) (place : List String) : List String → Except IoFault (List String)
  | [] => .ok place
  | name :: rest =>
    match t.get? place with
    | none => .error .notFound
    | some (.file _) => .error .notADirectory
    | some .dir =>
      if name = "." then t.walk place rest
      else if name = ".." then t.walk place.dropLast rest
      else
        match t.find place name with
        | .error fault => .error fault
        | .ok none => .error .notFound
        | .ok (some _) => t.walk (place ++ [name]) rest

def start (t : FileTree γ) (absolute : Bool) : List String :=
  if absolute then [] else t.working

def resolve (t : FileTree γ) (p : Path) : Except IoFault (List String) := do
  if p.names = [] ∧ !p.absolute then .error .notFound
  else
    let place ← t.walk (t.start p.absolute) p.names
    if p.directory ∧ !t.isDir place then .error .notADirectory else .ok place

/-- Where a path would create its last name: the place of the directory, and the name. A path that
ends in `.` or `..` or has no names gives no name. -/
def resolveLast (t : FileTree γ) (absolute : Bool) (names : List String) :
    Except IoFault (List String × Option String) := do
  match names.getLast? with
  | none => if absolute then .ok ([], none) else .error .notFound
  | some name =>
    let place ← t.walk (t.start absolute) names.dropLast
    match t.get? place with
    | none => .error .notFound
    | some (.file _) => .error .notADirectory
    | some .dir => .ok (place, if name = "." ∨ name = ".." then none else some name)

def read (t : FileTree γ) (text : String) : Except IoFault γ := do
  let place ← t.resolve (← Path.ofText text)
  match t.get? place with
  | some (.file content) => .ok content
  | _ => .error .isADirectory

def write (t : FileTree γ) (text : String) (content : γ) : Except IoFault (FileTree γ) := do
  let p ← Path.ofText text
  match ← t.resolveLast p.absolute p.names with
  | (_, none) => .error .isADirectory
  | (place, some name) =>
    if p.directory then .error .isADirectory
    else
      match ← t.find place name with
      | some .dir => .error .isADirectory
      | _ => .ok (t.put (place ++ [name]) (.file content))

def makeDir (t : FileTree γ) (absolute : Bool) (names : List String) :
    Except IoFault (FileTree γ) := do
  match ← t.resolveLast absolute names with
  | (_, none) => .error .alreadyExists
  | (place, some name) =>
    match ← t.find place name with
    | some _ => .error .alreadyExists
    | none => .ok (t.put (place ++ [name]) .dir)

def ensureDir (t : FileTree γ) (absolute : Bool) (names : List String) :
    Except IoFault (FileTree γ) :=
  match t.makeDir absolute names with
  | .ok t => .ok t
  | .error fault =>
    match t.walk (t.start absolute) names with
    | .ok place => if t.isDir place then .ok t else .error fault
    | .error _ => .error fault

/-- Creates a directory and those above it that are missing. The names are given last first. -/
def ensureAll (absolute : Bool) : List String → FileTree γ → Except IoFault (FileTree γ)
  | [], t => .ok t
  | name :: above, t =>
    if Path.idle name then ensureAll absolute above t
    else
      match t.ensureDir absolute (above.reverse ++ [name]) with
      | .error .notFound => do
        let t ← ensureAll absolute above t
        t.ensureDir absolute (above.reverse ++ [name])
      | result => result

def makeDirs (t : FileTree γ) (text : String) : Except IoFault (FileTree γ) := do
  let p ← Path.ofText text
  ensureAll p.absolute p.names.reverse t

def filesBelow (t : FileTree γ) (place : List String) : List (List String × γ) :=
  t.entries.filterMap fun
    | (p, .file content) => if place.isPrefixOf p then some (p.drop place.length, content) else none
    | (_, .dir) => none

end FileTree

end Scriptlet
