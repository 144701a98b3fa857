import Scriptlet.FileTree
import Scriptlet.Json
import Scriptlet.Text.Upper

/-!
# Sample programs

The programs below a directory: files named `*.mc`, in the order of their paths, each with a title made
from the name of the file.
-/

namespace Scriptlet

structure Sample where
  title : String
  /-- the names that lead to the file from the directory of samples -/
  place : List String
  code : String
deriving DecidableEq, Repr

inductive SampleFault where
  | missingRoot (path : String)
  | unreadable (path : String) (cause : IoFault)
deriving DecidableEq, Repr

def SampleFault.message : SampleFault → String
  | missingRoot path => s!"samples directory was not found at {path}"
  | unreadable path cause => s!"failed to read sample {path}: " ++ cause.message

namespace Sample

def json (s : Sample) : Json :=
  .obj [("name", .str s.title), ("code", .str s.code)]

/-- The name of a file, split at its last dot. A dot in front does not count. -/
def splitName (name : String) : String × Option String :=
  let backwards := name.toList.reverse
  match backwards.dropWhile (· ≠ '.') with
  | _ :: stem =>
    if stem = [] then (name, none)
    else (String.ofList stem.reverse, some (String.ofList (backwards.takeWhile (· ≠ '.')).reverse))
  | [] => (name, none)

def isSampleName (name : String) : Bool :=
  (splitName name).2 = some "mc"

def isWord (part : String) : Bool :=
  !part.toList.all Char.isDigit

/-- The title for a file: the words of its name, the first one with a capital. A name without words is
its own title. -/
def titleOf (name : String) : String :=
  let stem := (splitName name).1
  match (" ".intercalate ((stem.splitOn "_").filter isWord)).toList with
  | [] => stem
  | c :: cs => String.ofList (Text.upper c ++ cs)

/-- Whether a place comes before another: the names are compared one by one. -/
def placeLe : List String → List String → Bool
  | [], _ => true
  | _ :: _, [] => false
  | a :: as, b :: bs => if a = b then placeLe as bs else a < b

def pathBelow (root : String) (place : List String) : String :=
  (if root.endsWith "/" then root else root ++ "/") ++ "/".intercalate place

def ofFile (root : String) (place : List String) (content : ByteArray) : Except SampleFault Sample :=
  match decodeText content with
  | .ok code => .ok ⟨titleOf (place.getLast?.getD ""), place, code⟩
  | .error cause => .error (.unreadable (pathBelow root place) cause)

def load (tree : FileTree ByteArray) (root : String) : Except SampleFault (List Sample) :=
  match Path.ofText root >>= tree.resolve with
  | .error _ => .error (.missingRoot root)
  | .ok place =>
    if tree.isDir place then
      let files := (tree.filesBelow place).filter fun (place, _) =>
        isSampleName (place.getLast?.getD "")
      (files.mergeSort fun a b => placeLe a.1 b.1).mapM fun (place, content) =>
        ofFile root place content
    else .error (.missingRoot root)

end Sample

end Scriptlet
