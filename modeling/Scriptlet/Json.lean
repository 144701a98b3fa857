import Scriptlet.Decimal.Layout

/-!
# JSON values

The data of reports and answers, and the text of a value. Objects keep the order of their fields.
-/

namespace Scriptlet

inductive Json where
  | null
  | bool (b : Bool)
  | int (n : Int)
  | float (x : Float)
  | str (s : String)
  | arr (items : List Json)
  | obj (fields : List (String × Json))
deriving Inhabited

namespace Json

def nat (n : Nat) : Json := int n

def list {α : Type} (f : α → Json) (items : List α) : Json :=
  arr (items.map f)

def option {α : Type} (f : α → Json) : Option α → Json
  | none => null
  | some a => f a

/-- A field that is left out if there is no value. -/
def field? {α : Type} (name : String) (f : α → Json) : Option α → List (String × Json)
  | none => []
  | some a => [(name, f a)]

def quotedChar (c : Char) : String :=
  if c = '"' then "\\\""
  else if c = '\\' then "\\\\"
  else if c = '\n' then "\\n"
  else if c = '\r' then "\\r"
  else if c = '\t' then "\\t"
  else if c = '\x08' then "\\b"
  else if c = '\x0c' then "\\f"
  else if c.toNat < 0x20 then
    "\\u00" ++ (if c.toNat < 0x10 then "0" else "") ++ String.ofList (Nat.toDigits 16 c.toNat)
  else String.ofList [c]

/-- A text in quotes. Everything outside the control characters is written as it is. -/
def quoted (s : String) : String :=
  "\"" ++ String.join (s.toList.map quotedChar) ++ "\""

def newline (depth : Nat) : String :=
  "\n" ++ String.ofList (List.replicate (2 * depth) ' ')

mutual

/-- The text of a value over several lines, two blanks to a level; `depth` is the level it stands at.
A float that is not finite is written as null. -/
def prettyAt (depth : Nat) : Json → String
  | null => "null"
  | bool b => if b then "true" else "false"
  | int n => toString n
  | float x => if x.isFinite then Decimal.reported x else "null"
  | str s => quoted s
  | arr [] => "[]"
  | arr items => "[" ++ prettyItems (depth + 1) "" items ++ newline depth ++ "]"
  | obj [] => "\x7b\x7d"
  | obj fields => "\x7b" ++ prettyFields (depth + 1) "" fields ++ newline depth ++ "\x7d"

def prettyItems (depth : Nat) (before : String) : List Json → String
  | [] => ""
  | item :: rest => before ++ newline depth ++ prettyAt depth item ++ prettyItems depth "," rest

def prettyFields (depth : Nat) (before : String) : List (String × Json) → String
  | [] => ""
  | (name, value) :: rest =>
    before ++ newline depth ++ quoted name ++ ": " ++ prettyAt depth value ++
      prettyFields depth "," rest

end

def pretty (j : Json) : String :=
  prettyAt 0 j

end Json

end Scriptlet
