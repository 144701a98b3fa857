import Scriptlet.Text.Numeral

/-!
# Network addresses

An address to listen on: four octets or eight groups of 16 bits, and the number that follows the
last colon. The readers take what they can from the front of a text and give back the rest.
-/

namespace Scriptlet

inductive Address where
  | four (octets : List Nat) (portNumber : Nat)
  /-- a `scope` of 0 stands for none -/
  | six (groups : List Nat) (scope : Nat) (portNumber : Nat)
deriving DecidableEq, Repr

namespace Address

abbrev Read (α : Type) := List Char → Option (α × List Char)

def expect (c : Char) (cs : List Char) : Option (List Char) :=
  match cs with
  | d :: rest => if d = c then some rest else none
  | [] => none

def number (bound : Nat) : Read Nat := fun cs => do
  let n ← Text.natural? (cs.takeWhile Char.isDigit)
  if n < bound then some (n, cs.dropWhile Char.isDigit) else none

/-- One octet: at most three digits, and no zero in front of others. -/
def octet : Read Nat := fun cs =>
  let digits := cs.takeWhile Char.isDigit
  if 3 < digits.length ∨ (digits.head? = some '0' ∧ 1 < digits.length) then none
  else number 256 cs

def octets : Read (List Nat) := fun cs => do
  let (a, cs) ← octet cs
  let (b, cs) ← octet (← expect '.' cs)
  let (c, cs) ← octet (← expect '.' cs)
  let (d, cs) ← octet (← expect '.' cs)
  return ([a, b, c, d], cs)

def hexDigit? (c : Char) : Option Nat :=
  if c.isDigit then some (c.toNat - '0'.toNat)
  else if 'a' ≤ c ∧ c ≤ 'f' then some (c.toNat - 'a'.toNat + 10)
  else if 'A' ≤ c ∧ c ≤ 'F' then some (c.toNat - 'A'.toNat + 10)
  else none

def group : Read Nat := fun cs =>
  let digits := cs.takeWhile fun c => (hexDigit? c).isSome
  if digits = [] ∨ 4 < digits.length then none
  else
    some (digits.foldl (fun n c => 16 * n + (hexDigit? c).getD 0) 0, cs.drop digits.length)

def afterColon {α : Type} (first : Bool) (read : Read α) : Read α := fun cs => do
  read (← if first then some cs else expect ':' cs)

def pairUp : List Nat → List Nat
  | [a, b, c, d] => [256 * a + b, 256 * c + d]
  | _ => []

/-- Up to `limit` groups with colons between. The last two may be written as four octets, which the
flag tells. -/
def groups (first : Bool) : Nat → List Char → (List Nat × Bool) × List Char
  | 0, cs => (([], false), cs)
  | limit + 1, cs =>
    match (if 0 < limit then afterColon first octets cs else none) with
    | some (quad, rest) => ((pairUp quad, true), rest)
    | none =>
      match afterColon first group cs with
      | none => (([], false), cs)
      | some (g, rest) =>
        let ((gs, embedded), rest) := groups false limit rest
        ((g :: gs, embedded), rest)

/-- Eight groups; once, `::` may stand for one or more that are zero. -/
def eightGroups : Read (List Nat) := fun cs => do
  let ((head, embedded), rest) := groups true 8 cs
  if head.length = 8 then return (head, rest)
  else if embedded then none
  else
    let rest ← expect ':' (← expect ':' rest)
    let ((tail, _), rest) := groups true (8 - (head.length + 1)) rest
    return (head ++ List.replicate (8 - head.length - tail.length) 0 ++ tail, rest)

def portNumber : Read Nat := fun cs => do number 65536 (← expect ':' cs)

def scope (cs : List Char) : Nat × List Char :=
  match expect '%' cs >>= number UInt32.size with
  | some (n, rest) => (n, rest)
  | none => (0, cs)

def ofText? (text : String) : Option Address :=
  let short : Option Address := do
    let (a, cs) ← octets text.toList
    let (p, rest) ← portNumber cs
    if rest = [] then some (four a p) else none
  let long : Option Address := do
    let (a, cs) ← eightGroups (← expect '[' text.toList)
    let (s, cs) := scope cs
    let (p, rest) ← portNumber (← expect ']' cs)
    if rest = [] then some (six a s p) else none
  short <|> long

def octetsText (octets : List Nat) : String :=
  ".".intercalate (octets.map toString)

def rowText (groups : List Nat) : String :=
  ":".intercalate (groups.map fun g => String.ofList (Nat.toDigits 16 g))

def zerosInFront (groups : List Nat) : Nat :=
  (groups.takeWhile (· = 0)).length

/-- The longest run of zeros, the first one among equals: where it starts and how long it is. -/
def longestZeros : Nat → List Nat → Nat × Nat
  | index, [] => (index, 0)
  | index, g :: gs =>
    let here := zerosInFront (g :: gs)
    let later := longestZeros (index + 1) gs
    if later.2 ≤ here then (index, here) else later

/-- Eight groups in short: the longest run of at least two zeros is left out. Octets embedded in the
usual way are shown as such. -/
def groupsText (groups : List Nat) : String :=
  match groups with
  | [0, 0, 0, 0, 0, 0xFFFF, ab, cd] =>
    "::ffff:" ++ octetsText [ab / 256, ab % 256, cd / 256, cd % 256]
  | _ =>
    let (start, length) := longestZeros 0 groups
    if 1 < length then rowText (groups.take start) ++ "::" ++ rowText (groups.drop (start + length))
    else rowText groups

def text : Address → String
  | four octets portNumber => octetsText octets ++ ":" ++ toString portNumber
  | six groups scope portNumber =>
    "[" ++ groupsText groups ++ (if scope = 0 then "" else "%" ++ toString scope) ++ "]:" ++
      toString portNumber

end Address

end Scriptlet
