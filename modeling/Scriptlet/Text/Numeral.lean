/-!
# Reading numerals

Decimal numerals as they occur in programs and on the command line. Every reader takes the whole text
or nothing: whole numbers within a range, and decimal fractions, which are rounded to the nearest
64-bit float.
-/

namespace Scriptlet.Text

def digitsValue (cs : List Char) : Nat :=
  cs.foldl (fun n c => 10 * n + (c.toNat - '0'.toNat)) 0

def natural? (cs : List Char) : Option Nat :=
  if cs ≠ [] ∧ cs.all Char.isDigit then some (digitsValue cs) else none

/-- A sign in front, if there is one: whether it is a minus, and what follows. -/
def splitSign : List Char → Bool × List Char
  | '-' :: cs => (true, cs)
  | '+' :: cs => (false, cs)
  | cs => (false, cs)

def naturalBelow? (bound : Nat) (cs : List Char) : Option Nat :=
  let digits := match cs with
    | '+' :: rest => rest
    | _ => cs
  (natural? digits).filter (· < bound)

def int64? (cs : List Char) : Option Int64 :=
  let (minus, digits) := splitSign cs
  match natural? digits with
  | none => none
  | some n =>
    let value : Int := if minus then -(n : Int) else n
    if Int64.minValue.toInt ≤ value ∧ value ≤ Int64.maxValue.toInt then some (Int64.ofInt value) else none

/-- The float nearest to `digits * 10 ^ exponent`. Magnitudes beyond the range of floats are settled
without computing the power. -/
def nearestFloat (digits : Nat) (exponent : Int) : Float :=
  let magnitude : Int := (Nat.toDigits 10 digits).length + exponent
  if digits = 0 ∨ magnitude < -330 then 0.0
  else if 310 < magnitude then 1.0 / 0.0
  else Float.ofScientific digits (exponent < 0) exponent.natAbs

def exponent? : List Char → Option Int
  | [] => some 0
  | c :: cs =>
    if c = 'e' ∨ c = 'E' then
      let (minus, digits) := splitSign cs
      (natural? digits).map fun n => if minus then -(n : Int) else n
    else none

/-- An unsigned decimal fraction. One of the two sides of the point may be empty. -/
def decimal? (cs : List Char) : Option Float :=
  let (whole, rest) := cs.span Char.isDigit
  let (fraction, rest) := match rest with
    | '.' :: after => after.span Char.isDigit
    | _ => ([], rest)
  if whole = [] ∧ fraction = [] then none
  else
    (exponent? rest).map fun e =>
      nearestFloat (digitsValue (whole ++ fraction)) (e - fraction.length)

/-- The names of the values that no digits can write; their case does not matter. -/
def namedFloat? (cs : List Char) : Option Float :=
  let word := String.ofList (cs.map Char.toLower)
  if word = "inf" ∨ word = "infinity" then some (1.0 / 0.0)
  else if word = "nan" then some (0.0 / 0.0)
  else none

def float? (cs : List Char) : Option Float :=
  let (minus, body) := splitSign cs
  (namedFloat? body <|> decimal? body).map fun x => if minus then -x else x

end Scriptlet.Text
