import Scriptlet.Decimal.Shortest

/-!
# Floats as text

Two layouts. A running program prints floats without exponents (`printed`); a report writes those that
are very large or very small with one (`reported`).
-/

namespace Scriptlet.Decimal

def zeros (n : Nat) : String :=
  String.ofList (List.replicate n '0')

def positional (d : Decimal) : String :=
  let digits := Nat.toDigits 10 d.digits
  let place : Int := digits.length + d.exponent
  if place ≤ 0 then "0." ++ zeros (-place).toNat ++ String.ofList digits
  else if 0 ≤ d.exponent then String.ofList digits ++ zeros d.exponent.toNat
  else String.ofList (digits.take place.toNat) ++ "." ++ String.ofList (digits.drop place.toNat)

def scientific (d : Decimal) : String :=
  let digits := Nat.toDigits 10 d.digits
  let exponent : Int := digits.length - 1 + d.exponent
  let mantissa := match digits with
    | first :: second :: rest => String.ofList (first :: '.' :: second :: rest)
    | _ => String.ofList digits
  mantissa ++ (if exponent < 0 then "e-" else "e+") ++ toString exponent.natAbs

/-- The text of a float in a program's output: a whole number in full with `.0`, any other by its
shortest digits, both without exponent. -/
def printed (x : Float) : String :=
  if x.isNaN then "NaN"
  else
    let magnitude :=
      if x.isInf then "inf"
      else
        let b := Binary.ofFloat x
        if b.isWhole then toString (b.floorAt 0) ++ ".0" else positional (shortest .up b)
    if isNegative x then "-" ++ magnitude else magnitude

/-- The text of a finite float in a report: its shortest digits, without exponent if the leading digit
stands for at least `10 ^ (-5)` and less than `10 ^ 16`. -/
def reported (x : Float) : String :=
  let b := Binary.ofFloat x
  let magnitude :=
    if b.mantissa = 0 then "0.0"
    else
      let d := shortest .toEven b
      let leading := (Nat.toDigits 10 d.digits).length - 1 + d.exponent
      if -5 ≤ leading ∧ leading < 16 then
        if 0 ≤ d.exponent then positional d ++ ".0" else positional d
      else scientific d
  if isNegative x then "-" ++ magnitude else magnitude

end Scriptlet.Decimal
