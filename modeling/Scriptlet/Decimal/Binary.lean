/-!
# Floats as exact binary fractions

A finite 64-bit float is a sign and a natural number times a power of two. In this form a float can be
compared with decimals, cut to a whole number and divided with remainder, all exactly.
-/

namespace Scriptlet.Decimal

/-- The non-negative number `mantissa * 2 ^ power`, as a float holds it. -/
structure Binary where
  mantissa : Nat
  power : Int
  /-- The float below is only half as far away as the float above. -/
  narrow : Bool
deriving Repr

def isNegative (x : Float) : Bool :=
  x.toBits >>> 63 != 0

namespace Binary

def ofFloat (x : Float) : Binary :=
  let exponent := ((x.toBits >>> 52) &&& 0x7FF).toNat
  let fraction := (x.toBits &&& 0xFFFFFFFFFFFFF).toNat
  if exponent = 0 then ⟨fraction, -1074, false⟩
  else ⟨(1 <<< 52) + fraction, exponent - 1075, fraction = 0 ∧ 1 < exponent⟩

def floorAt (x : Binary) (e : Int) : Nat :=
  ((x.mantissa <<< x.power.toNat) * Nat.pow 10 (-e).toNat) / (Nat.pow 10 e.toNat <<< (-x.power).toNat)

/-- Compares `units` quarters of the last place of `x` with the decimal `digits * 10 ^ e`. -/
def compareQuarters (x : Binary) (units : Nat) (digits : Nat) (e : Int) : Ordering :=
  let power := x.power - 2
  compare ((units <<< power.toNat) * Nat.pow 10 (-e).toNat)
    ((digits * Nat.pow 10 e.toNat) <<< (-power).toNat)

/-- The number of digits before the decimal point of a positive number; zero or negative if it
starts after the point. Every positive float is above `10 ^ (-342)`. -/
def pointPlace (x : Binary) : Int :=
  (Nat.toDigits 10 (x.floorAt (-342))).length - 342

def isWhole (x : Binary) : Bool :=
  (x.mantissa <<< x.power.toNat) % (1 <<< (-x.power).toNat) = 0

end Binary

/-- The float nearest to the remainder of `a` by `b`, which has the sign of `a`. The remainder of two
floats is a float itself, so nothing is lost. -/
def remainder (a b : Float) : Float :=
  if a.isNaN || b.isNaN || a.isInf || b == 0.0 then 0.0 / 0.0
  else if b.isInf then a
  else
    let x := Binary.ofFloat a
    let y := Binary.ofFloat b
    let power := min x.power y.power
    let rest := (x.mantissa <<< (x.power - power).toNat) % (y.mantissa <<< (y.power - power).toNat)
    let magnitude := (Float.ofNat rest).scaleB power
    if isNegative a then -magnitude else magnitude

end Scriptlet.Decimal
