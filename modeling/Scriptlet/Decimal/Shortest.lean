import Scriptlet.Decimal.Binary

/-!
# The shortest decimal that reads back

Among the decimals that round to a given float, those with the fewest digits are sought, and of these
the one nearest to the float. `Binary.readsBack` says which decimals round to the float; the search
tries the two neighbours of the float on ever finer decimal grids.
-/

namespace Scriptlet

structure Decimal where
  digits : Nat
  exponent : Int
deriving DecidableEq, Repr

namespace Decimal

inductive Tie where
  | up
  | toEven
deriving DecidableEq, Repr

namespace Binary

/-- Whether `d` rounds to `x`: it lies between the midpoints to the neighbours of `x`, and a midpoint
itself goes to the float with the even mantissa. -/
def readsBack (x : Binary) (d : Decimal) : Bool :=
  let low := x.compareQuarters (4 * x.mantissa - if x.narrow then 1 else 2) d.digits d.exponent
  let high := x.compareQuarters (4 * x.mantissa + 2) d.digits d.exponent
  let even := x.mantissa % 2 = 0
  (low = .lt ∨ (even ∧ low = .eq)) ∧ (high = .gt ∨ (even ∧ high = .eq))

/-- Of the two neighbours `n` and `n + 1` of `x` on the grid `10 ^ e`, the one that reads back and is
nearer. -/
def nearestOnGrid? (tie : Tie) (x : Binary) (e : Int) : Option Decimal :=
  let n := x.floorAt e
  let below : Decimal := ⟨n, e⟩
  let above : Decimal := ⟨n + 1, e⟩
  match x.readsBack below, x.readsBack above with
  | false, false => none
  | true, false => some below
  | false, true => some above
  | true, true =>
    -- twice `x` against the sum of the two neighbours
    match x.compareQuarters (8 * x.mantissa) (2 * n + 1) e with
    | .lt => some below
    | .gt => some above
    | .eq => if tie = .toEven ∧ n % 2 = 0 then some below else some above

end Binary

def strip (d : Decimal) : Nat → Decimal
  | 0 => d
  | n + 1 =>
    if d.digits ≠ 0 ∧ d.digits % 10 = 0 then strip ⟨d.digits / 10, d.exponent + 1⟩ n else d

/-- The shortest decimal that reads back as the positive number `x`. Seventeen digits always do. -/
def shortest (tie : Tie) (x : Binary) : Decimal :=
  let place := x.pointPlace
  let found := (List.range 17).findSome? fun (n : Nat) => x.nearestOnGrid? tie (place - 1 - n)
  (found.getD ⟨x.floorAt (place - 17), place - 17⟩).strip 17

end Decimal

end Scriptlet
