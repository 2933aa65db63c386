import FlowScript.Number.Exact

/-!
# The shortest decimal that reads back

Among the decimals that round to a given double the shortest is chosen, and of several shortest
ones the nearest. All comparisons are between natural numbers.
-/
namespace FlowScript.Number

/-- The decimal `coefficient * 10 ^ exponent`. -/
structure Decimal where
  coefficient : Nat
  exponent : Int
deriving Repr, DecidableEq

namespace Exact

/-- Compares `a * 10 ^ i` with `n * 2 ^ j`. -/
def compareScaled (a : Nat) (i : Int) (n : Nat) (j : Int) : Ordering :=
  compare (a * Nat.pow 10 i.toNat * Nat.pow 2 (-j).toNat)
    (n * Nat.pow 2 j.toNat * Nat.pow 10 (-i).toNat)

/-- Whether a decimal lies among the reals that round to the absolute value: between the midpoints
to the two neighbours, the midpoints themselves belonging to the even mantissa. -/
def readsBack (v : Exact) (d : Decimal) : Bool :=
  let gapHalved := v.mantissa == Nat.pow 2 52 && v.exponent > -1074
  let low := if gapHalved then 4 * v.mantissa - 1 else 4 * v.mantissa - 2
  let high := 4 * v.mantissa + 2
  let fromLow := compareScaled d.coefficient d.exponent low (v.exponent - 2)
  let fromHigh := compareScaled d.coefficient d.exponent high (v.exponent - 2)
  if v.mantissa % 2 == 0 then fromLow != .lt && fromHigh != .gt
  else fromLow == .gt && fromHigh == .lt

/-- The least `k` for which a positive value is below `10 ^ k`. -/
def magnitude (v : Exact) : Int :=
  let binary : Int := v.mantissa.log2 + v.exponent
  let estimate := (binary * 30103).fdiv 100000 - 1
  let candidates := [estimate, estimate + 1, estimate + 2, estimate + 3]
  (candidates.find? fun k => compareScaled 1 k v.mantissa v.exponent == .gt).getD (estimate + 4)

/-- The decimal below the value on the grid of multiples of `10 ^ exponent`. -/
def gridFloor (v : Exact) (exponent : Int) : Nat :=
  v.numerator * Nat.pow 10 (-exponent).toNat / (v.denominator * Nat.pow 10 exponent.toNat)

/-- The nearest of the two grid neighbours that read back; an exact tie goes to the even
coefficient. -/
def onGrid? (v : Exact) (exponent : Int) : Option Decimal :=
  let below := v.gridFloor exponent
  let lower : Decimal := ⟨below, exponent⟩
  let upper : Decimal := ⟨below + 1, exponent⟩
  match v.readsBack lower, v.readsBack upper with
  | true, true =>
    match compareScaled (2 * below + 1) exponent (2 * v.mantissa) v.exponent with
    | .lt => some upper
    | .gt => some lower
    | .eq => some (if below % 2 == 0 then lower else upper)
  | true, false => some lower
  | false, true => some upper
  | false, false => none

/-- The shortest decimal of a positive value. Seventeen digits always suffice for a double. -/
def shortest (v : Exact) : Decimal :=
  let k := v.magnitude
  ((List.range 17).findSome? fun (n : Nat) => v.onGrid? (k - (n + 1))).getD ⟨v.gridFloor (k - 17), k - 17⟩

end Exact

/-- The digits of a natural number in base ten, most significant first. -/
def digits (n : Nat) : List Char := Nat.toDigits 10 n

/-- Moves the zeros at the end of a digit list out of it and counts them. -/
def dropZeros (ds : List Char) : List Char × Nat :=
  let kept := (ds.reverse.dropWhile (· == '0')).reverse
  (kept, ds.length - kept.length)

end FlowScript.Number
