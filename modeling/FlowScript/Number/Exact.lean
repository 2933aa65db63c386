/-!
# Exact values of doubles

A finite double is an integer times a power of two. Comparison with integers, truncation and the
choice of decimal digits all work on that exact form.
-/
namespace FlowScript.Number

/-- The value `mantissa * 2 ^ exponent`, negated if `negative`. -/
structure Exact where
  negative : Bool
  mantissa : Nat
  exponent : Int
deriving Repr, DecidableEq

inductive Decoded where
  | notANumber
  | infinite (negative : Bool)
  | finite (value : Exact)
deriving Repr, DecidableEq

def decode (x : Float) : Decoded :=
  let bits := x.toBits
  let negative := bits >>> 63 == 1
  let field := ((bits >>> 52) &&& 0x7FF).toNat
  let fraction := (bits &&& 0xFFFFFFFFFFFFF).toNat
  if field == 0x7FF then
    if fraction == 0 then .infinite negative else .notANumber
  else if field == 0 then .finite ⟨negative, fraction, -1074⟩
  else .finite ⟨negative, Nat.pow 2 52 + fraction, (field : Int) - 1075⟩

namespace Exact

/-- Numerator of the absolute value over `denominator`. -/
def numerator (v : Exact) : Nat := v.mantissa * Nat.pow 2 v.exponent.toNat

def denominator (v : Exact) : Nat := Nat.pow 2 (-v.exponent).toNat

def signed (v : Exact) : Int := if v.negative then -(v.numerator : Int) else v.numerator

/-- The integer part, rounded toward zero. -/
def truncate (v : Exact) : Int := v.signed.tdiv v.denominator

/-- The integer part, rounded down. -/
def floor (v : Exact) : Int := v.signed.fdiv v.denominator

/-- The integer part, rounded up. -/
def ceiling (v : Exact) : Int := -(-v.signed).fdiv v.denominator

def compareInt (v : Exact) (n : Int) : Ordering :=
  compare v.signed (n * v.denominator)

end Exact

/-- The order of a double and an integer; nothing is comparable with a NaN. -/
def compareInt? (x : Float) (n : Int) : Option Ordering :=
  match decode x with
  | .notANumber => none
  | .infinite negative => some (if negative then .lt else .gt)
  | .finite v => some (v.compareInt n)

end FlowScript.Number
