import FlowScript.Number.Shortest

/-!
# The text of a double

A finite double is written with its shortest digits: positionally, and always with a fraction, while
its decimal exponent lies between -4 and 15, otherwise as a coefficient and a signed exponent of at
least two digits.
-/
namespace FlowScript.Number

/-- Where positional notation ends, and how the special values are spelled. -/
structure Style where
  leastPositional : Int
  mostPositional : Int
  notANumber : String
  infinity : String

/-- The style of numbers in program text. -/
def Style.program : Style := ⟨-4, 15, "nan", "inf"⟩

/-- The style of numbers in JSON text. -/
def Style.json : Style := ⟨-4, 15, "NaN", "Infinity"⟩

def exponentText (e : Int) : String :=
  let ds := digits e.natAbs
  (if e < 0 then "-" else "+") ++ String.ofList (if ds.length < 2 then '0' :: ds else ds)

/-- Lays out the significant digits of a value whose first digit has weight `10 ^ lead`. -/
def layout (style : Style) (ds : List Char) (lead : Int) : String :=
  if style.leastPositional ≤ lead && lead ≤ style.mostPositional then
    if lead < 0 then
      "0." ++ String.ofList (List.replicate ((-lead).toNat - 1) '0' ++ ds)
    else
      let width := lead.toNat + 1
      let whole := ds.take width ++ List.replicate (width - ds.length) '0'
      let fraction := ds.drop width
      String.ofList whole ++ "." ++ (if fraction.isEmpty then "0" else String.ofList fraction)
  else
    let fraction := ds.drop 1
    String.ofList (ds.take 1) ++ (if fraction.isEmpty then "" else "." ++ String.ofList fraction) ++
      "e" ++ exponentText lead

def Exact.text (style : Style) (v : Exact) : String :=
  let body :=
    if v.mantissa == 0 then "0.0"
    else
      let d := v.shortest
      let all := digits d.coefficient
      layout style (dropZeros all).1 (d.exponent + all.length - 1)
  if v.negative then "-" ++ body else body

def floatText (style : Style) (x : Float) : String :=
  match decode x with
  | .notANumber => style.notANumber
  | .infinite negative => if negative then "-" ++ style.infinity else style.infinity
  | .finite v => v.text style

/-- The most digits of an integer that is read or written in base ten. -/
def maxDigits : Nat := 4300

/-- Whether an integer is short enough to be written. -/
def isWritable (n : Int) : Bool := n.natAbs < Nat.pow 10 maxDigits

def natText (n : Nat) : String := String.ofList (digits n)

def intText (n : Int) : String :=
  (if n < 0 then "-" else "") ++ natText n.natAbs

end FlowScript.Number
