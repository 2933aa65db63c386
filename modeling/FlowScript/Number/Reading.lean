import FlowScript.Number.Notation
import FlowScript.Text.Blank
import FlowScript.Text.Digit
import FlowScript.Text.LetterCase

/-!
# Numbers written as text

Integers and decimals as authors may write them: blanks around them, a sign, digits of any script.
-/
namespace FlowScript.Number

/-- The nearest double to `coefficient * 10 ^ exponent`; magnitudes far outside the range of doubles
are decided without computing the power. -/
def nearest (negative : Bool) (coefficient : Nat) (exponent : Int) : Float :=
  let size : Int := (Nat.toDigits 10 coefficient).length
  let magnitude :=
    if coefficient == 0 || size + exponent < -400 then 0.0
    else if size + exponent > 400 then 1.0 / 0.0
    else if exponent < 0 then Float.ofScientific coefficient true exponent.natAbs
    else Float.ofScientific coefficient false exponent.natAbs
  if negative then -magnitude else magnitude

structure Signed where
  negative : Bool
  rest : List Char

def readSign : List Char → Signed
  | '-' :: cs => ⟨true, cs⟩
  | '+' :: cs => ⟨false, cs⟩
  | cs => ⟨false, cs⟩

/-- Digits in which single underscores may stand between two digits. -/
def readDigitGroups : List Char → Option (List Nat)
  | [] => none
  | [c] => (Text.digitValue? c).map ([·])
  | c :: '_' :: cs => do return (← Text.digitValue? c) :: (← readDigitGroups cs)
  | c :: cs => do return (← Text.digitValue? c) :: (← readDigitGroups cs)

def ofDigits (base : Nat) (ds : List Nat) : Nat :=
  ds.foldl (fun n d => n * base + d) 0

def applySign (negative : Bool) (n : Nat) : Int :=
  if negative then -(n : Int) else n

/-- An integer in base ten. -/
def readInt? (cs : List Char) : Option Int := do
  let signed := readSign (Text.trim cs)
  let ds ← readDigitGroups signed.rest
  if ds.length ≤ maxDigits then return applySign signed.negative (ofDigits 10 ds) else none

def letterValue? (c : Char) : Option Nat :=
  if 'a' ≤ c && c ≤ 'z' then some (c.toNat - 'a'.toNat + 10)
  else if 'A' ≤ c && c ≤ 'Z' then some (c.toNat - 'A'.toNat + 10)
  else Text.digitValue? c

def readBaseDigits (base : Nat) : List Char → Option (List Nat)
  | [] => some []
  | c :: cs => do
    let d ← letterValue? c
    if d < base then return d :: (← readBaseDigits base cs) else none

/-- An integer in a base other than ten, after an optional repetition of the base's own mark. -/
def readIntInBase? (base : Nat) (mark : Char) (cs : List Char) : Option Int := do
  let signed := readSign (Text.trim cs)
  let body := match signed.rest with
    | '0' :: m :: more => if m.toLower == mark then more else signed.rest
    | other => other
  if body.isEmpty then none
  return applySign signed.negative (ofDigits base (← readBaseDigits base body))

structure Mantissa where
  digits : List Nat
  places : Nat
  rest : List Char

/-- Digits with at most one point among them. -/
def readMantissa (cs : List Char) : Mantissa :=
  let whole := cs.takeWhile Text.isDecimalDigit
  let afterWhole := cs.drop whole.length
  match afterWhole with
  | '.' :: more =>
    let fraction := more.takeWhile Text.isDecimalDigit
    ⟨(whole ++ fraction).filterMap Text.digitValue?, fraction.length, more.drop fraction.length⟩
  | other => ⟨whole.filterMap Text.digitValue?, 0, other⟩

def readExponent? : List Char → Option Int
  | [] => some 0
  | e :: cs =>
    if e == 'e' || e == 'E' then
      let signed := readSign cs
      if signed.rest.isEmpty then none
      else if signed.rest.all Text.isDecimalDigit then
        some (applySign signed.negative (ofDigits 10 (signed.rest.filterMap Text.digitValue?)))
      else none
    else none

/-- A decimal number, an infinity or a NaN. -/
def readFloat? (cs : List Char) : Option Float :=
  let signed := readSign (Text.trim cs)
  let word := String.ofList (signed.rest.map Char.toLower)
  if word == "inf" || word == "infinity" then
    some (if signed.negative then -(1.0 / 0.0) else 1.0 / 0.0)
  else if word == "nan" then some (0.0 / 0.0)
  else
    let mantissa := readMantissa signed.rest
    if mantissa.digits.isEmpty then none
    else
      (readExponent? mantissa.rest).map fun e =>
        nearest signed.negative (ofDigits 10 mantissa.digits) (e - mantissa.places)

end FlowScript.Number
