import FlowScript.Number.Reading
import FlowScript.Text.Blank
import FlowScript.Value.Basic

/-!
# Records from values

A record is decoded field by field, and all violations are reported, in the order of the fields.
Numbers and truth values may be spelled as text; texts must be texts.
-/
namespace FlowScript.Execution

/-- A step of the way to a violation. -/
inductive Place where
  | field (name : String)
  | index (i : Nat)
deriving Repr, DecidableEq

inductive Cause where
  | missing
  | textExpected
  | integerExpected
  | notAnInteger
  | integerTooLong
  | fractional
  | notFinite
  | truthExpected
  | notATruth
  | listExpected
  | recordExpected
  | notAboveZero
deriving Repr, DecidableEq

def Cause.name : Cause → String
  | .missing => "missing"
  | .textExpected => "string_type"
  | .integerExpected => "int_type"
  | .notAnInteger => "int_parsing"
  | .integerTooLong => "int_parsing_size"
  | .fractional => "int_from_float"
  | .notFinite => "finite_number"
  | .truthExpected => "bool_type"
  | .notATruth => "bool_parsing"
  | .listExpected => "list_type"
  | .recordExpected => "model_type"
  | .notAboveZero => "greater_than"

structure Violation where
  place : List Place
  cause : Cause
deriving Repr, DecidableEq

abbrev Decoded := Except (List Violation)

namespace Decoded

def fail {α : Type} (cause : Cause) : Decoded α := .error [⟨[], cause⟩]

/-- Violations inside a part of a record. -/
def within {α : Type} (place : Place) : Decoded α → Decoded α
  | .ok a => .ok a
  | .error vs => .error (vs.map fun v => { v with place := place :: v.place })

/-- Applies a function to an argument; the violations of both are kept. -/
def ap {α β : Type} (f : Decoded (α → β)) (a : Decoded α) : Decoded β :=
  match f, a with
  | .ok f, .ok a => .ok (f a)
  | .error vs, .ok _ => .error vs
  | .ok _, .error ws => .error ws
  | .error vs, .error ws => .error (vs ++ ws)

/-- A field that has to be there. -/
def required {α : Type} (decode : Value → Decoded α) (es : Fields) (name : String) : Decoded α :=
  within (.field name) ((es.get? name).elim (fail .missing) decode)

/-- A field with a default. -/
def optional {α : Type} (decode : Value → Decoded α) (default : α) (es : Fields) (name : String) :
    Decoded α :=
  within (.field name) ((es.get? name).elim (.ok default) decode)

/-- A value that may be null. -/
def nullable {α : Type} (decode : Value → Decoded α) (v : Value) : Decoded (Option α) :=
  if v.isNull then .ok none else (decode v).map some

def text : Value → Decoded String
  | .text s => .ok s
  | _ => fail .textExpected

/-- The whole part of a decimal whose places are all zero. -/
def wholePart (cs : List Char) : List Char :=
  let whole := cs.takeWhile (· != '.')
  match cs.drop whole.length with
  | '.' :: places => if places.all (· == '0') then whole else cs
  | _ => cs

def integerOfText (s : String) : Decoded Int :=
  let cs := Text.trim s.toList
  if Number.maxDigits < cs.length then fail .integerTooLong
  else if cs.all fun c => c.toNat < 128 then
    match Number.readInt? (wholePart cs) with
    | some n => .ok n
    | none => fail .notAnInteger
  else fail .notAnInteger

/-- Floats are taken for integers only within this distance from zero. -/
def floatReach : Int := 0x8000000000000000

/-- The integer that a float is. -/
def integerOfFloat (x : Float) : Decoded Int :=
  match Number.decode x with
  | .finite exact =>
    let n := exact.truncate
    if Number.compareInt? x n != some .eq then fail .fractional
    else if -floatReach < n && n < floatReach then .ok n
    else fail .integerTooLong
  | _ => fail .notFinite

def integer : Value → Decoded Int
  | .int n => .ok n
  | .bool b => .ok (if b then 1 else 0)
  | .float x _ => integerOfFloat x
  | .text s => integerOfText s
  | _ => fail .integerExpected

/-- An integer above zero. -/
def positive (v : Value) : Decoded Int := do
  let n ← integer v
  if 0 < n then return n else fail .notAboveZero

def trueWords : List String := ["1", "on", "t", "true", "y", "yes"]

def falseWords : List String := ["0", "off", "f", "false", "n", "no"]

def truthOfInt (n : Int) : Decoded Bool :=
  if n == 0 then .ok false else if n == 1 then .ok true else fail .notATruth

def truth : Value → Decoded Bool
  | .bool b => .ok b
  | .int n => truthOfInt n
  | .float x _ =>
    match integerOfFloat x with
    | .ok n => truthOfInt n
    | .error _ => fail .truthExpected
  | .text s =>
    let word := String.ofList (s.toList.map Char.toLower)
    if trueWords.contains word then .ok true
    else if falseWords.contains word then .ok false
    else fail .notATruth
  | _ => fail .truthExpected

/-- The items of a list from a position on. -/
def itemsFrom {α : Type} (decode : Value → Decoded α) (i : Nat) : List Value → Decoded (List α)
  | [] => .ok []
  | v :: vs => ap ((within (.index i) (decode v)).map List.cons) (itemsFrom decode (i + 1) vs)

def list {α : Type} (decode : Value → Decoded α) : Value → Decoded (List α)
  | .list vs => itemsFrom decode 0 vs
  | _ => fail .listExpected

def record {α : Type} (decode : Fields → Decoded α) (v : Value) : Decoded α :=
  match v.fields? with
  | some es => decode es
  | none => fail .recordExpected

end Decoded

end FlowScript.Execution
