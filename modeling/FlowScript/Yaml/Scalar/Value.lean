import FlowScript.Value.Basic
import FlowScript.Yaml.Failure
import FlowScript.Yaml.Resolution
import FlowScript.Yaml.Scalar.Binary

/-!
# The values of scalars

A tag asks for a kind of value, and the text of a scalar denotes one of that kind or none.
-/
namespace FlowScript.Yaml

/-- What a tag asks for. -/
inductive Meaning where
  | null
  | bool
  | int
  | float
  | binary
  | timestamp
  | text
  | list
  | map
  | set
  | pairs
deriving Repr, DecidableEq

def Meaning.ofTag? (tag : String) : Option Meaning :=
  [(Tags.null, Meaning.null), (Tags.bool, .bool), (Tags.int, .int), (Tags.float, .float),
    (Tags.binary, .binary), (Tags.timestamp, .timestamp), (Tags.text, .text), (Tags.list, .list),
    (Tags.map, .map), (Tags.set, .set), (Tags.orderedMap, .pairs), (Tags.pairs, .pairs)].lookup tag

/-! ## Scalars -/

def truth? (s : String) : Option Bool :=
  [("yes", true), ("no", false), ("true", true), ("false", false), ("on", true), ("off", false)].lookup s

def withoutMarks (s : String) : List Char := s.toList.filter (· != '_')

/-- The digits of a number after its sign; a number cannot be empty. -/
def unsigned (cs : List Char) : Except Failure (List Char) :=
  if cs.isEmpty then .error (.scalar .emptyNumber) else .ok (Number.readSign cs).rest

def wellFormed {α : Type} (read : Option α) : Except Failure α :=
  match read with
  | some a => .ok a
  | none => .error (.scalar .malformedNumber)

/-- Places in base sixty, the first one highest. -/
def ofSixty (parts : List Int) : Int := parts.foldl (fun n d => n * 60 + d) 0

def magnitude (cs : List Char) : Except Failure Int :=
  match cs with
  | [] => .error (.scalar .emptyNumber)
  | ['0'] => .ok 0
  | '0' :: 'b' :: ds => wellFormed (Number.readIntInBase? 2 'b' ds)
  | '0' :: 'x' :: ds => wellFormed (Number.readIntInBase? 16 'x' ds)
  | '0' :: _ => wellFormed (Number.readIntInBase? 8 'o' cs)
  | _ =>
    if cs.contains ':' then do
      return ofSixty (← (splitColons cs).mapM fun part => wellFormed (Number.readInt? part))
    else wellFormed (Number.readInt? cs)

def isNegative (cs : List Char) : Bool := cs.head? == some '-'

def intOf (s : String) : Except Failure Int := do
  let cs := withoutMarks s
  let n ← magnitude (← unsigned cs)
  return if isNegative cs then -n else n

/-- Places in base sixty, the last one first, summed from the place of the given weight on. The weight
is exact, and every place is reached only if its weight is a double. -/
def floatOfSixty (weight : Nat) (sum : Float) : List Float → Except Failure Float
  | [] => .ok sum
  | d :: ds =>
    let factor := Number.nearest false weight 0
    if factor.isFinite then floatOfSixty (weight * 60) (sum + d * factor) ds
    else .error (.scalar .placeTooLarge)

def floatMagnitude (cs : List Char) : Except Failure Float :=
  let word := String.ofList cs
  if word == ".inf" then .ok (1.0 / 0.0)
  else if word == ".nan" then .ok (0.0 / 0.0)
  else if cs.contains ':' then do
    let parts ← (splitColons cs).mapM fun part => wellFormed (Number.readFloat? part)
    floatOfSixty 1 0 parts.reverse
  else wellFormed (Number.readFloat? cs)

/-- Where a NaN comes from: the word for it is the same everywhere, and any other text that denotes one
denotes a NaN of the node with the given number. -/
def originOf (word : List Char) (number : Nat) : Nat :=
  if String.ofList word == ".nan" then 0 else number + 1

def floatOf (number : Nat) (s : String) : Except Failure Value := do
  let cs := (Text.toLower (String.ofList (withoutMarks s))).toList
  let word ← unsigned cs
  let x ← floatMagnitude word
  if x.isNaN then return .float x (some (originOf word number))
  return .float (if isNegative cs then -x else x)

def natOf (cs : List Char) : Nat := ((Number.readInt? cs).getD 0).toNat

/-- The first six places of a fraction. -/
def microseconds (fraction : List Char) : Nat :=
  natOf ((fraction.take 6) ++ List.replicate (6 - (fraction.take 6).length) '0')

def offsetOf (t : WrittenTime) : Option Int :=
  match t.zone with
  | some (sign, hours, minutes) =>
    some (Number.applySign (sign == '-') (natOf hours * 60 + natOf minutes))
  | none => if t.zulu then some 0 else none

/-- The date or time that is written, if the calendar and the clock have it. -/
def timeOf (t : WrittenTime) : Except Failure Value :=
  let date : Calendar.Date := ⟨natOf t.year, natOf t.month, natOf t.day⟩
  match t.clock with
  | none => if date.exists then .ok (.date date) else .error (.scalar .impossibleTime)
  | some (hour, minute, second) =>
    let time : Calendar.Timestamp :=
      ⟨date, natOf hour, natOf minute, natOf second, microseconds t.fraction, offsetOf t⟩
    if time.exists then .ok (.timestamp time) else .error (.scalar .impossibleTime)

def bytesOf (s : String) (mark : Mark) : Except Failure (List UInt8) :=
  match Binary.foreign? s.toList with
  | some f => .error (.atMark (.binaryNotAscii f.message) mark)
  | none =>
    match Binary.decode s.toList with
    | .ok data => .ok data
    | .error d => .error (.atMark (.binaryNotBase64 d.message) mark)

/-- The value that the text of a scalar denotes. A mapping with a default value has a text, but not
where a time is asked for. -/
def scalarValue (meaning : Meaning) (number : Nat) (shape : Shape) (text : String) (start : Mark) :
    Except Failure Value := do
  match meaning with
  | .null => return .null
  | .bool =>
    match truth? (Text.toLower text) with
    | some b => return .bool b
    | none => throw (.scalar .unknownTruth)
  | .int => return .int (← intOf text)
  | .float => floatOf number text
  | .binary => return .bytes (← bytesOf text start)
  | .timestamp =>
    if shape != .scalar then throw (.scalar .timestampNotText)
    match readTime (chomp text.toList) with
    | some t => timeOf t
    | none => throw (.scalar .notATimestamp)
  | _ => return .text text

end FlowScript.Yaml
