import FlowScript.Calendar

/-!
# Document values

A document is a tree of scalars, lists and mappings. A mapping keeps its entries in the order in
which they were written, and its keys may be any scalar. `1`, `1.0` and `true` are the same key. A NaN
is the same key only as itself, and so floats carry the place they come from.

A document may contain itself. Such a collection is given twice: as it is shown, with a mark where it
would start again, and as it is gone through, unrolled to more levels than any walk enters.
-/
namespace FlowScript

inductive Value where
  | null
  | bool (b : Bool)
  | int (n : Int)
  /-- The origin of a NaN tells it from others; without one it is different from all. -/
  | float (x : Float) (origin : Option Nat := none)
  | text (s : String)
  | date (d : Calendar.Date)
  | timestamp (t : Calendar.Timestamp)
  | bytes (data : List UInt8)
  | list (items : List Value)
  | tuple (items : List Value)
  | set (items : List Value)
  | map (entries : List (Value × Value))
  /-- A list or mapping that has no end: as it is shown, and as it is gone through. -/
  | endless (outline content : Value)
  /-- The place where a list or mapping that has no end starts again. -/
  | again (mapping : Bool)
deriving Inhabited

/-- The entries of a mapping. -/
abbrev Fields := List (Value × Value)

namespace Value

/-- How many collections inside one another are gone through where nothing else sets a limit. -/
def maxNesting : Nat := 489

def isNull : Value → Bool
  | .null => true
  | _ => false

def text? : Value → Option String
  | .text s => some s
  | _ => none

def fields? : Value → Option Fields
  | .map es => some es
  | .endless _ (.map es) => some es
  | _ => none

def items? : Value → Option (List Value)
  | .list vs => some vs
  | .endless _ (.list vs) => some vs
  | _ => none

/-- The items of a list; any other value has none. -/
def items (v : Value) : List Value := v.items?.getD []

def isAgain : Value → Bool
  | .again _ => true
  | _ => false

def isMap (v : Value) : Bool := v.fields?.isSome

def isList (v : Value) : Bool := v.items?.isSome

def isText (v : Value) : Bool := v.text?.isSome

/-- Integers and floats; the truth values are no numbers. -/
def isNumber : Value → Bool
  | .int _ => true
  | .float .. => true
  | _ => false

/-- Whether a value is the given text. -/
def isTextOf (v : Value) (s : String) : Bool := v.text? == some s

/-- Empty and zero values count as absent where an author leaves a choice open. -/
def isFilled : Value → Bool
  | .null => false
  | .bool b => b
  | .int n => n != 0
  | .float x _ => x != 0
  | .text s => s != ""
  | .date _ => true
  | .timestamp _ => true
  | .bytes data => !data.isEmpty
  | .list vs => !vs.isEmpty
  | .tuple vs => !vs.isEmpty
  | .set vs => !vs.isEmpty
  | .map es => !es.isEmpty
  | .endless .. => true
  | .again _ => true

/-- A collection whose contents may change cannot be looked up in a table. -/
def isHashable : Value → Bool
  | .list _ => false
  | .set _ => false
  | .map _ => false
  | .endless .. => false
  | .again _ => false
  | _ => true

def orElse (v : Value) (other : Value) : Value := if v.isFilled then v else other

/-- The value as an integer, when it is one or a truth value. -/
def whole? : Value → Option Int
  | .bool b => some (if b then 1 else 0)
  | .int n => some n
  | _ => none

/-- Whether two scalars are the same key of a mapping. -/
def sameKey : Value → Value → Bool
  | .null, .null => true
  | .text a, .text b => a == b
  | .date a, .date b => a == b
  | .timestamp a, .timestamp b => a.same b
  | .bytes a, .bytes b => a == b
  | .float a i, .float b j => a == b || (a.isNaN && b.isNaN && i.isSome && i == j)
  | .float a _, b => b.whole?.any fun n => Number.compareInt? a n == some .eq
  | a, .float b _ => a.whole?.any fun n => Number.compareInt? b n == some .eq
  | a, b =>
    match a.whole?, b.whole? with
    | some m, some n => m == n
    | _, _ => false

end Value

namespace Fields

/-- The value under a text key. -/
def get? : Fields → String → Option Value
  | [], _ => none
  | (key, v) :: rest, name => if key.isTextOf name then some v else get? rest name

/-- The value under a text key, or null. -/
def get (es : Fields) (name : String) : Value := (es.get? name).getD .null

def has (es : Fields) (name : String) : Bool := (es.get? name).isSome

/-- Writes an entry: a key that is present keeps its place and takes the new value. -/
def insert : Fields → Value → Value → Fields
  | [], key, v => [(key, v)]
  | (k, old) :: rest, key, v =>
    if k.sameKey key then (k, v) :: rest else (k, old) :: insert rest key v

/-- Writes entries one after the other. -/
def insertAll (es : Fields) (more : Fields) : Fields :=
  more.foldl (fun acc e => insert acc e.1 e.2) es

def ofEntries (es : Fields) : Fields := insertAll [] es

/-- The entries whose keys are none of the given names. -/
def without (es : Fields) (names : List String) : Fields :=
  es.filter fun e => !names.any e.1.isTextOf

/-- The first of the named values that is not null. -/
def firstOf? (es : Fields) : List String → Option Value
  | [] => none
  | name :: names => if (es.get name).isNull then firstOf? es names else some (es.get name)

def firstOf (es : Fields) (names : List String) : Value := (es.firstOf? names).getD .null

end Fields

namespace Value

/-- The value under a text key; null if it is absent or this is no mapping. -/
def field (v : Value) (name : String) : Value :=
  match v.fields? with
  | some es => es.get name
  | none => .null

/-- The first of the named values that is not null; null if this is no mapping. -/
def firstOf (v : Value) (names : List String) : Value :=
  match v.fields? with
  | some es => es.firstOf names
  | none => .null

end Value

end FlowScript
