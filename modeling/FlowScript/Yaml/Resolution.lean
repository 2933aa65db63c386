import FlowScript.Calendar
import FlowScript.Identifier
import FlowScript.Number.Reading

/-!
# Tags from text

A plain scalar gets its tag from its text: truth values, numbers with underscores and in four bases,
base sixty numbers, dates and times, null, and text for all else. A line feed at the end of the text
is not looked at.
-/
namespace FlowScript.Yaml

namespace Tags

def standard (name : String) : String := "tag:yaml.org,2002:" ++ name

def null : String := standard "null"
def bool : String := standard "bool"
def int : String := standard "int"
def float : String := standard "float"
def binary : String := standard "binary"
def timestamp : String := standard "timestamp"
def text : String := standard "str"
def list : String := standard "seq"
def map : String := standard "map"
def set : String := standard "set"
def orderedMap : String := standard "omap"
def pairs : String := standard "pairs"
def merge : String := standard "merge"
def value : String := standard "value"
def reserved : String := standard "yaml"

end Tags

/-! ## Numbers -/

def isDigitOrMark (c : Char) : Bool := c.isDigit || c == '_'

def isSixtyDigits : List Char → Bool
  | [d] => d.isDigit
  | [d, e] => '0' ≤ d && d ≤ '5' && e.isDigit
  | _ => false

/-- The parts between colons. -/
def splitColons : List Char → List (List Char)
  | [] => [[]]
  | c :: cs =>
    if c == ':' then [] :: splitColons cs
    else
      match splitColons cs with
      | part :: parts => (c :: part) :: parts
      | [] => [[c]]

/-- A signed exponent, or nothing. -/
def isExponent : List Char → Bool
  | [] => true
  | e :: s :: ds =>
    (e == 'e' || e == 'E') && (s == '-' || s == '+') && !ds.isEmpty && ds.all Char.isDigit
  | _ => false

/-- Digits, and groups in base sixty behind them. -/
def isSixtyGroups (whole : List Char) (groups : List (List Char)) : Bool :=
  (whole.head?.any Char.isDigit) && whole.all isDigitOrMark && !groups.isEmpty &&
    groups.all isSixtyDigits

def isDecimal (cs : List Char) : Bool :=
  (cs.head?.any Char.isDigit) &&
    match cs.dropWhile isDigitOrMark with
    | '.' :: fraction => isExponent (fraction.dropWhile isDigitOrMark)
    | _ => false

/-- A number in base sixty with a decimal fraction. -/
def isSixtyDecimal (cs : List Char) : Bool :=
  let whole := cs.takeWhile (· != '.')
  match cs.drop whole.length, splitColons whole with
  | '.' :: fraction, first :: groups => fraction.all isDigitOrMark && isSixtyGroups first groups
  | _, _ => false

def isFloat (cs : List Char) : Bool :=
  let unsigned := (Number.readSign cs).rest
  isDecimal unsigned || isSixtyDecimal unsigned ||
    [".inf", ".Inf", ".INF"].any (·.toList == unsigned) ||
    [".nan", ".NaN", ".NAN"].any (·.toList == cs) ||
    match cs with
    | '.' :: d :: more => d.isDigit && isExponent (more.dropWhile isDigitOrMark)
    | _ => false

def isInt (cs : List Char) : Bool :=
  let unsigned := (Number.readSign cs).rest
  match unsigned with
  | [] => false
  | ['0'] => true
  | '0' :: 'b' :: ds => !ds.isEmpty && ds.all fun c => c == '0' || c == '1' || c == '_'
  | '0' :: 'x' :: ds => !ds.isEmpty && ds.all fun c =>
      c.isDigit || c == '_' || ('a' ≤ c && c ≤ 'f') || ('A' ≤ c && c ≤ 'F')
  | '0' :: ds => ds.all fun c => ('0' ≤ c && c ≤ '7') || c == '_'
  | _ =>
    (unsigned.head?.any Char.isDigit) &&
      (unsigned.all isDigitOrMark ||
        match splitColons unsigned with
        | first :: groups => isSixtyGroups first groups
        | [] => false)

/-! ## Dates and times -/

/-- The written parts of a date, and of a time on it. -/
structure WrittenTime where
  year : List Char
  month : List Char
  day : List Char
  clock : Option (List Char × List Char × List Char) := none
  fraction : List Char := []
  zulu : Bool := false
  zone : Option (Char × List Char × List Char) := none

structure Piece where
  digits : List Char
  rest : List Char

/-- At least one and at most so many digits. -/
def digitsUpTo (most : Nat) (cs : List Char) : Option Piece :=
  let ds := (cs.take most).takeWhile Char.isDigit
  if ds.isEmpty then none else some ⟨ds, cs.drop ds.length⟩

def exactDigits (count : Nat) (cs : List Char) : Option Piece := do
  let piece ← digitsUpTo count cs
  if piece.digits.length == count then return piece else none

def expectChar (c : Char) : List Char → Option (List Char)
  | [] => none
  | d :: rest => if c == d then some rest else none

/-- The offset at the end of a time. -/
def readZone (t : WrittenTime) (cs : List Char) : Option WrittenTime :=
  if cs.isEmpty then some t
  else
    match cs.dropWhile fun c => c == ' ' || c == '\t' with
    | ['Z'] => some { t with zulu := true }
    | s :: more =>
      if s == '+' || s == '-' then do
        let hours ← digitsUpTo 2 more
        if hours.rest.isEmpty then return { t with zone := some (s, hours.digits, []) }
        let minutes ← exactDigits 2 (← expectChar ':' hours.rest)
        if minutes.rest.isEmpty then return { t with zone := some (s, hours.digits, minutes.digits) }
        else none
      else none
    | [] => none

/-- The part behind a date. -/
def readClock (t : WrittenTime) (cs : List Char) : Option WrittenTime := do
  let hour ← digitsUpTo 2 cs
  let minute ← exactDigits 2 (← expectChar ':' hour.rest)
  let second ← exactDigits 2 (← expectChar ':' minute.rest)
  let timed := { t with clock := some (hour.digits, minute.digits, second.digits) }
  match second.rest with
  | '.' :: more =>
    let fraction := more.takeWhile Char.isDigit
    readZone { timed with fraction } (more.drop fraction.length)
  | rest => readZone timed rest

/-- A date with months and days of one or two digits, with or without a time. -/
def readTime (cs : List Char) : Option WrittenTime := do
  let year ← exactDigits 4 cs
  let month ← digitsUpTo 2 (← expectChar '-' year.rest)
  let day ← digitsUpTo 2 (← expectChar '-' month.rest)
  let date : WrittenTime := { year := year.digits, month := month.digits, day := day.digits }
  match day.rest with
  | [] => return date
  | c :: more =>
    if c == 'T' || c == 't' then readClock date more
    else if c == ' ' || c == '\t' then
      readClock date (more.dropWhile fun d => d == ' ' || d == '\t')
    else none

/-- A plain date is written in full; in front of a time short months and days are allowed. -/
def isTimestamp (cs : List Char) : Bool :=
  (readTime cs).any fun t => t.clock.isSome || (t.month.length == 2 && t.day.length == 2)

/-! ## The tag -/

def truthWords : List String := [
  "yes", "Yes", "YES", "no", "No", "NO", "true", "True", "TRUE", "false", "False", "FALSE",
  "on", "On", "ON", "off", "Off", "OFF"]

def nullWords : List String := ["~", "null", "Null", "NULL"]

/-- A text without the line feed at its end. -/
def chomp (cs : List Char) : List Char :=
  if cs.getLast? == some '\n' then cs.dropLast else cs

/-- The tag of a plain scalar. -/
def Tags.resolve (written : List Char) : String :=
  let cs := chomp written
  let s := String.ofList cs
  if written.isEmpty || nullWords.contains s then Tags.null
  else if truthWords.contains s then Tags.bool
  else if isFloat cs then Tags.float
  else if isInt cs then Tags.int
  else if isTimestamp cs then Tags.timestamp
  else if s == "<<" then Tags.merge
  else if s == "=" then Tags.value
  else if s == "!" || s == "&" || s == "*" then Tags.reserved
  else Tags.text

end FlowScript.Yaml
