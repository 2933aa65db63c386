import FlowScript.Number.Notation

/-!
# Dates and times

Calendar dates, and times of day on them to the microsecond, with or without a fixed offset from
universal time.
-/
namespace FlowScript.Calendar

structure Date where
  year : Nat
  month : Nat
  day : Nat
deriving Repr, DecidableEq

structure Timestamp where
  date : Date
  hour : Nat
  minute : Nat
  second : Nat
  microsecond : Nat
  /-- Minutes east of universal time. -/
  offset : Option Int
deriving Repr, DecidableEq

def isLeap (year : Nat) : Bool :=
  year % 4 == 0 && (year % 100 != 0 || year % 400 == 0)

def monthLength (year month : Nat) : Nat :=
  if month == 2 then if isLeap year then 29 else 28
  else if month == 4 || month == 6 || month == 9 || month == 11 then 30
  else 31

def Date.exists (d : Date) : Bool :=
  1 ≤ d.year && d.year ≤ 9999 && 1 ≤ d.month && d.month ≤ 12 &&
    1 ≤ d.day && d.day ≤ monthLength d.year d.month

def Timestamp.exists (t : Timestamp) : Bool :=
  t.date.exists && t.hour < 24 && t.minute < 60 && t.second < 60 &&
    (t.offset.all fun o => -1440 < o && o < 1440)

/-- Days before the given date in the calendar that is continued to the year one. -/
def Date.ordinal (d : Date) : Nat :=
  let before := d.year - 1
  let years := before * 365 + before / 4 - before / 100 + before / 400
  let months := (List.range (d.month - 1)).foldl (fun n m => n + monthLength d.year (m + 1)) 0
  years + months + d.day

/-- Microseconds on the local clock, taken back to universal time by the offset. -/
def Timestamp.instant (t : Timestamp) : Int :=
  let minutes : Int := (t.date.ordinal * 24 + t.hour) * 60 + t.minute
  let seconds : Int := (minutes - t.offset.getD 0) * 60 + t.second
  seconds * 1000000 + t.microsecond

/-- Two timestamps with offsets agree when they are the same instant; one with and one without an
offset never agree. -/
def Timestamp.same (a b : Timestamp) : Bool :=
  a.offset.isSome == b.offset.isSome && a.instant == b.instant

def padded (width n : Nat) : String :=
  let ds := Number.digits n
  String.ofList (List.replicate (width - ds.length) '0' ++ ds)

def Date.text (d : Date) : String :=
  padded 4 d.year ++ "-" ++ padded 2 d.month ++ "-" ++ padded 2 d.day

def offsetText (o : Int) : String :=
  (if o < 0 then "-" else "+") ++ padded 2 (o.natAbs / 60) ++ ":" ++ padded 2 (o.natAbs % 60)

def Timestamp.text (t : Timestamp) : String :=
  t.date.text ++ " " ++ padded 2 t.hour ++ ":" ++ padded 2 t.minute ++ ":" ++ padded 2 t.second ++
    (if t.microsecond == 0 then "" else "." ++ padded 6 t.microsecond) ++
    (t.offset.elim "" offsetText)

/-- The expression that builds a date in a generated program. -/
def Date.code (d : Date) : String :=
  "datetime.date(" ++ Number.natText d.year ++ ", " ++ Number.natText d.month ++ ", " ++ Number.natText d.day ++ ")"

/-- The expression that builds an offset: days are rounded down and the seconds make up the rest. -/
def offsetCode (o : Int) : String :=
  if o == 0 then "datetime.timezone.utc"
  else
    let days := if o < 0 then "days=-1, " else ""
    let seconds := (if o < 0 then o + 1440 else o) * 60
    "datetime.timezone(datetime.timedelta(" ++ days ++ "seconds=" ++ Number.intText seconds ++ "))"

def Timestamp.code (t : Timestamp) : String :=
  let fields := [t.date.year, t.date.month, t.date.day, t.hour, t.minute] ++
    (if t.microsecond == 0 then if t.second == 0 then [] else [t.second]
     else [t.second, t.microsecond])
  "datetime.datetime(" ++ String.intercalate ", " (fields.map Number.natText) ++
    (t.offset.elim "" fun o => ", tzinfo=" ++ offsetCode o) ++ ")"

end FlowScript.Calendar
