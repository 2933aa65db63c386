import FlowScript.Yaml.Character
import FlowScript.Yaml.Failure

/-!
# Reading a text from left to right

A cursor is what remains of the text together with the place it starts at. A scan moves the cursor
or fails at a place.
-/
namespace FlowScript.Yaml

/-- The place behind a character, which depends on the next one: a line feed belongs to the carriage
return before it. A byte order mark has no width. -/
def Mark.past (m : Mark) (c : Char) (next : Option Char) : Mark :=
  if isBreak c && !(c == '\r' && next == some '\n') then ⟨m.index + 1, m.line + 1, 0⟩
  else if c == '\uFEFF' then { m with index := m.index + 1 }
  else { m with index := m.index + 1, column := m.column + 1 }

structure Cursor where
  rest : List Char
  mark : Mark := {}
  /-- The length of the whole text, which bounds every loop of a scan. -/
  size : Nat

namespace Cursor

def peekAt (c : Cursor) (k : Nat) : Char := (c.rest[k]?).getD endOfText

def peek (c : Cursor) : Char := c.rest.head?.getD endOfText

def skip (c : Cursor) : Nat → Cursor
  | 0 => c
  | n + 1 =>
    match c.rest with
    | [] => c
    | x :: rest => skip { c with rest, mark := c.mark.past x rest.head? } n

/-- The longest run of characters of a class, and the cursor behind it. -/
def span (c : Cursor) (p : Char → Bool) : List Char × Cursor :=
  let run := c.rest.takeWhile p
  (run, c.skip run.length)

/-- The line break at the cursor. All but two kinds of break are read as a line feed. -/
def lineBreak (c : Cursor) : List Char × Cursor :=
  match c.rest with
  | '\r' :: '\n' :: _ => (['\n'], c.skip 2)
  | x :: _ =>
    if x == '\u2028' || x == '\u2029' then ([x], c.skip 1)
    else if isBreak x then (['\n'], c.skip 1)
    else ([], c)
  | [] => ([], c)

/-- Whether three dashes or points stand here alone. -/
def atSeparator (c : Cursor) : Bool :=
  (c.rest.take 3 == ['-', '-', '-'] || c.rest.take 3 == ['.', '.', '.']) && endsToken (c.peekAt 3)

/-- Skips spaces, comments and line breaks, as many lines as given, and says whether a line ended. -/
def skipLines : Nat → Bool → Cursor → Bool × Cursor
  | 0, broke, c => (broke, c)
  | n + 1, broke, c =>
    let c := (c.span (· == ' ')).2
    let c := if c.peek == '#' then (c.span (!isBreak ·)).2 else c
    if isBreak c.peek then skipLines n true c.lineBreak.2 else (broke, c)

/-- The next place where a token can start. -/
def toNextToken (c : Cursor) : Bool × Cursor :=
  let c := if c.mark.index == 0 && c.peek == '\uFEFF' then c.skip 1 else c
  skipLines (c.size + 1) false c

end Cursor

abbrev Scan := StateT Cursor (Except Failure)

namespace Scan

def peek : Scan Char := return (← get).peek

def peekAt (k : Nat) : Scan Char := return (← get).peekAt k

def skip (n : Nat) : Scan Unit := modify (·.skip n)

def take (p : Char → Bool) : Scan (List Char) := modifyGet (·.span p)

def lineBreak : Scan (List Char) := modifyGet (·.lineBreak)

def mark : Scan Mark := return (← get).mark

/-- More steps than any loop of a scan takes. -/
def budget : Scan Nat := return (← get).size + 1

def fail {α : Type} (problem : Problem) : Scan α := do
  throw (.atMark problem (← mark))

/-- Fails unless the next character is of a class. -/
def expect (p : Char → Bool) (problem : Char → Problem) : Scan Unit := do
  let c ← peek
  if p c then pure () else fail (problem c)

/-- A name of letters, digits, dashes and underscores. -/
def name : Scan (List Char) := do
  let cs ← take isNameChar
  if cs.isEmpty then fail (.expectedName (← peek)) else return cs

/-- What may follow on a line after its content: spaces, a comment and the break. -/
def restOfLine : Scan Unit := do
  let _ ← take (· == ' ')
  if (← peek) == '#' then
    let _ ← take (!isBreak ·)
  expect endsLine .expectedLineEnd
  let _ ← lineBreak

/-- How a break between two words is read: the first line feed is a space unless more follow. -/
def folded (first more : List Char) : List Char :=
  (if first != ['\n'] then first else if more.isEmpty then [' '] else []) ++ more

end Scan

end FlowScript.Yaml
