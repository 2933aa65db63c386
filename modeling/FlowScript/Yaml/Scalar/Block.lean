import FlowScript.Yaml.Cursor

/-!
# Scalars in a block of lines

A header tells whether lines are kept or folded, how the end is trimmed, and possibly how deep the
block is indented; otherwise its first line that is not empty tells the depth.
-/
namespace FlowScript.Yaml.BlockScalar

/-- What happens to the line breaks at the end: all go, one stays, all stay. -/
inductive Chomping where
  | strip
  | clip
  | keep
deriving Repr, DecidableEq

structure Header where
  chomping : Chomping := .clip
  increment : Option Nat := none

def chomping? : Scan (Option Chomping) := do
  match ← Scan.peek with
  | '+' =>
    Scan.skip 1
    return some .keep
  | '-' =>
    Scan.skip 1
    return some .strip
  | _ => return none

def increment? : Scan (Option Nat) := do
  let c ← Scan.peek
  if c == '0' then Scan.fail .zeroIndentation
  else if c.isDigit then
    Scan.skip 1
    return some (c.toNat - '0'.toNat)
  else return none

/-- The two indicators in either order. -/
def header : Scan Header := do
  let found ← match ← chomping? with
    | some chomping => pure ⟨chomping, ← increment?⟩
    | none =>
      match ← increment? with
      | some increment => pure ⟨(← chomping?).getD .clip, some increment⟩
      | none => pure {}
  Scan.expect endsWord .expectedBlockHeader
  return found

/-- Skips the spaces of a line up to the indentation. -/
def indentTo (indent : Nat) : Scan Unit := do
  let c ← get
  let spaces := (c.rest.takeWhile (· == ' ')).length
  Scan.skip (min spaces (indent - c.mark.column))

/-- The breaks of empty lines; the cursor ends behind the indentation of the next line. -/
def breaks (indent : Nat) : Nat → Scan (List Char)
  | 0 => return []
  | n + 1 => do
    indentTo indent
    if isBreak (← Scan.peek) then
      let first ← Scan.lineBreak
      return first ++ (← breaks indent n)
    else return []

structure Leading where
  breaks : List Char
  depth : Nat

/-- The empty lines in front of a block and the deepest column of spaces among them and before its
first line. -/
def leading : Nat → Nat → Scan Leading
  | 0, depth => return ⟨[], depth⟩
  | n + 1, depth => do
    let spaces ← Scan.take (· == ' ')
    let column := (← Scan.mark).column
    let depth := if spaces.isEmpty then depth else max depth column
    if isBreak (← Scan.peek) then
      let first ← Scan.lineBreak
      let more ← leading n depth
      return { more with breaks := first ++ more.breaks }
    else return ⟨[], depth⟩

/-- The lines of a block without its end, the last line's break, and the breaks behind that. -/
structure Body where
  text : List Char
  lastBreak : List Char
  trailing : List Char

/-- What joins a line to the one before it: when lines are folded, a single break between two lines
that start with no blank is a space, and of several the first is left out. -/
def joint (folded flat : Bool) (lineBreak empty : List Char) (next : Char) : List Char :=
  if folded && lineBreak == ['\n'] && flat && !isGap next then
    if empty.isEmpty then [' '] else []
  else lineBreak

/-- The lines from here on. `flat` tells that the line before does not start with a blank,
`lineBreak` is its break, and `empty` holds the breaks of the empty lines since. -/
def lines (folded : Bool) (indent : Nat) : Nat → Bool → List Char → List Char → Scan Body
  | 0, _, lineBreak, empty => return ⟨[], lineBreak, empty⟩
  | n + 1, flat, lineBreak, empty => do
    let c ← get
    if c.mark.column != indent || c.rest.isEmpty then return ⟨[], lineBreak, empty⟩
    let line ← Scan.take (!isBreak ·)
    let nextBreak ← Scan.lineBreak
    let nextEmpty ← breaks indent (← Scan.budget)
    let rest ← lines folded indent n (!isGap c.peek) nextBreak nextEmpty
    return { rest with text := joint folded flat lineBreak empty c.peek ++ empty ++ line ++ rest.text }

def chomped (chomping : Chomping) (body : Body) : List Char :=
  match chomping with
  | .strip => body.text
  | .clip => body.text ++ body.lastBreak
  | .keep => body.text ++ body.lastBreak ++ body.trailing

/-- A block scalar inside a collection indented by `outer`. -/
def scan (folded : Bool) (outer : Int) : Scan (List Char) := do
  Scan.skip 1
  let h ← header
  Scan.restOfLine
  let least := (max 1 (outer + 1)).toNat
  match h.increment with
  | some increment =>
    let indent := least + increment - 1
    let empty ← breaks indent (← Scan.budget)
    return chomped h.chomping (← lines folded indent (← Scan.budget) false [] empty)
  | none =>
    let before ← leading (← Scan.budget) 0
    let indent := max least before.depth
    return chomped h.chomping (← lines folded indent (← Scan.budget) false [] before.breaks)

end FlowScript.Yaml.BlockScalar
