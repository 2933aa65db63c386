import FlowScript.Yaml.Cursor

/-!
# Scalars in quotes

Single quotes know one escape, the quote written twice. Double quotes know the backslash escapes.
Line breaks are folded in both.
-/
namespace FlowScript.Yaml.Quoted

/-- The character that a letter behind a backslash stands for. -/
def replacement? : Char → Option Char
  | '0' => some '\x00'
  | 'a' => some '\x07'
  | 'b' => some '\x08'
  | 't' => some '\t'
  | '\t' => some '\t'
  | 'n' => some '\n'
  | 'v' => some '\x0b'
  | 'f' => some '\x0c'
  | 'r' => some '\r'
  | 'e' => some '\x1b'
  | ' ' => some ' '
  | '"' => some '"'
  | '\\' => some '\\'
  | '/' => some '/'
  | 'N' => some '\x85'
  | '_' => some '\xa0'
  | 'L' => some '\u2028'
  | 'P' => some '\u2029'
  | _ => none

/-- The number of hexadecimal digits that a letter behind a backslash announces. -/
def hexWidth? : Char → Option Nat
  | 'x' => some 2
  | 'u' => some 4
  | 'U' => some 8
  | _ => none

def isOrdinary (c : Char) : Bool :=
  !(c == '\'' || c == '"' || c == '\\' || isGap c || isBreak c)

/-- Empty lines behind a break, without the blanks on them. -/
def moreBreaks : Nat → Scan (List Char)
  | 0 => return []
  | n + 1 => do
    if (← get).atSeparator then Scan.fail .separatorInQuotes
    let _ ← Scan.take isGap
    if isBreak (← Scan.peek) then
      let first ← Scan.lineBreak
      return first ++ (← moreBreaks n)
    else return []

/-- A character by its code, given in a fixed number of hexadecimal digits. -/
def codeEscape (width : Nat) : Scan (List Char) := do
  let digits := (List.range width).map (← get).peekAt
  match digits.find? (!isHexDigit ·) with
  | some c => Scan.fail (.expectedHex width c)
  | none =>
    let code := hexNumber digits
    if 0x80000000 ≤ code then throw (.scalar .codeTooLarge)
    if 0x110000 ≤ code then throw (.scalar .codeOutOfRange)
    Scan.skip width
    return [Text.ofCode code]

/-- What stands behind a backslash. -/
def escaped : Scan (List Char) := do
  let c ← Scan.peek
  match replacement? c, hexWidth? c with
  | some r, _ =>
    Scan.skip 1
    return [r]
  | none, some width =>
    Scan.skip 1
    codeEscape width
  | none, none =>
    if isBreak c then
      let _ ← Scan.lineBreak
      moreBreaks (← Scan.budget)
    else Scan.fail (.unknownEscape c)

/-- Characters and escapes up to the next blank, break or closing quote. -/
def word (double : Bool) : Nat → Scan (List Char)
  | 0 => return []
  | n + 1 => do
    let run ← Scan.take isOrdinary
    let c ← Scan.peek
    if !double && c == '\'' && (← Scan.peekAt 1) == '\'' then
      Scan.skip 2
      return run ++ '\'' :: (← word double n)
    else if (double && c == '\'') || (!double && (c == '"' || c == '\\')) then
      Scan.skip 1
      return run ++ c :: (← word double n)
    else if double && c == '\\' then
      Scan.skip 1
      let piece ← escaped
      return run ++ piece ++ (← word double n)
    else return run

/-- The blanks and breaks between two words. -/
def gap : Scan (List Char) := do
  let blanks ← Scan.take isGap
  let c ← Scan.peek
  if c == endOfText then Scan.fail .endInQuotes
  else if isBreak c then
    let first ← Scan.lineBreak
    return Scan.folded first (← moreBreaks (← Scan.budget))
  else return blanks

def words (quote : Char) : Nat → Scan (List Char)
  | 0 => return []
  | n + 1 => do
    let first ← word (quote == '"') (← Scan.budget)
    if (← Scan.peek) == quote then return first
    let between ← gap
    return first ++ between ++ (← words quote n)

/-- A scalar from its opening to its closing quote. -/
def scan : Scan (List Char) := do
  let quote ← Scan.peek
  Scan.skip 1
  let text ← words quote (← Scan.budget)
  Scan.skip 1
  return text

end FlowScript.Yaml.Quoted
