import FlowScript.Text.Utf8
import FlowScript.Yaml.Cursor

/-!
# Tags, anchors and directives

A tag is a handle and a suffix, or a verbatim name without a handle. Directives at the head of a
document declare the version and the handles.
-/
namespace FlowScript.Yaml

structure Tag where
  handle : Option String
  suffix : String
deriving Repr, DecidableEq

inductive Directive where
  | version (major minor : Nat)
  | handle (name expansion : String)
  | other
deriving Repr, DecidableEq

namespace Tag

def isUriChar (c : Char) : Bool :=
  c.isAlphanum || "-;/?:@&=+$,_.!~*'()[]".toList.contains c

/-- One byte behind a percent sign. -/
def escapedByte : Scan UInt8 := do
  Scan.skip 1
  let digits := [← Scan.peek, ← Scan.peekAt 1]
  match digits.find? (!isHexDigit ·) with
  | some c => Scan.fail (.expectedUriHex c)
  | none =>
    Scan.skip 2
    return (hexNumber digits).toUInt8

def escapedBytes : Nat → Scan (List UInt8)
  | 0 => return []
  | n + 1 => do
    if (← Scan.peek) == '%' then
      let b ← escapedByte
      return b :: (← escapedBytes n)
    else return []

def escapedText : Scan (List Char) := do
  let start ← Scan.mark
  match Text.Utf8.decode (← escapedBytes (← Scan.budget)) with
  | .ok cs => return cs
  | .error e => throw (.atMark (.undecodableUri e.message) start)

def uriParts : Nat → Scan (List Char)
  | 0 => return []
  | n + 1 => do
    let run ← Scan.take isUriChar
    if (← Scan.peek) == '%' then
      let text ← escapedText
      return run ++ text ++ (← uriParts n)
    else return run

def uri : Scan String := do
  let cs ← uriParts (← Scan.budget)
  if cs.isEmpty then Scan.fail (.expectedUri (← Scan.peek)) else return String.ofList cs

/-- A handle between two marks, or a single mark before a space. -/
def handleName : Scan String := do
  Scan.expect (· == '!') .expectedHandleMark
  Scan.skip 1
  if (← Scan.peek) == ' ' then return "!"
  let name ← Scan.take isNameChar
  Scan.expect (· == '!') .expectedHandleMark
  Scan.skip 1
  return String.ofList ('!' :: name ++ ['!'])

/-- Whether a second mark follows the first one within the same word. -/
def hasHandle (c : Cursor) : Bool :=
  ((c.rest.drop 1).takeWhile (!endsWord ·)).contains '!'

def scan : Scan Tag := do
  let next ← Scan.peekAt 1
  let tag ←
    if next == '<' then do
      Scan.skip 2
      let suffix ← uri
      Scan.expect (· == '>') .expectedTagEnd
      Scan.skip 1
      pure ⟨none, suffix⟩
    else if endsToken next then do
      Scan.skip 1
      pure ⟨none, "!"⟩
    else if hasHandle (← get) then do
      let h ← handleName
      pure ⟨some h, ← uri⟩
    else do
      Scan.skip 1
      pure ⟨some "!", ← uri⟩
  Scan.expect endsWord .expectedSpace
  return tag

end Tag

/-- The name behind the mark of an anchor or of a reference to one. -/
def anchorName : Scan String := do
  Scan.skip 1
  let cs ← Scan.name
  Scan.expect (fun c => endsToken c || "?:,]\x7d%@`".toList.contains c) .expectedName
  return String.ofList cs

namespace Directive

def number : Scan Nat := do
  Scan.expect Char.isDigit .expectedDigit
  let digits ← Scan.take Char.isDigit
  if Number.maxDigits < digits.length then throw (.scalar .malformedNumber)
  return digits.foldl (fun n c => n * 10 + (c.toNat - '0'.toNat)) 0

def versionNumber : Scan Directive := do
  let _ ← Scan.take (· == ' ')
  let major ← number
  Scan.expect (· == '.') .expectedPoint
  Scan.skip 1
  let minor ← number
  Scan.expect endsWord .expectedVersionEnd
  return .version major minor

def handleExpansion : Scan Directive := do
  let _ ← Scan.take (· == ' ')
  let h ← Tag.handleName
  Scan.expect (· == ' ') .expectedSpace
  let _ ← Scan.take (· == ' ')
  let expansion ← Tag.uri
  Scan.expect endsWord .expectedSpace
  return .handle h expansion

/-- A directive line. Directives of other names are skipped. -/
def scan : Scan Directive := do
  Scan.skip 1
  let name ← Scan.name
  Scan.expect endsWord .expectedName
  let directive ←
    if name == "YAML".toList then versionNumber
    else if name == "TAG".toList then handleExpansion
    else do
      let _ ← Scan.take (!isBreak ·)
      pure .other
  Scan.restOfLine
  return directive

end Directive

end FlowScript.Yaml
