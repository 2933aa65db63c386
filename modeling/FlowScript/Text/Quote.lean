import FlowScript.Text.Printable
import FlowScript.Text.Surrogate

/-!
# Quoted text

Two ways of writing a text as a string literal. `quote` always uses single quotes and escapes the
backslash, the quote and three control characters. `literal` picks the quote that needs no escape
and also escapes whatever is not printable.
-/
namespace FlowScript.Text

/-- One character inside a single-quoted literal. -/
def escapeChar (c : Char) : List Char :=
  if c == '\\' then ['\\', '\\']
  else if c == '\'' then ['\\', '\'']
  else if c == '\n' then ['\\', 'n']
  else if c == '\r' then ['\\', 'r']
  else if c == '\t' then ['\\', 't']
  else [c]

def escape (s : String) : String :=
  String.ofList (s.toList.flatMap escapeChar)

def quote (s : String) : String :=
  "'" ++ escape s ++ "'"

def hexDigit (n : Nat) : Char :=
  if n < 10 then Char.ofNat (0x30 + n) else Char.ofNat (0x57 + n)

/-- The last `width` digits of a number in base sixteen. -/
def hexDigits : Nat → Nat → List Char
  | 0, _ => []
  | width + 1, n => hexDigits width (n / 16) ++ [hexDigit (n % 16)]

/-- A code point as an escape of two, four or eight digits. -/
def codePointEscape (n : Nat) : List Char :=
  if n < 0x100 then '\\' :: 'x' :: hexDigits 2 n
  else if n < 0x10000 then '\\' :: 'u' :: hexDigits 4 n
  else '\\' :: 'U' :: hexDigits 8 n

/-- Single quotes, unless the text holds some and no double quote. -/
def chooseQuote (cs : List Char) : Char :=
  if cs.contains '\'' && !cs.contains '"' then '"' else '\''

def literalChar (q c : Char) : List Char :=
  if c == q || c == '\\' then ['\\', c]
  else if c == '\n' then ['\\', 'n']
  else if c == '\r' then ['\\', 'r']
  else if c == '\t' then ['\\', 't']
  else if isPrintable c then [c]
  else codePointEscape (codeOf c)

def literal (s : String) : String :=
  let cs := s.toList
  let q := chooseQuote cs
  String.ofList (q :: (cs.flatMap (literalChar q) ++ [q]))

/-- One byte inside a literal of bytes, where everything outside ASCII is escaped. -/
def literalByte (q : Char) (b : UInt8) : List Char :=
  let c := Char.ofNat b.toNat
  if b.toNat < 0x7F then literalChar q c else codePointEscape b.toNat

def bytesLiteral (data : List UInt8) : String :=
  let q := chooseQuote (data.map fun b => Char.ofNat b.toNat)
  String.ofList ('b' :: q :: (data.flatMap (literalByte q) ++ [q]))

end FlowScript.Text
