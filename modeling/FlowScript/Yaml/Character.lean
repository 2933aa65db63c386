import FlowScript.Text.Surrogate

/-!
# Characters of a document text

The classes that divide a text into lines and words. The end of the text is seen as the character
with code zero, which no accepted text contains.
-/
namespace FlowScript.Yaml

def endOfText : Char := '\x00'

def isBreak (c : Char) : Bool :=
  c == '\r' || c == '\n' || c == '\x85' || c == '\u2028' || c == '\u2029'

def endsLine (c : Char) : Bool := c == endOfText || isBreak c

def endsWord (c : Char) : Bool := c == ' ' || endsLine c

def endsToken (c : Char) : Bool := c == '\t' || endsWord c

def isGap (c : Char) : Bool := c == ' ' || c == '\t'

/-- The characters of directive names, handles and anchors. -/
def isNameChar (c : Char) : Bool := c.isAlphanum || c == '-' || c == '_'

def isHexDigit (c : Char) : Bool :=
  c.isDigit || ('a' ≤ c && c ≤ 'f') || ('A' ≤ c && c ≤ 'F')

def hexValue (c : Char) : Nat :=
  if c.isDigit then c.toNat - '0'.toNat
  else if 'a' ≤ c then c.toNat - 'a'.toNat + 10
  else c.toNat - 'A'.toNat + 10

def hexNumber (cs : List Char) : Nat := cs.foldl (fun n c => n * 16 + hexValue c) 0

/-- Whether a character may stand in a document text at all. -/
def isAcceptable (c : Char) : Bool :=
  let n := Text.codeOf c
  n == 0x09 || n == 0x0A || n == 0x0D || (0x20 ≤ n && n ≤ 0x7E) || n == 0x85 ||
    (0xA0 ≤ n && n ≤ 0xFFFD && !Text.isSurrogate n) || 0x10000 ≤ n

/-- The characters that join or set apart entries in a bracketed collection. -/
def isFlowIndicator (c : Char) : Bool :=
  c == ',' || c == '[' || c == ']' || c == '{' || c == '}'

end FlowScript.Yaml
