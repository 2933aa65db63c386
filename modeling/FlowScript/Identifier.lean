import FlowScript.Text.Word
import FlowScript.Value.Basic

/-!
# Names of generated variables

A name is a letter or underscore followed by letters, digits and underscores of the basic alphabet,
and is not reserved. A single line feed at the very end is tolerated.
-/
namespace FlowScript

/-- The reserved words of the generated programs. -/
def keywords : List String := [
  "False", "None", "True", "and", "as", "assert", "async", "await", "break", "class", "continue",
  "def", "del", "elif", "else", "except", "finally", "for", "from", "global", "if", "import", "in",
  "is", "lambda", "nonlocal", "not", "or", "pass", "raise", "return", "try", "while", "with",
  "yield"]

def isKeyword (name : String) : Bool := keywords.contains name

/-- The end of a text, or the line feed that is its last character. -/
def atEnd : List Char → Bool
  | [] => true
  | [c] => c == '\n'
  | _ => false

/-- The longest name at the start of a text. -/
def takeName : List Char → List Char
  | [] => []
  | c :: cs => if Text.isNameStart c then c :: cs.takeWhile Text.isNameChar else []

def isNamed (cs : List Char) : Bool :=
  let name := takeName cs
  !name.isEmpty && atEnd (cs.drop name.length)

def isIdentifier (name : String) : Bool :=
  isNamed name.toList && !isKeyword name

/-- The name that a value spells, if it is usable for a variable. -/
def Value.identifier? : Value → Option String
  | .text s => if isIdentifier s then some s else none
  | _ => none

end FlowScript
