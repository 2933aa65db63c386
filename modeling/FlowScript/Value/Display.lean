import FlowScript.Text.Quote
import FlowScript.Value.Basic

/-!
# Values as text

`literal` writes a value the way a program would spell it. `display` is the same except that texts
and dates stand for themselves.
-/
namespace FlowScript.Value

def boolText (b : Bool) : String := if b then "True" else "False"

def commaSeparated (parts : List String) : String := String.intercalate ", " parts

mutual

def literal : Value → String
  | .null => "None"
  | .bool b => boolText b
  | .int n => Number.intText n
  | .float x _ => Number.floatText .program x
  | .text s => Text.literal s
  | .date d => d.code
  | .timestamp t => t.code
  | .bytes data => Text.bytesLiteral data
  | .list vs => "[" ++ commaSeparated (literals vs) ++ "]"
  | .tuple vs => "(" ++ commaSeparated (literals vs) ++ (if vs.length == 1 then ",)" else ")")
  | .set vs =>
    if vs.isEmpty then "set()" else "\x7b" ++ commaSeparated (literals vs) ++ "\x7d"
  | .map es => "\x7b" ++ commaSeparated (literalEntries es) ++ "\x7d"
  | .endless outline _ => literal outline
  | .again mapping => if mapping then "\x7b...\x7d" else "[...]"

def literals : List Value → List String
  | [] => []
  | v :: vs => literal v :: literals vs

def literalEntries : List (Value × Value) → List String
  | [] => []
  | (k, v) :: es => (literal k ++ ": " ++ literal v) :: literalEntries es

end

def display : Value → String
  | .text s => s
  | .date d => d.text
  | .timestamp t => t.text
  | v => literal v

end FlowScript.Value
