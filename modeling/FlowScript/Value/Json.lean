import FlowScript.Value.Written

/-!
# Values as JSON text

Steps are quoted in comments and warnings as JSON. Values that JSON lacks are written as the text
they display; a key must be a text, a number, a truth value or null. A collection that contains itself
has no such text.
-/
namespace FlowScript.Value

def jsonChar (c : Char) : List Char :=
  if c == '"' then ['\\', '"']
  else if c == '\\' then ['\\', '\\']
  else if c == '\n' then ['\\', 'n']
  else if c == '\r' then ['\\', 'r']
  else if c == '\t' then ['\\', 't']
  else if c.toNat == 0x08 then ['\\', 'b']
  else if c.toNat == 0x0C then ['\\', 'f']
  else if c.toNat < 0x20 then '\\' :: 'u' :: Text.hexDigits 4 c.toNat
  else [c]

def jsonText (s : String) : String :=
  String.ofList ('"' :: (s.toList.flatMap jsonChar ++ ['"']))

def jsonBool (b : Bool) : String := if b then "true" else "false"

def jsonKey : Value → Except Fault String
  | .text s => .ok (jsonText s)
  | .null => .ok (jsonText "null")
  | .bool b => .ok (jsonText (jsonBool b))
  | .int n => do return jsonText (← writtenInt n)
  | .float x _ => .ok (jsonText (Number.floatText .json x))
  | _ => .error .keyWithoutJson

mutual

def json : Value → Except Fault String
  | .null => .ok "null"
  | .bool b => .ok (jsonBool b)
  | .int n => writtenInt n
  | .float x _ => .ok (Number.floatText .json x)
  | .text s => .ok (jsonText s)
  | .list vs => do return "[" ++ commaSeparated (← jsonItems vs) ++ "]"
  | .tuple vs => do return "[" ++ commaSeparated (← jsonItems vs) ++ "]"
  | .map es => do return "\x7b" ++ commaSeparated (← jsonEntries es) ++ "\x7d"
  | .date d => .ok (jsonText d.text)
  | .timestamp t => .ok (jsonText t.text)
  | .bytes data => .ok (jsonText (Text.bytesLiteral data))
  | .set vs => do return jsonText (← spelled (.set vs))
  -- What comes before the place where it starts again may fail first.
  | .endless outline _ => do
    let _ ← json outline
    throw .endlessJson
  | .again _ => .error .endlessJson

def jsonItems : List Value → Except Fault (List String)
  | [] => .ok []
  | v :: vs => do return (← json v) :: (← jsonItems vs)

def jsonEntries : List (Value × Value) → Except Fault (List String)
  | [] => .ok []
  | (k, v) :: es => do
    let key ← jsonKey k
    return (key ++ ": " ++ (← json v)) :: (← jsonEntries es)

end

end FlowScript.Value
