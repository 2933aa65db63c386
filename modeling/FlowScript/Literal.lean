import FlowScript.Reference
import FlowScript.Value.Nodes

/-!
# Values as program text

A text that is exactly one marker becomes the expression it stands for, a text with markers inside
becomes an interpolated string, and any other text a quoted literal. Lists and mappings are written
as displays. Below a given number of levels the rest of a value is written verbatim, markers and all.
-/
namespace FlowScript.Literal

inductive Kind where
  | literal
  | expression
  | interpolated
deriving Repr, DecidableEq

def Kind.name : Kind → String
  | .literal => "literal"
  | .expression => "expression"
  | .interpolated => "interpolated"

structure Resolved where
  kind : Kind
  code : String

/-- One character of the literal part of an interpolated string. -/
def interpolatedChar (c : Char) : List Char :=
  if c == '\\' then ['\\', '\\']
  else if c == '"' then ['\\', '"']
  else if c == '\n' then ['\\', 'n']
  else if c == '\r' then ['\\', 'r']
  else if c == '\t' then ['\\', 't']
  else if c == '{' then ['{', '{']
  else if c == '}' then ['}', '}']
  else [c]

def interpolatedPart (lookup : List Char → List Char) (part : List Char × List Char) : List Char :=
  part.1.flatMap interpolatedChar ++ '{' :: (Marker.expression part.2 lookup ++ ['}'])

def interpolated (lookup : List Char → List Char) (s : Marker.Split) : List Char :=
  'f' :: '"' :: (s.parts.flatMap (interpolatedPart lookup) ++ s.tail.flatMap interpolatedChar ++ ['"'])

/-- Environment markers are written as the given `lookup` reads their variables. -/
def resolve (s : String) (lookup : List Char → List Char := Marker.lookup) : Resolved :=
  match Marker.single? s.toList with
  | some inner => ⟨.expression, String.ofList (Marker.expression inner lookup)⟩
  | none =>
    let split := Marker.split s.toList
    if split.parts.isEmpty then ⟨.literal, Text.quote s⟩
    else ⟨.interpolated, String.ofList (interpolated lookup split)⟩

def floatCode (x : Float) : String :=
  let spelled := Number.floatText .program x
  if x.isFinite then spelled else "float('" ++ spelled ++ "')"

mutual

/-- The program text of a value of which `levels` levels are resolved; below zero it is verbatim. -/
def code (levels : Int) (v : Value) (lookup : List Char → List Char := Marker.lookup) : String :=
  match v with
  | .list vs =>
    if levels < 0 then Value.literal (.list vs)
    else "[" ++ Value.commaSeparated (codeItems (levels - 1) vs lookup) ++ "]"
  | .map es =>
    if levels < 0 then Value.literal (.map es)
    else "\x7b" ++ Value.commaSeparated (codeEntries (levels - 1) es lookup) ++ "\x7d"
  | .endless outline (.list vs) =>
    if levels < 0 then Value.literal outline
    else "[" ++ Value.commaSeparated (codeItems (levels - 1) vs lookup) ++ "]"
  | .endless outline (.map es) =>
    if levels < 0 then Value.literal outline
    else "\x7b" ++ Value.commaSeparated (codeEntries (levels - 1) es lookup) ++ "\x7d"
  | .text s => if levels < 0 then Value.literal (.text s) else (resolve s lookup).code
  | .float x origin => if levels < 0 then Value.literal (.float x origin) else floatCode x
  | v => Value.literal v

def codeItems (levels : Int) (vs : List Value) (lookup : List Char → List Char) : List String :=
  match vs with
  | [] => []
  | v :: vs => code levels v lookup :: codeItems levels vs lookup

def codeEntries (levels : Int) (es : List (Value × Value)) (lookup : List Char → List Char) :
    List String :=
  match es with
  | [] => []
  | (k, v) :: es =>
    (Text.quote k.display ++ ": " ++ code levels v lookup) :: codeEntries levels es lookup

end

/-- How deep a value is searched for environment markers. -/
def environmentLevels : Nat := 50

/-- Whether the value holds an environment marker. -/
def usesEnvironment (v : Value) : Bool :=
  (Value.nodes environmentLevels "" v).any fun node =>
    (Marker.innersOf node.value).any Marker.isEnvironment

end FlowScript.Literal
