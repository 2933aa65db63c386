import FlowScript.Number.Reading
import FlowScript.Text.Search
import FlowScript.Value.Written

/-!
# Platforms

A document has a block for the platform it drives. Only the launch settings of a browser are used;
the first platform block present gives them.
-/
namespace FlowScript.Program

structure Platform where
  key : String := "web"
  url : String := ""
  headless : Bool := false
  viewportWidth : Int := 1280
  viewportHeight : Int := 720
  chromeArgs : List String := []

namespace Platform

/-- The keys of platform blocks. -/
def keys : List String := ["web", "android", "ios", "computer"]

/-- A length in pixels, given as a number or as the text of an integer. -/
def pixels (v : Value) (default : Int) : Except Fault Int :=
  match v with
  | .bool true => .ok 1
  | .int n => .ok (if n == 0 then default else n)
  | .float x _ =>
    match Number.decode x with
    | .notANumber => .ok default
    | .infinite _ => .error .infiniteCount
    | .finite exact => .ok (if exact.mantissa == 0 then default else exact.truncate)
  | .text s => .ok ((Number.readInt? s.toList).getD default)
  | .bytes data => .ok ((Number.readInt? (data.map fun b => Char.ofNat b.toNat)).getD default)
  | _ => .ok default

/-- The first of two spellings of a field that is filled. -/
def either (block : Fields) (first second : String) : Value :=
  (block.get first).orElse (block.get second)

def isTrue : Value → Bool
  | .bool b => b
  | _ => false

def argsOf (v : Value) : List Value :=
  match v.items? with
  | some vs => vs
  | none => if v.isFilled then [v] else []

def ofBlock (key : String) (block : Fields) : Except Fault Platform := do
  let url ← ((block.get "url").orElse (.text "")).shown
  let width ← pixels (either block "viewportWidth" "viewport_width") 1280
  let height ← pixels (either block "viewportHeight" "viewport_height") 720
  let chromeArgs ← (argsOf (either block "chromeArgs" "chrome_args")).mapM Value.shown
  return {
    key
    url
    headless := isTrue (block.get "headless")
    viewportWidth := width
    viewportHeight := height
    chromeArgs }

def ofDocument (document : Fields) : Except Fault Platform :=
  match keys.find? fun key => document.has key with
  | none => .ok {}
  | some key =>
    match (document.get key).fields? with
    | none => .ok { key }
    | some block => ofBlock key block

/-- Whether a key of a platform is found in a value that is no mapping, if it can be searched. -/
def isFoundIn (key : String) : Value → Option Bool
  | .text s => some (Text.occursIn key.toList s.toList)
  | .list vs => some (vs.any fun v => v.isTextOf key)
  | _ => none

/-- The platform of any value; only a mapping has a block for one. -/
def ofValue (v : Value) : Except Fault Platform :=
  match v.fields? with
  | some document => ofDocument document
  | none => if keys.all fun key => isFoundIn key v == some false then .ok {} else .error .platformNotFound

end Platform

end FlowScript.Program
