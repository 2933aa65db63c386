import FlowScript.Settings
import FlowScript.Yaml.Document

/-!
# Configuration files

A configuration is a document of overrides. An empty one overrides nothing.
-/
namespace FlowScript.Configuration

inductive Failure where
  | malformed (failure : Yaml.Failure)
  | notAMapping
deriving Repr, DecidableEq

/-- The overrides that a value gives. -/
def ofValue (v : Value) : Except Failure Fields :=
  match v.fields? with
  | some es => .ok es
  | none => if v.isFilled then .error .notAMapping else .ok []

/-- The overrides in a text. -/
def ofText (text : String) : Except Failure Fields :=
  match Yaml.load text with
  | .ok v => ofValue v
  | .error failure => .error (.malformed failure)

end FlowScript.Configuration
