import FlowScript.Step.Kind

/-!
# Actions

An action is written flat, with its options beside the keyword, or nested, with the prompt and the
options in a mapping under the keyword.
-/
namespace FlowScript.Construct

structure Action where
  keyword : String
  /-- The main argument: a prompt, a key, milliseconds, code. -/
  prompt : Value
  options : Fields
  resultName : Option String
  nested : Bool

namespace Action

/-- The actions whose result is bound to the step's `name`. -/
def binding : List String :=
  ["aiQuery", "aiBoolean", "aiNumber", "aiString", "aiAsk", "aiLocate", "javascript"]

/-- The keys that hold the prompt of a nested action. -/
def promptKeys : List String := ["prompt", "locate"]

/-- Takes the result name out of the options of an action that binds one. -/
def withResult (keyword : String) (prompt : Value) (options : Fields) (nested : Bool) : Action :=
  if binding.contains keyword then
    ⟨keyword, prompt, options.without ["name"], (options.get "name").text?, nested⟩
  else ⟨keyword, prompt, options, none, nested⟩

def ofKeyword (step : Step) (keyword : String) : Action :=
  let beside := step.without [keyword]
  let prompt := step.get keyword
  match prompt.fields? with
  | some inside =>
    withResult keyword (inside.firstOf promptKeys) (beside.insertAll (inside.without promptKeys)) true
  | none => withResult keyword prompt beside false

def read? (step : Step) : Option Action := step.actionKeyword?.map (ofKeyword step)

end Action

end FlowScript.Construct
