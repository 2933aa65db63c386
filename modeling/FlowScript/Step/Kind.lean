import FlowScript.Value.Basic

/-!
# Kinds of steps

A step is a mapping. What it does is decided by the first of the construct keys it has, in a fixed
order, and only then by an action keyword among its keys.
-/
namespace FlowScript

/-- A step of a flow, as its entries. -/
abbrev Step := Fields

/-- A flow is a list of steps; entries that are no mappings are passed over. -/
abbrev Flow := List Value

namespace Step

inductive Kind where
  | variables
  | logic
  | loop
  | importing
  | transform
  | guarded
  | call
  | parallel
  | use
  | action
  | unknown
deriving Repr, DecidableEq

def Kind.name : Kind → String
  | .variables => "variables"
  | .logic => "logic"
  | .loop => "loop"
  | .importing => "import"
  | .transform => "data_transform"
  | .guarded => "try"
  | .call => "external_call"
  | .parallel => "parallel"
  | .use => "use"
  | .action => "native"
  | .unknown => "unknown"

/-- The kinds with a key of their own, in the order in which the keys are looked for. -/
def extendedKinds : List Kind :=
  [.variables, .logic, .loop, .importing, .transform, .guarded, .call, .parallel, .use]

/-- The keywords of the actions that the agent performs. -/
def actionKeywords : List String := [
  "ai", "aiAct", "aiAction", "aiTap", "aiRightClick", "aiDoubleClick", "aiHover", "aiInput",
  "aiKeyboardPress", "aiScroll", "aiQuery", "aiBoolean", "aiNumber", "aiString", "aiAsk", "aiLocate",
  "aiAssert", "aiWaitFor", "sleep", "javascript", "recordToReport", "logScreenshot"]

/-- The first key of a step that is an action keyword. -/
def actionKeyword? : Step → Option String
  | [] => none
  | (.text key, _) :: rest =>
    if actionKeywords.contains key then some key else actionKeyword? rest
  | _ :: rest => actionKeyword? rest

def kind (step : Step) : Kind :=
  match extendedKinds.find? fun k => step.has k.name with
  | some k => k
  | none => if step.actionKeyword?.isSome then .action else .unknown

end Step

/-- The step that an entry of a flow is. -/
def Value.step? (v : Value) : Option Step := v.fields?

/-- The kind of an entry of a flow. -/
def Value.stepKind (v : Value) : Step.Kind := v.step?.elim .unknown Step.kind

end FlowScript
