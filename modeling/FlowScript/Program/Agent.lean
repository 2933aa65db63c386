import FlowScript.Program.Code
import FlowScript.Reference
import FlowScript.Text.Snake

/-!
# The agent

Every action of a generated program is awaited on one object, the agent. The name of its method is the
action keyword in snake case, unless an alias replaces it.
-/
namespace FlowScript.Program

structure Agent where
  name : String := "agent"
  aliases : List (String × String) :=
    [("ai", "ai_act"), ("aiAction", "ai_act"), ("javascript", "evaluate_javascript")]
  /-- The method that judges a condition in plain language. -/
  booleanMethod : String := "ai_boolean"
  /-- The method that runs a sub-flow. -/
  runFlowMethod : String := "run_yaml"
  /-- How a variable of the environment is read where the agent runs. -/
  lookup : List Char → List Char := Marker.lookup

/-- An argument of a call, by position or by name. -/
structure Argument where
  name : Option String
  code : String

def Argument.text (a : Argument) : String :=
  match a.name with
  | none => a.code
  | some name => name ++ "=" ++ a.code

namespace Agent

def method (agent : Agent) (keyword : String) : String :=
  match agent.aliases.lookup keyword with
  | some name => if name == "" then Text.toSnake keyword else name
  | none => Text.toSnake keyword

def call (agent : Agent) (method : String) (arguments : List String) : String :=
  "await " ++ agent.name ++ "." ++ method ++ "(" ++ separated arguments ++ ")"

def check (agent : Agent) (condition : String) : String :=
  agent.call agent.booleanMethod [condition]

def runFlow (agent : Agent) (reference : String) (params : Option String) : String :=
  agent.call agent.runFlowMethod (reference :: params.toList)

end Agent

end FlowScript.Program
