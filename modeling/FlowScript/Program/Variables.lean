import FlowScript.Program.Pass
import FlowScript.Step.Kind

/-!
# Variables

Each entry of a mapping of variables becomes an assignment.
-/
namespace FlowScript.Program

open Pass

def bindingBlock (ctx : Context) (entry : Value × Value) : Pass Block := do
  match entry.1.identifier? with
  | some name =>
    declare name
    let code ← valueCode ctx entry.2
    return [.line (.assign name code)]
  | none =>
    let spelled ← liftM entry.1.spelled
    warn ("Skipped variable " ++ spelled ++ ": not a valid Python identifier")
    return [.comment ("Skipped variable " ++ spelled ++ ": not a valid identifier")]

def bindingsBlock (ctx : Context) (bindings : Fields) : Pass Block :=
  each (bindingBlock ctx) bindings

def variablesBlock (ctx : Context) (step : Step) : Pass Block :=
  match (step.get "variables").fields? with
  | some bindings => bindingsBlock ctx bindings
  | none => skip "Invalid variables step" (.map step)

end FlowScript.Program
