import FlowScript.Construct.Action
import FlowScript.Construct.Call
import FlowScript.Construct.Guard
import FlowScript.Construct.Import
import FlowScript.Construct.Loop
import FlowScript.Construct.Parallel
import FlowScript.Construct.Transform
import FlowScript.Step.Walk

/-!
# Bindings

The names that a step binds as values are variables, results, import aliases, outputs of calls and
transforms, and merged branch results. Loops and handlers also bind names for their own use, the
control names.
-/
namespace FlowScript

open Construct

/-- The names among values: texts that are not empty. -/
def namesOf (vs : List Value) : List String :=
  vs.filterMap fun v => v.text?.filter (· != "")

namespace Step

/-- What a loop binds for its body. -/
def loopControl (loop : Loop) : List Value :=
  (if loop.kind == some "for" then [loop.itemVar] else []) ++ [loop.indexVar] ++
    (if loop.kind == some "repeat" && loop.indexVar.isNull then [.text "i"] else [])

/-- The control values bound directly by a step. -/
def controlValues (step : Step) : List Value :=
  match step.kind with
  | .loop => (Loop.read? step).elim [] loopControl
  | .guarded =>
    let guard := Guard.read step
    if guard.handler.isSome then [guard.errorName] else []
  | _ => []

def optionText (name : Option String) : List Value := name.toList.map .text

/-- The values bound directly by a step that is no loop and no guarded block. -/
def boundValues (step : Step) : Except Fault (List Value) :=
  match step.kind with
  | .variables => .ok (((step.get "variables").fields?.getD []).map (·.1))
  | .action => .ok (optionText ((Action.read? step).bind (·.resultName)))
  | .importing => .ok (optionText (Import.ofStep step).boundName)
  | .call => do return (← Call.read? step).toList.map (·.resultName)
  | .transform => do return (← Transform.read? step).toList.map (·.output)
  | .parallel => .ok ((mergedOutputs step).map .text)
  | _ => .ok []

/-- The names bound directly by a step, not by the flows it owns. -/
def bindings (control : Bool) (step : Step) : Except Fault (List String) := do
  let bound ← step.boundValues
  return namesOf (bound ++ if control then step.controlValues else [])

end Step

/-- The names of a list that are not among those seen before, once each, in order. -/
def distinctFrom (seen : List String) : List String → List String
  | [] => []
  | name :: names =>
    if seen.contains name then distinctFrom seen names
    else name :: distinctFrom (name :: seen) names

namespace Flow

/-- Every name bound in a flow, once, in the order of its first binding. -/
def boundNames (control : Bool) (levels : Nat) (flow : Flow) : Except Fault (List String) := do
  let visits := Walk.visits (flow.walk (fun _ => true) levels "")
  let names ← visits.mapM fun visit => visit.step.bindings control
  return distinctFrom [] names.flatten

/-- The last name that the steps of a flow bind directly. -/
def lastBoundName? (flow : Flow) : Except Fault (Option String) := do
  let names ← (flow.filterMap Value.step?).mapM (Step.bindings false)
  return names.flatten.getLast?

end Flow

end FlowScript
