import FlowScript.Step.Nested
import FlowScript.Value.Nodes

/-!
# Walking a flow

The walk visits the steps of a flow in order, each before the steps of the flows it owns. It enters a
given number of levels; a flow below the last one is reported as a limit and not entered.
-/
namespace FlowScript

inductive Walk.Event where
  | visit (step : Step) (path : String)
  | limit (path : String)

/-- A step together with its path. -/
structure Walk.Visit where
  step : Step
  path : String

/-- Walks a flow. Where `enters` fails a step is visited, but its flows are not. -/
def Flow.walkWhere (enters : Walk.Visit → Bool) : Nat → Flow → String → List Walk.Event
  | 0, _, path => [.limit path]
  | levels + 1, flow, path =>
    flow.zipIdx.flatMap fun (entry, i) =>
      match entry.step? with
      | some step =>
        let here := Value.itemPath path i
        let below :=
          if enters ⟨step, here⟩ then
            step.nestedFlows.flatMap fun child =>
              walkWhere enters levels child.flow (here ++ child.suffix)
          else []
        .visit step here :: below
      | none => []

/-- Walks a flow where the steps alone decide which of them are entered. -/
def Flow.walk (enters : Step → Bool) (levels : Nat) (flow : Flow) (path : String) : List Walk.Event :=
  flow.walkWhere (fun visit => enters visit.step) levels path

def Walk.visits (events : List Walk.Event) : List Walk.Visit :=
  events.filterMap fun
    | .visit step path => some ⟨step, path⟩
    | .limit _ => none

/-- The path of the flow of a task. -/
def taskFlowPath (i : Nat) : String := "/tasks[" ++ Number.natText i ++ "]/flow"

/-- Walks the flow of every task of a document. -/
def Value.walkTasksWhere (enters : Walk.Visit → Bool) (levels : Nat) (document : Value) :
    List Walk.Event :=
  (document.field "tasks").items.zipIdx.flatMap fun (task, i) =>
    match task.taskFlow? with
    | some flow => flow.walkWhere enters levels (taskFlowPath i)
    | none => []

/-- Walks the tasks of a document where the steps alone decide which of them are entered. -/
def Value.walkTasks (enters : Step → Bool) (levels : Nat) (document : Value) : List Walk.Event :=
  document.walkTasksWhere (fun visit => enters visit.step) levels

end FlowScript
