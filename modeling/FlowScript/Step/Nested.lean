import FlowScript.Number.Notation
import FlowScript.Step.Kind

/-!
# Nested flows

Conditionals, loops, guarded blocks and parallel groups own flows of their own. Every traversal
follows them through `Step.nestedFlows`.
-/
namespace FlowScript

/-- The flow of a mapping: its `flow` or else its `steps`. -/
def Fields.flow? (es : Fields) : Option Flow :=
  (if (es.get "flow").isNull then es.get "steps" else es.get "flow").items?

/-- The flow of a block: the block itself if it is a list. -/
def Value.flow? (v : Value) : Option Flow :=
  match v.items? with
  | some vs => some vs
  | none => v.fields?.bind Fields.flow?

/-- The flow of a task, which has to be a mapping. -/
def Value.taskFlow? (v : Value) : Option Flow := v.fields?.bind Fields.flow?

/-- The branches of a parallel group: its `tasks` or else its `branches`. -/
def Value.branches? (v : Value) : Option (List Value) :=
  v.fields?.bind fun es =>
    (if (es.get "tasks").isNull then es.get "branches" else es.get "tasks").items?

namespace Step

/-- The three blocks of a guarded step. -/
structure GuardBlocks where
  body : Value
  handler : Value
  cleanup : Value

/-- The handlers stand beside the guarded block or inside it; those beside it come first. -/
def guardBlocks (step : Step) : GuardBlocks :=
  let body := step.get "try"
  let beside (name : String) :=
    if (step.get name).isNull then body.field name else step.get name
  ⟨body, beside "catch", beside "finally"⟩

/-- A flow owned by a step, with what is appended to the step's path to name it. -/
structure Child where
  suffix : String
  flow : Flow

def child? (suffix : String) (flow? : Option Flow) : Option Child :=
  flow?.map fun flow => ⟨suffix, flow⟩

def branchSuffix (i : Nat) : String := "/parallel/tasks[" ++ Number.natText i ++ "]/flow"

/-- The flows that a step owns, in the order of the document. -/
def nestedFlows (step : Step) : List Child :=
  match step.kind with
  | .logic =>
    [child? "/logic/then" ((step.get "logic").field "then").items?,
     child? "/logic/else" ((step.get "logic").field "else").items?].filterMap id
  | .loop => [child? "/loop/flow" (step.get "loop").flow?].filterMap id
  | .guarded =>
    let blocks := step.guardBlocks
    [child? "/try/flow" blocks.body.flow?, child? "/catch/flow" blocks.handler.flow?,
     child? "/finally/flow" blocks.cleanup.flow?].filterMap id
  | .parallel =>
    ((step.get "parallel").branches?.getD []).zipIdx.filterMap fun (branch, i) =>
      child? (branchSuffix i) branch.flow?
  | _ => []

end Step

end FlowScript
