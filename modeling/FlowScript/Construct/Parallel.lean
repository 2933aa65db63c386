import FlowScript.Identifier
import FlowScript.Step.Nested

/-!
# Parallel groups

The branches of a group run concurrently. A merging group stores what each branch produced under the
name of the branch.
-/
namespace FlowScript.Construct

structure Branch where
  flow : Flow
  outputName : Option String

structure Parallel where
  branches : List Branch
  merges : Bool

def Branch.ofValue (v : Value) : Branch :=
  ⟨v.flow?.getD [], (v.firstOf ["as", "name"]).text?⟩

namespace Parallel

def isTrue : Value → Bool
  | .bool b => b
  | _ => false

def read? (step : Step) : Option Parallel :=
  let group := step.get "parallel"
  group.branches?.map fun branches =>
    ⟨branches.map Branch.ofValue, isTrue (group.firstOf ["merge_results", "waitAll"])⟩

/-- The variable that receives the result of the branch with the given position. -/
def outputName (branch : Branch) (i : Nat) : String :=
  match branch.outputName with
  | some name => if isIdentifier name then name else "result_" ++ Number.natText i
  | none => "result_" ++ Number.natText i

/-- The variables that receive the branch results; a group that does not merge has none. -/
def outputs (group : Parallel) : List String :=
  if group.merges then group.branches.zipIdx.map fun (branch, i) => outputName branch i else []

end Parallel

/-- The variables that a step fills with branch results. -/
def mergedOutputs (step : Step) : List String :=
  (Parallel.read? step).elim [] Parallel.outputs

end FlowScript.Construct
