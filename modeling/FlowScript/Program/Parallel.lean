import FlowScript.Program.Pass
import FlowScript.Step.Bindings

/-!
# Parallel groups

Each branch becomes a function of its own. The names that branches bind are hoisted before the group,
so that the functions can assign to them and the values outlive the join. Names that a branch binds
only for its own control stay inside it.
-/
namespace FlowScript.Program

open Construct Pass

def branchFunction (group i : Nat) : String :=
  "_parallel_" ++ Number.natText group ++ "_branch_" ++ Number.natText i

/-- Binds the names that are not yet in scope. -/
def hoist : List String → Pass Block
  | [] => pure []
  | name :: rest => do
    let known := (← get).scope.contains name
    declare name
    let others ← hoist rest
    return if known then others else .line (.hoist name) :: others

/-- Runs a pass and puts the scope back to what it was. -/
def keepScope (pass : Pass Block) : Pass Block := do
  let before := (← get).scope
  let block ← pass
  modify fun s => { s with scope := before }
  return block

/-- What ends a branch function. A merging group asks for the last value that the branch bound. -/
def branchEnd (merges : Bool) (flow : Flow) (names : List String) (body : Block) : Pass Block :=
  if merges then do
    let last ← liftM flow.lastBoundName?
    return [.line (.returns (last.getD "None"))]
  else return if body.isEmpty && names.isEmpty then [.line .pass] else []

/-- A branch with its number and the names it binds. -/
structure NamedBranch where
  branch : Branch
  index : Nat
  names : List String

def branchBlock (nested : Flow → Pass Block) (merges : Bool) (group : Nat) (b : NamedBranch) :
    Pass Block := do
  let body ← keepScope (nested b.branch.flow)
  let ending ← branchEnd merges b.branch.flow b.names body
  let header : Block := if b.names.isEmpty then [] else [.line (.nonlocals b.names)]
  return [.block (.branch (branchFunction group b.index))
    (header ++ body ++ ending), .blank]

/-- The branches of a group with the names they bind. -/
def nameBranches (ctx : Context) (group : Parallel) : Except Fault (List NamedBranch) :=
  group.branches.zipIdx.mapM fun (branch, i) => do
    return ⟨branch, i, ← branch.flow.boundNames false (← ctx.settings.walkLevels)⟩

def declareAll : List String → Pass Unit
  | [] => pure ()
  | name :: rest => do
    declare name
    declareAll rest

def groupBlock (ctx : Context) (nested : Flow → Pass Block) (parallel : Parallel) : Pass Block := do
  requireHelper .gatherAll
  let group ← nextGroup
  let branches ← liftM (nameBranches ctx parallel)
  let hoisted ← hoist (branches.flatMap (·.names))
  let functions ← each (branchBlock nested parallel.merges group) branches
  declareAll parallel.outputs
  return hoisted ++ (if hoisted.isEmpty then [] else [.blank]) ++ functions ++
    [.line (.join parallel.outputs (branches.map fun b => branchFunction group b.index))]

def parallelBlock (ctx : Context) (nested : Flow → Pass Block) (step : Step) : Pass Block :=
  match Parallel.read? step with
  | none => skip "Invalid parallel step" (.map step)
  | some parallel =>
    if parallel.branches.isEmpty then do
      warn "Parallel group without branches was skipped"
      return [.comment "Empty parallel group"]
    else groupBlock ctx nested parallel

end FlowScript.Program
