import FlowScript.Program.Action
import FlowScript.Program.Call
import FlowScript.Program.Conditional
import FlowScript.Program.Guard
import FlowScript.Program.Import
import FlowScript.Program.Loop
import FlowScript.Program.Parallel
import FlowScript.Program.Transform
import FlowScript.Program.Variables

/-!
# Flows

A flow is compiled step by step, each step by the rule of its kind. Steps that cannot be compiled
become comments. A flow that is nested too deeply is left out as a whole.
-/
namespace FlowScript.Program

open Pass

def stepBlock (ctx : Context) (nested : Flow → Pass Block) (step : Step) : Pass Block :=
  match step.kind with
  | .variables => variablesBlock ctx step
  | .logic => conditionalBlock ctx nested step
  | .loop => loopBlock ctx nested step
  | .importing => importStepBlock ctx step
  | .transform => transformBlock ctx step
  | .guarded => guardBlock nested step
  | .call => callBlock ctx step
  | .parallel => parallelBlock ctx nested step
  | .use => useBlock ctx step
  | .action => actionBlock ctx step
  | .unknown => skip "Unrecognized step" (.map step)

def entryOfFlow (ctx : Context) (nested : Flow → Pass Block) (entry : Value) : Pass Block :=
  match entry.step? with
  | some step => do
    hand step
    stepBlock ctx nested step
  | none => skip "Skipped invalid step" entry

/-- Compiles a flow of which the given number of levels may be entered. -/
def flowBlock (ctx : Context) : Nat → Flow → Pass Block
  | 0, _ => do
    let limit ← liftM ctx.settings.maxWalkDepth.shown
    warn ("Nesting exceeds " ++ limit ++ " levels; deeper steps were skipped")
    return [.comment "Skipped: nesting limit reached"]
  | levels + 1, flow => each (entryOfFlow ctx (flowBlock ctx levels)) flow

/-- How many levels are left at a level of indentation. -/
def levelsFrom (settings : Settings) (level : Int) : Except Fault Nat := do
  return ((← settings.maxWalkDepth.most) + 1 - level).toNat

/-- Compiles a flow that starts at a level of indentation. -/
def flowAt (ctx : Context) (level : Int) (flow : Flow) : Pass Block := do
  flowBlock ctx (← liftM (levelsFrom ctx.settings level)) flow

end FlowScript.Program
