import FlowScript.Program.Pass
import FlowScript.Step.Kind

/-!
# Conditionals

The agent judges the condition; both branches are nested flows.
-/
namespace FlowScript.Program

open Pass

/-- `nested` compiles a flow one level deeper. -/
def conditionalBlock (ctx : Context) (nested : Flow → Pass Block) (step : Step) : Pass Block := do
  let logic := step.get "logic"
  if (logic.field "if").isNull then skip "Invalid logic step" (.map step)
  else
    let condition ← valueCode ctx (logic.field "if")
    let yes ← nested (logic.field "then").items
    let branch := Item.block (.whenTrue (ctx.agent.check condition)) (filled yes)
    if (logic.field "else").isNull then return [branch]
    else
      let no ← nested (logic.field "else").items
      return [branch, .block .otherwise (filled no)]

end FlowScript.Program
