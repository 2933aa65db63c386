import FlowScript.Construct.Action
import FlowScript.Program.Pass
import FlowScript.Number.Reading

/-!
# Actions as calls

An action becomes one awaited call on the agent. Its prompt is the only positional argument, its
options are named arguments in snake case. A pause sleeps instead.
-/
namespace FlowScript.Program

open Construct Pass

def scrollDirections : List String := ["up", "down", "left", "right"]

/-- The least number of milliseconds that has no double for its seconds: they lie half a step beyond the
largest one. -/
def endlessPause : Nat := 1000 * (Nat.pow 2 1024 - Nat.pow 2 970)

/-- Milliseconds as seconds. -/
def pauseSeconds : Value → Except Fault (Option Float)
  | .int n =>
    if n.natAbs < endlessPause then .ok (some (Number.nearest (n < 0) n.natAbs (-3)))
    else .error .pauseTooLong
  | .float x _ => .ok (some (x / 1000))
  | _ => .ok none

def pause (ctx : Context) (duration : Value) : Pass Block := do
  requireImport "import asyncio"
  match ← liftM (pauseSeconds duration) with
  | some seconds =>
    return [.line (.evaluate ("await asyncio.sleep(" ++ Number.floatText .program seconds ++ ")"))]
  | none =>
    let code ← valueCode ctx duration
    return [.line (.evaluate ("await asyncio.sleep(float(" ++ code ++ ") / 1000)"))]

/-- Options as named arguments; an option whose name cannot be written is left out. -/
def namedArguments (ctx : Context) : Fields → Pass (List Argument)
  | [] => pure []
  | (key, v) :: rest => do
    let name := Text.toSnake (← liftM key.shown)
    if isIdentifier name then
      let code ← valueCode ctx v
      let others ← namedArguments ctx rest
      return ⟨some name, code⟩ :: others
    else
      warn ("Skipped action option " ++ key.literal ++ ": not a valid argument name")
      namedArguments ctx rest

structure Invocation where
  prompt : Value
  options : Fields

/-- A scroll action may be prompted by a mere direction. -/
def Invocation.ofAction (action : Action) : Invocation :=
  match action.prompt with
  | .text s =>
    if action.keyword == "aiScroll" && scrollDirections.contains (Text.toLower s) then
      let options := action.options
      ⟨.null, if options.has "direction" then options
        else options ++ [(.text "direction", .text s)]⟩
    else ⟨action.prompt, action.options⟩
  | _ => ⟨action.prompt, action.options⟩

def arguments (ctx : Context) (invocation : Invocation) : Pass (List Argument) := do
  if invocation.prompt.isNull then namedArguments ctx invocation.options
  else
    let code ← valueCode ctx invocation.prompt
    let named ← namedArguments ctx invocation.options
    return ⟨none, code⟩ :: named

def actionBlock (ctx : Context) (step : Step) : Pass Block := do
  match Action.read? step with
  | none => skip "Unrecognized step" (.map step)
  | some action =>
    if action.keyword == "sleep" then pause ctx (step.get "sleep")
    else
      let arguments ← arguments ctx (.ofAction action)
      let call := ctx.agent.call (ctx.agent.method action.keyword) (arguments.map Argument.text)
      match action.resultName with
      | none => return [.line (.evaluate call)]
      | some given =>
        let name ← targetName (.text given) "result" "result"
        declare name
        return [.line (.assign name call)]

end FlowScript.Program
