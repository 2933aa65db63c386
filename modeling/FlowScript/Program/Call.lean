import FlowScript.Construct.Call
import FlowScript.Program.Pass

/-!
# External calls

A request goes through a helper of the generated program; a command runs synchronously. Both bind
their result.
-/
namespace FlowScript.Program

open Construct Pass

/-- The headers or body of a request; markers below the resolution limit stay as they are. -/
def payloadCode (ctx : Context) (v : Value) (what : String) : Pass String := do
  let depth ← liftM v.measuredDepth
  if ← liftM (ctx.settings.maxResolveDepth.isPassedBy (.int depth)) then
    let limit ← liftM ctx.settings.maxResolveDepth.shown
    warn ("HTTP " ++ what ++ " nests deeper than " ++ limit ++
      " levels; markers past that depth are emitted verbatim")
  valueCode ctx v

def payloadArgument (ctx : Context) (v : Value) (what : String) : Pass (List String) :=
  if v.isNull then pure []
  else do
    let code ← payloadCode ctx v what
    return [what ++ "=" ++ code]

def requestCode (ctx : Context) (call : Call) : Pass String := do
  requireHelper .httpRequest
  let url ← valueCode ctx call.url
  let headers ← payloadArgument ctx call.headers "headers"
  let body ← payloadArgument ctx call.body "body"
  let arguments := Text.quote call.method :: url :: (headers ++ body)
  return "await _http_request(" ++ separated arguments ++ ")"

def commandCode (ctx : Context) (call : Call) : Pass String := do
  requireImport "import subprocess"
  let command ← valueCode ctx call.command
  return "subprocess.run(" ++ command ++
    ", shell=True, check=True, capture_output=True, text=True).stdout"

def bindCall (call : Call) (expression : Pass String) : Pass Block := do
  let code ← expression
  let name ← targetName call.resultName "response" "response"
  declare name
  return [.line (.assign name code)]

def callBlock (ctx : Context) (step : Step) : Pass Block := do
  match ← liftM (Call.read? step) with
  | none => skip "Invalid external_call step" (.map step)
  | some call =>
    if call.kind == some "http" && call.url.isFilled then bindCall call (requestCode ctx call)
    else if call.kind == some "shell" && call.command.isFilled then
      bindCall call (commandCode ctx call)
    else skip "Invalid external_call step" (.map step)

end FlowScript.Program
