import FlowScript.Step.Kind
import FlowScript.Text.LetterCase
import FlowScript.Value.Written

/-!
# External calls

A request over HTTP or a command of the shell, whose result is bound to a name.
-/
namespace FlowScript.Construct

structure Call where
  kind : Option String
  resultName : Value
  url : Value
  method : String
  headers : Value
  body : Value
  command : Value

namespace Call

def resultKeys : List String := ["response_as", "as", "name"]

def ofFields (call : Fields) : Except Fault Call := do
  let method ← ((call.get "method").orElse (.text "GET")).shown
  return {
    kind := (call.get "type").text?
    resultName := (call.firstOf? resultKeys).getD (.text "response")
    url := call.get "url"
    method := Text.toUpper method
    headers := call.get "headers"
    body := call.get "body"
    command := call.get "command" }

def read? (step : Step) : Except Fault (Option Call) := (step.get "external_call").fields?.mapM ofFields

end Call

end FlowScript.Construct
