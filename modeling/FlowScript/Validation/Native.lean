import FlowScript.Detection
import FlowScript.Diagnostic
import FlowScript.Step.Walk

/-!
# Native documents

A document that runs without being compiled must not rely on extended keywords, and some of its
actions must be written in the flat form.
-/
namespace FlowScript.Validation

/-- The actions whose extra field is lost when it is written inside the action. -/
def flatFormFields : List (String × String) := [
  ("aiInput", "value"), ("aiKeyboardPress", "keyName"), ("aiQuery", "name"),
  ("aiWaitFor", "timeout"), ("aiAssert", "errorMessage"), ("aiScroll", "distance")]

/-- A warning for every extended keyword, wherever it stands. -/
def checkKeywords (levels : Nat) (document : Value) : List Diagnostic :=
  ((document.keys levels "").filter fun k => (Feature.ofKeyword? k.key).isSome).map fun k =>
    .warning .compatibility ("Extended keyword '" ++ k.key ++
      "' found in native mode and will be ignored by the automation engine. " ++
      "Declare 'engine: extended' or remove this construct.") k.path

def checkFlatForm (visit : Walk.Visit) : List Diagnostic :=
  (flatFormFields.filter fun (action, name) =>
    (visit.step.get action).fields?.any fun es => es.has name).map fun (action, name) =>
      .warning .compatibility ("'" ++ action ++ "' uses nested-object form; write '" ++ name ++
        "' as a sibling of '" ++ action ++ "' or it is dropped at run time.")
        (visit.path ++ "/" ++ action ++ "/" ++ name)

def checkNative (settings : Settings) (document : Value) : Except Fault (List Diagnostic) := do
  let levels ← settings.walkLevels
  document.checkAllKeys levels
  return checkKeywords levels document ++
    (Walk.visits (document.walkTasks (fun _ => true) levels)).flatMap checkFlatForm

end FlowScript.Validation
