import FlowScript.Construct.Guard
import FlowScript.Construct.Import
import FlowScript.Construct.Loop
import FlowScript.Construct.Parallel
import FlowScript.Construct.Transform
import FlowScript.Diagnostic
import FlowScript.Marker
import FlowScript.Settings
import FlowScript.Step.Walk
import FlowScript.Text.LetterCase

/-!
# Constructs of extended documents

Every step is checked for the fields that its construct needs. The checks of a step are independent
of the steps around it.
-/
namespace FlowScript.Validation

open Construct

def constructError (message location : String) : Diagnostic := .error .construct message location

def constructWarning (message location : String) : Diagnostic := .warning .construct message location

def safetyWarning (message location : String) : Diagnostic := .warning .safety message location

/-- A diagnostic that is due only under a condition. -/
def whenever (condition : Bool) (d : Diagnostic) : List Diagnostic := if condition then [d] else []

/-- A diagnostic that shows a value and is due only under a condition. -/
def wheneverShown (condition : Bool) (v : Value) (d : String → Diagnostic) :
    Except Fault (List Diagnostic) := do
  if condition then return [d (← v.shown)] else return []

/-- How a number compares with an integer; values that are no numbers do not compare. -/
def compareTo (v : Value) (bound : Int) : Option Ordering :=
  match v with
  | .int n => some (compare n bound)
  | .float x _ => Number.compareInt? x bound
  | _ => none

def isAtMost (v : Value) (bound : Int) : Bool :=
  match compareTo v bound with
  | some .lt => true
  | some .eq => true
  | _ => false

/-- Whether a value is a number beyond a limit. -/
def isBeyond (v : Value) (limit : Limit) : Except Fault Bool :=
  if v.isNumber then limit.isPassedBy v else .ok false

def checkVariables (step : Step) (path : String) : List Diagnostic :=
  whenever (!(step.get "variables").isMap)
    (constructError "'variables' must be a mapping of names to values." (path ++ "/variables"))

def checkBranch (logic : Fields) (path branch : String) : List Diagnostic :=
  let steps := logic.get branch
  whenever (!steps.isNull && !steps.isList)
    (constructError ("'logic." ++ branch ++ "' must be a list of steps.") (path ++ "/" ++ branch))

def checkLogic (step : Step) (stepPath : String) : List Diagnostic :=
  let path := stepPath ++ "/logic"
  match (step.get "logic").fields? with
  | none => [constructError "'logic' must be a mapping." path]
  | some logic =>
    whenever (logic.get "if").isNull
        (constructError "'logic' construct must have an 'if' condition." (path ++ "/if")) ++
      whenever (logic.get "then").isNull
        (constructError "'logic' construct must have a 'then' branch." (path ++ "/then")) ++
      checkBranch logic path "then" ++ checkBranch logic path "else"

def checkWhile (settings : Settings) (loop : Loop) (path : String) :
    Except Fault (List Diagnostic) := do
  let bound := loop.maxIterations
  let missing := whenever loop.condition.isNull
    (constructError "Loop of type 'while' requires a 'condition' field." (path ++ "/condition"))
  if bound.isNull then
    return missing ++
      [safetyWarning ("While loop has no 'maxIterations' safety bound; defaulting to " ++
        (← settings.defaultMaxIterations.shown) ++ ".") (path ++ "/maxIterations")]
  else
    return missing ++ (← wheneverShown (isAtMost bound 0) bound fun text =>
      constructWarning ("While loop 'maxIterations' is " ++ text ++ "; the body will never run.")
        (path ++ "/maxIterations"))

def checkRepeat (settings : Settings) (loop : Loop) (path : String) :
    Except Fault (List Diagnostic) := do
  let count := loop.count
  if count.isNull then
    return [constructError "Loop of type 'repeat' requires a 'count' field (alias: times)."
      (path ++ "/count")]
  else if isAtMost count 0 then
    wheneverShown true count fun text =>
      constructWarning ("Repeat loop count is " ++ text ++ "; the body will never run.")
        (path ++ "/count")
  else if ← isBeyond count settings.maxRepeatCount then
    let threshold ← settings.maxRepeatCount.shown
    wheneverShown true count fun text =>
      safetyWarning ("Repeat loop count " ++ text ++ " exceeds the safety threshold of " ++
        threshold ++ ".") (path ++ "/count")
  else return []

/-- The type of a loop and the fields that the type asks for. -/
def checkLoopKind (settings : Settings) (loop : Loop) (path : String) :
    Except Fault (List Diagnostic) :=
  match loop.kind with
  | none =>
    .ok [constructError "'loop' construct must have a 'type' (for, while, or repeat)."
      (path ++ "/type")]
  | some "for" =>
    .ok (whenever loop.items.isNull
      (constructError "Loop of type 'for' requires an 'items' field (aliases: in, collection)."
        (path ++ "/items")))
  | some "while" => checkWhile settings loop path
  | some "repeat" => checkRepeat settings loop path
  | some other =>
    .ok [constructError ("Invalid loop type '" ++ other ++ "'. Must be one of: " ++
      String.intercalate ", " Loop.kinds ++ ".") (path ++ "/type")]

def checkLoopFlow (loop : Fields) (path : String) : List Diagnostic :=
  match loop.flow? with
  | none => [constructWarning "'loop' is missing a 'flow' or 'steps' list." (path ++ "/flow")]
  | some [] => [constructWarning "'loop' has an empty flow/steps list." (path ++ "/flow")]
  | some _ => []

def checkLoop (settings : Settings) (step : Step) (stepPath : String) :
    Except Fault (List Diagnostic) := do
  let path := stepPath ++ "/loop"
  match (step.get "loop").fields? with
  | none => return [constructError "'loop' must be a mapping." path]
  | some es => return (← checkLoopKind settings (Loop.ofFields es) path) ++ checkLoopFlow es path

def checkImport (step : Step) (path : String) : List Diagnostic :=
  whenever (step.get "import").nonBlank?.isNone
    (constructError "'import' must be a non-empty string path." (path ++ "/import"))

def checkUse (step : Step) (path : String) : List Diagnostic :=
  whenever (step.get "use").nonBlank?.isNone
      (constructError "'use' must be a non-empty string (flow reference or path)." (path ++ "/use")) ++
    whenever (step.has "with" && !(step.get "with").isMap)
      (constructError "'with' must be a mapping of parameter names to values." (path ++ "/with"))

def checkGuard (step : Step) (stepPath : String) : List Diagnostic :=
  let path := stepPath ++ "/try"
  let guard := Guard.read step
  whenever guard.body.isNone
      (constructError "'try' construct must have a 'flow' (or 'steps') list." (path ++ "/flow")) ++
    whenever (guard.handler.isNone && guard.cleanup.isNone)
      (constructError "'try' construct must have a 'catch' or 'finally' block." path)

/-- The methods of requests, in alphabetical order. -/
def httpMethods : List String := ["DELETE", "GET", "HEAD", "OPTIONS", "PATCH", "POST", "PUT"]

def checkMethod (method : Value) (path : String) : Except Fault (List Diagnostic) := do
  if method.isNull then return []
  let name ← method.shown
  return whenever (!httpMethods.contains (Text.toUpper name))
    (constructWarning ("Unknown HTTP method '" ++ name ++ "'. Expected one of: " ++
      String.intercalate ", " httpMethods ++ ".") (path ++ "/method"))

def checkHttp (call : Fields) (path : String) : Except Fault (List Diagnostic) := do
  let method ← checkMethod (call.get "method") path
  return whenever (!(call.get "url").isFilled)
    (constructError "HTTP external_call requires a 'url'." (path ++ "/url")) ++ method

def checkShell (call : Fields) (path : String) : List Diagnostic :=
  let command := call.get "command"
  if !command.isFilled then
    [constructError "Shell external_call requires a 'command'." (path ++ "/command")]
  else
    whenever (!(Marker.innersOf command).isEmpty)
      (safetyWarning ("Shell command interpolates $\x7b...\x7d values; " ++
        "untrusted input can inject commands.") (path ++ "/command"))

def checkCall (step : Step) (stepPath : String) : Except Fault (List Diagnostic) :=
  let path := stepPath ++ "/external_call"
  match (step.get "external_call").fields? with
  | none => .ok [constructError "'external_call' must be a mapping." path]
  | some call =>
    match call.get "type" with
    | .null =>
      .ok [constructError "'external_call' must have a 'type' (http or shell)." (path ++ "/type")]
    | .text "http" => checkHttp call path
    | .text "shell" => .ok (checkShell call path)
    | other => wheneverShown true other fun text =>
        constructError ("Invalid external_call type '" ++ text ++ "'. Must be 'http' or 'shell'.")
          (path ++ "/type")

def checkParallel (step : Step) (stepPath : String) : List Diagnostic :=
  let path := stepPath ++ "/parallel"
  let group := step.get "parallel"
  if !group.isMap then [constructError "'parallel' must be a mapping." path]
  else
    match group.branches? with
    | none => [constructError "'parallel' construct must have a 'tasks' or 'branches' list."
        (path ++ "/tasks")]
    | some branches =>
      (branches.zipIdx.filter fun (branch, _) => branch.flow?.isNone).map fun (_, i) =>
        constructWarning "Parallel branch has no 'flow' or 'steps' list."
          (path ++ "/tasks[" ++ Number.natText i ++ "]")

def operationNames : String := String.intercalate ", " (Operation.all.map Operation.name)

def checkFlatOperation (operation : Value) (path : String) : Except Fault (List Diagnostic) :=
  let invalid (text : String) := constructError ("Invalid data_transform operation '" ++ text ++
    "'. Must be one of: " ++ operationNames ++ ".") (path ++ "/operation")
  match operation with
  | .null => .ok []
  | .text s => .ok (whenever (Operation.named? s).isNone (invalid s))
  | v => if v.isHashable then wheneverShown true v invalid else .error .operationNotHashable

def checkChain (operations : Value) (path : String) : List Diagnostic :=
  match operations.items? with
  | some entries =>
    (entries.zipIdx.filter fun (entry, _) => (Transform.chained? entry).isNone).map fun (_, i) =>
      constructError ("Unrecognized data_transform operation. Must be one of: " ++
        operationNames ++ ".") (path ++ "/operations[" ++ Number.natText i ++ "]")
  | none =>
    whenever (!operations.isNull)
      (constructError "'data_transform.operations' must be a list." (path ++ "/operations"))

def checkTransform (step : Step) (stepPath : String) : Except Fault (List Diagnostic) := do
  let path := stepPath ++ "/data_transform"
  match (step.get "data_transform").fields? with
  | none => return [constructError "'data_transform' must be a mapping." path]
  | some transform =>
    let operation := transform.get "operation"
    let operations := transform.get "operations"
    let flat ← checkFlatOperation operation path
    return whenever (operation.isNull && operations.isNull)
        (constructError "'data_transform' needs an 'operation' or an 'operations' list." path) ++
      flat ++ checkChain operations path ++
      whenever (transform.firstOf ["source", "input"]).isNull
        (constructWarning "'data_transform' has no 'source' (or 'input') collection."
          (path ++ "/source"))

/-- The keys of a step as a sorted list. -/
def keyList (step : Step) : Except Fault String := do
  let keys := (← step.mapM fun e => e.1.shown).mergeSort fun a b => a ≤ b
  return (Value.list (keys.map .text)).literal

def checkUnknown (step : Step) (path : String) : Except Fault (List Diagnostic) := do
  return [constructWarning ("Unrecognized step with keys " ++ (← keyList step) ++
    "; it will be emitted as a comment.") path]

/-- What is wrong with a single step. -/
def checkStep (settings : Settings) (step : Step) (path : String) : Except Fault (List Diagnostic) :=
  match step.kind with
  | .variables => .ok (checkVariables step path)
  | .logic => .ok (checkLogic step path)
  | .loop => checkLoop settings step path
  | .importing => .ok (checkImport step path)
  | .transform => checkTransform step path
  | .guarded => .ok (checkGuard step path)
  | .call => checkCall step path
  | .parallel => .ok (checkParallel step path)
  | .use => .ok (checkUse step path)
  | .action => .ok []
  | .unknown => checkUnknown step path

def checkEvent (settings : Settings) : Walk.Event → Except Fault (List Diagnostic)
  | .visit step path => checkStep settings step path
  | .limit path => do
    return [safetyWarning ("Nesting exceeds " ++ (← settings.maxWalkDepth.shown) ++
      " levels; deeper steps were not validated.") path]

/-- Checks every step of every task. -/
def checkExtended (settings : Settings) (document : Value) : Except Fault (List Diagnostic) := do
  let levels ← settings.walkLevels
  let found ← (document.walkTasks (fun _ => true) levels).mapM (checkEvent settings)
  return found.flatten

end FlowScript.Validation
