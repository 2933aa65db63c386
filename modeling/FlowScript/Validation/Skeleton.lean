import FlowScript.Detection
import FlowScript.Diagnostic
import FlowScript.Program.Platform
import FlowScript.Step.Nested

/-!
# The skeleton of a document

The root mapping, the platform block, the agent block, and the list of tasks with their names, flows
and outputs.
-/
namespace FlowScript.Validation

open Program (Platform)

/-- The fields that a platform block may have. -/
def platformFields : String → List String
  | "web" => [
    "url", "serve", "userAgent", "viewportWidth", "viewportHeight", "viewport_width",
    "viewport_height", "deviceScaleFactor", "cookie", "output", "unstableLogContent",
    "forceSameTabNavigation", "bridgeMode", "closeNewTabsAfterDisconnect", "acceptInsecureCerts",
    "waitForNetworkIdle", "chromeArgs", "chrome_args", "headless", "aiActionContext"]
  | "android" => [
    "deviceId", "launch", "output", "unstableLogContent", "aiActionContext", "androidAdbPath",
    "remoteAdbHost", "remoteAdbPort", "imeStrategy", "displayId", "autoDismissKeyboard",
    "keyboardDismissStrategy", "screenshotResizeScale", "alwaysRefreshScreenInfo"]
  | "ios" => [
    "wdaPort", "wdaHost", "launch", "output", "unstableLogContent", "aiActionContext",
    "autoDismissKeyboard"]
  | "computer" => [
    "displayId", "launch", "output", "unstableLogContent", "aiActionContext", "headless"]
  | _ => []

def skeletonError (message location : String) : Diagnostic := .error .skeleton message location

def skeletonWarning (message location : String) : Diagnostic := .warning .skeleton message location

def listed (names : List String) : String := String.intercalate ", " names

def checkEngine (document : Fields) : Except Fault (List Diagnostic) := do
  let engine := document.get "engine"
  if engine.isNull || (← Mode.spelled? engine).isSome then return []
  return [skeletonWarning (Detection.unknownEngine engine) "/engine"]

def unknownField (platform : String) (key : Value) : Except Fault Diagnostic := do
  let name ← key.shown
  return skeletonWarning ("Unknown " ++ platform ++ " config field '" ++ name ++ "'.")
    ("/" ++ platform ++ "/" ++ name)

/-- One platform block, which is empty or a mapping of known fields. -/
def checkPlatformBlock (platform : String) (block : Value) : Except Fault (List Diagnostic) :=
  match block.fields? with
  | some es =>
    (es.filter fun e => !(platformFields platform).any e.1.isTextOf).mapM fun e =>
      unknownField platform e.1
  | none =>
    .ok (if block.isNull then []
      else [skeletonError ("'" ++ platform ++ "' config must be a mapping.") ("/" ++ platform)])

/-- There has to be exactly one platform block. -/
def checkPlatform (document : Fields) : Except Fault (List Diagnostic) := do
  let platforms := Platform.keys.filter fun key => document.has key
  if platforms.isEmpty then
    return [skeletonError ("Document must contain a platform config key at root level: " ++
      listed Platform.keys ++ ".") "/"]
  let blocks ← platforms.mapM fun platform => checkPlatformBlock platform (document.get platform)
  return (if platforms.length == 1 then []
     else [skeletonError ("Document must contain exactly one platform config key, found: " ++
       listed platforms ++ ".") "/"]) ++ blocks.flatten

/-- A cache strategy is of no use without an identifier. -/
def checkAgent (document : Fields) : List Diagnostic :=
  let agent := document.get "agent"
  match agent.fields? with
  | some es =>
    let cache := es.get "cache"
    if (cache.field "strategy").isNull || (cache.field "id").isFilled then []
    else [skeletonWarning ("agent.cache.strategy is set but agent.cache \"id\" is missing; " ++
      "caching is disabled without an id.") "/agent/cache"]
  | none => if agent.isNull then [] else [skeletonError "'agent' must be a mapping." "/agent"]

def taskPath (i : Nat) : String := "/tasks[" ++ Number.natText i ++ "]"

/-- The name of a task, given the names of the tasks before it with their positions. -/
def checkTaskName (seen : List (String × Nat)) (task : Fields) (i : Nat) : List Diagnostic :=
  match (task.get "name").text? with
  | some name =>
    if Text.strip name == "" then [unnamed i]
    else
      match seen.lookup name with
      | some first => [skeletonWarning ("Duplicate task name '" ++ name ++ "' (first used by " ++
          taskPath first ++ ").") (taskPath i ++ "/name")]
      | none => []
  | none => [unnamed i]
where
  unnamed (i : Nat) : Diagnostic :=
    skeletonError "Task must have a non-empty string 'name'." (taskPath i ++ "/name")

def checkTaskFlow (task : Fields) (i : Nat) : List Diagnostic :=
  if task.flow?.isSome then []
  else [skeletonError "Task must have a 'flow' list." (taskPath i ++ "/flow")]

def checkTaskOutput (task : Fields) (i : Nat) : List Diagnostic :=
  let output := task.get "output"
  if output.isNull || ((output.field "filePath").isFilled && (output.field "dataName").isFilled) then []
  else [skeletonWarning "Task 'output' should be a mapping with 'filePath' and 'dataName'."
    (taskPath i ++ "/output")]

/-- The names seen after a task: only a first use is remembered. -/
def remember (seen : List (String × Nat)) (task : Fields) (i : Nat) : List (String × Nat) :=
  match (task.get "name").text? with
  | some name =>
    if Text.strip name == "" || (seen.lookup name).isSome then seen else seen ++ [(name, i)]
  | none => seen

def checkTaskList (seen : List (String × Nat)) (i : Nat) : List Value → List Diagnostic
  | [] => []
  | v :: rest =>
    match v.fields? with
    | some task =>
      checkTaskName seen task i ++ checkTaskFlow task i ++ checkTaskOutput task i ++
        checkTaskList (remember seen task i) (i + 1) rest
    | none =>
      skeletonError "Each task must be a mapping." (taskPath i) :: checkTaskList seen (i + 1) rest

def checkTasks (document : Fields) : List Diagnostic :=
  let tasks := document.get "tasks"
  match tasks.items? with
  | some [] => [skeletonError "'tasks' list must not be empty." "/tasks"]
  | some entries => checkTaskList [] 0 entries
  | none =>
    if tasks.isNull then
      [skeletonError "Document must contain a 'tasks' list at root level." "/tasks"]
    else [skeletonError "'tasks' must be a list." "/tasks"]

def checkSkeleton (document : Fields) : Except Fault (List Diagnostic) := do
  let engine ← checkEngine document
  let platform ← checkPlatform document
  return engine ++ platform ++ checkAgent document ++ checkTasks document

end FlowScript.Validation
