import FlowScript.Program.Flow
import FlowScript.Program.Margin
import FlowScript.Program.Script

/-!
# Documents

The tasks of a document are compiled in order into one body, after its imports and its variables.
-/
namespace FlowScript.Program

open Pass

/-- The name of a task, or its position if it has none. -/
def taskName (task : Value) (i : Nat) : String :=
  ((task.field "name").nonBlank?).getD ("Task " ++ Number.natText (i + 1))

/-- The line that announces a task among others. -/
def taskTitle (name : String) (i total : Nat) : Block :=
  if total ≤ 1 then []
  else (if i == 0 then [] else [.blank]) ++ [.comment ("--- " ++ name ++ " ---")]

/-- A task may write one variable to a file. -/
def outputBlock (ctx : Context) (output : Value) : Pass Block := do
  if output.isNull then return []
  else if !((output.field "filePath").isFilled && (output.field "dataName").isFilled) then
    warn "Task output needs 'filePath' and 'dataName'; it was skipped"
    return []
  else
    let dataName := output.field "dataName"
    match dataName.identifier? with
    | none =>
      let spelled ← liftM dataName.spelled
      warn ("Task output dataName " ++ spelled ++
        " is not a valid variable name; it was skipped")
      return []
    | some name =>
      requireHelper .writeOutput
      let path ← valueCode ctx (output.field "filePath")
      return [.line (.evaluate ("_write_output(" ++ path ++ ", " ++ name ++ ")"))]

/-- A task that may fail without stopping the others. -/
def isolated (name : String) (body : Block) : Block :=
  [.block .attempt (filled body),
   .block (.handle (some "_task_error"))
    [.line (.evaluate ("logger.warning(\"Task %s failed: %s\", " ++ Text.quote name ++
      ", _task_error)"))]]

def taskFlowBlock (ctx : Context) (task : Value) (name : String) (flow : Flow) : Pass Block := do
  match task.field "continueOnError" with
  | .bool true =>
    requireHelper .logger
    let body ← flowAt ctx 2 flow
    return isolated name body
  | _ => flowAt ctx 1 flow

/-- One of `total` tasks. -/
def taskBlock (ctx : Context) (total : Nat) (numbered : Value × Nat) : Pass Block := do
  let name := taskName numbered.1 numbered.2
  let title := taskTitle name numbered.2 total
  match numbered.1.taskFlow? with
  | none =>
    warn ("Skipped task '" ++ name ++ "': it has no flow list")
    return title ++ [.comment ("Skipped task " ++ Text.quote name ++ ": no flow list")]
  | some flow =>
    let body ← taskFlowBlock ctx numbered.1 name flow
    let output ← outputBlock ctx (numbered.1.field "output")
    return title ++ body ++ output

/-- Imports and variables of the document, set off by a blank line. -/
def prologue (ctx : Context) (document : Fields) : Pass Block := do
  let imports ← documentImports ctx (document.get "import")
  let globals ← bindingsBlock ctx ((document.get "variables").fields?.getD [])
  let block := imports ++ globals
  return if block.isEmpty then [] else block ++ [.blank]

def documentBlock (ctx : Context) (document : Fields) : Pass Block := do
  let first ← prologue ctx document
  let tasks := (document.get "tasks").items
  let body ← each (taskBlock ctx tasks.length) tasks.zipIdx
  return first ++ body

/-- A compiled document. -/
structure Result where
  code : String
  warnings : List String

def platformWarnings (template : Template) (platform : Platform) : List String :=
  if template == .playwright && platform.key != "web" then
    ["The playwright template drives a desktop browser; the '" ++ platform.key ++
      "' platform config is ignored"]
  else []

/-- The entries of a document that can be compiled at all. -/
def compilable (document : Value) : Except Refusal Fields :=
  match document.fields? with
  | some es =>
    if es.isEmpty then .error .emptyDocument
    else if (es.get "tasks").items.isEmpty then .error .noTasks
    else .ok es
  | none => .error .emptyDocument

/-- Compiles a document that the program will call `source`. -/
def compileDocument (ctx : Context) (template : Template) (source : String) (document : Value) :
    Except Failure Result := do
  let fields ← liftRefusal (compilable document)
  let (block, state) ← liftFault ((documentBlock ctx fields).run {})
  let body ← liftFault ((filled block).written ctx.settings.indent 1)
  let platform ← liftFault (Platform.ofDocument fields)
  let code ← Script.render {
    body
    needs := state.needs
    agent := ctx.agent
    platform
    factory := ctx.settings.agentFactory
    source } template
  return ⟨code, state.warnings ++ platformWarnings template platform⟩

end FlowScript.Program
