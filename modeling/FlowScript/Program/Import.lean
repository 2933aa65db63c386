import FlowScript.Construct.Import
import FlowScript.File.Path
import FlowScript.Program.Pass

/-!
# Imports and sub-flows

The extension of a file decides how it is bound: JSON as its data, a document as a reference to a
sub-flow that runs later or, without a name, at once, a program as a module, and anything else as its
path.
-/
namespace FlowScript.Program

open Construct Pass

def paramsCode (ctx : Context) (params : Value) : Pass (Option String) :=
  if params.isNull then pure none
  else do
    let code ← valueCode ctx params
    return some code

def jsonLoadCode (path : String) : Pass String := do
  requireImport "import json"
  requireImport "from pathlib import Path"
  return "json.loads(Path(" ++ path ++ ").read_text(encoding='utf-8'))"

def yamlLoadCode (path : String) : Pass String := do
  requireImport "import yaml"
  requireImport "from pathlib import Path"
  return "yaml.safe_load(Path(" ++ path ++ ").read_text(encoding='utf-8'))"

/-- The expression that an import is bound to. -/
def importCode (path extension code : String) (asData : Bool) : Pass String :=
  if extension == ".json" then jsonLoadCode code
  else if File.documentExtensions.contains extension then
    if asData then yamlLoadCode code else pure code
  else if extension == ".py" then do
    requireHelper .loadModule
    return "_load_module(" ++ code ++ ")"
  else do
    if !Marker.hasMarker path then
      warn ("Import '" ++ path ++ "' has an unsupported extension; binding the path only")
    return code

/-- The name that an import is bound to; none if it has none that can be written. -/
def importName (given : Option String) : Pass (Option String) :=
  match given with
  | none => pure none
  | some s => do
    let name ← targetName (.text s) "" "import alias"
    return if name == "" then none else some name

/-- `path` is the path that the import names. -/
def importBlock (ctx : Context) (imported : Import) (path : String) : Pass Block := do
  let asData := imported.kind == some .data
  let code ← valueCode ctx (.text path)
  let extension := File.extension path
  let name ← importName imported.boundName
  match name with
  | some bound =>
    let expression ← importCode path extension code asData
    declare bound
    return [.line (.assign bound expression)]
  | none =>
    if File.documentExtensions.contains extension && !asData then
      let params ← paramsCode ctx imported.params
      return [.line (.evaluate (ctx.agent.runFlow code params))]
    else
      let expression ← importCode path extension code asData
      warn ("Import '" ++ path ++ "' has no 'as' alias; its value is discarded")
      return [.line (.evaluate expression)]

def importStepBlock (ctx : Context) (step : Step) : Pass Block :=
  let imported := Import.ofStep step
  match imported.path.nonBlank? with
  | some path => importBlock ctx imported path
  | none => skip "Invalid import step" (.map step)

/-- A flow entry with a usable name is always a deferred reference. -/
def entryBlock (ctx : Context) (imported : Import) (path : String) : Pass Block := do
  if imported.kind == some .flow then
    let name ← importName (imported.boundName.filter (· != ""))
    match name with
    | some bound =>
      declare bound
      let code ← valueCode ctx (.text path)
      return [.line (.assign bound code)]
    | none => importBlock ctx imported path
  else importBlock ctx imported path

def documentImport (ctx : Context) (entry : Value) : Pass Block :=
  match (Import.ofEntry? entry).bind fun i => i.path.text?.map fun path => (i, path) with
  | some (imported, path) => entryBlock ctx imported path
  | none => do
    let quoted ← jsonOf entry
    warn ("Skipped invalid import entry: " ++ quoted)
    return [.comment ("Skipped invalid import entry: " ++ quoted)]

/-- The imports of a document. -/
def documentImports (ctx : Context) (entries : Value) : Pass Block :=
  each (documentImport ctx) entries.items

def useBlock (ctx : Context) (step : Step) : Pass Block := do
  let use := Use.ofStep step
  match use.reference.nonBlank? with
  | none => skip "Invalid use step" (.map step)
  | some s =>
    let inScope := (← get).scope.contains s
    let reference ←
      match use.reference.reference? ctx.agent.lookup with
      | some expression => pure expression
      | none => if inScope then pure s else valueCode ctx use.reference
    let params ← paramsCode ctx use.params
    return [.line (.evaluate (ctx.agent.runFlow reference params))]

end FlowScript.Program
