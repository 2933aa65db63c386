import FlowScript.Construct.Transform
import FlowScript.Program.Expression
import FlowScript.Program.Pass

/-!
# Data transforms

Every stage of a transform becomes an assignment to the output variable. The first stage reads the
source, each later one reads the output of the stage before it.
-/
namespace FlowScript.Program

open Construct Pass

/-- An expression over items; values that are no texts are written as they are. -/
def expressionCode (ctx : Context) (target : Option String) : Value → Pass String
  | .text s => do
    if Expression.usesEnvironment s then requireImport "import os"
    let scope := (← get).scope
    return Expression.code scope.contains target s ctx.agent.lookup
  | v => valueCode ctx v

def fieldLiteral (v : Value) : Pass String := do
  if v.isNull then return "None" else return Text.quote (← liftM v.shown)

def filterCode (ctx : Context) (stage : Stage) (data : String) : Pass String := do
  let condition := stage.argumentOr ["condition", "predicate", "where"]
  if condition.isNull then
    warn "filter operation without a condition keeps every item"
    return "list(" ++ data ++ ")"
  else
    let code ← expressionCode ctx (some "item") condition
    return "[item for item in " ++ data ++ " if " ++ code ++ "]"

structure SortOrder where
  field : Value
  order : String

/-- The short argument of a sort is a field name and perhaps a direction. -/
def SortOrder.ofStage (stage : Stage) : Except Fault SortOrder := do
  let field := stage.params.firstOf ["by", "field"]
  let order := Text.toLower (← ((stage.params.get "order").orElse (.text "asc")).shown)
  match stage.argument with
  | .text s =>
    match Text.words s with
    | [] => return ⟨field, order⟩
    | [name] => return ⟨.text name, order⟩
    | name :: direction :: _ => return ⟨.text name, Text.toLower direction⟩
  | _ => return ⟨field, order⟩

def sortCode (stage : Stage) (data : String) : Pass String := do
  requireHelper .sortKey
  let sorting ← liftM (SortOrder.ofStage stage)
  if !(sorting.order == "asc" || sorting.order == "desc") then
    warn ("Unknown sort order " ++ Text.literal sorting.order ++ "; sorting ascending")
  let field ← fieldLiteral sorting.field
  return "sorted(" ++ data ++ ", key=lambda item: _sort_key(item, " ++ field ++
    (if sorting.order == "desc" then "), reverse=True)" else "))")

def mapCode (ctx : Context) (stage : Stage) (data : String) : Pass String := do
  let given := stage.params.firstOf ["template", "fields"]
  let expression :=
    if stage.argument.isNull then stage.params.get "expression" else stage.argument
  let template :=
    if given.isNull && expression.isNull && !stage.params.isEmpty then .map stage.params else given
  if template.isMap then
    let code ← valueCode ctx template
    return "[" ++ code ++ " for item in " ++ data ++ "]"
  else if expression.isNull then
    warn "map operation without a template or expression returns items unchanged"
    return "list(" ++ data ++ ")"
  else
    let code ← expressionCode ctx none expression
    return "[" ++ code ++ " for item in " ++ data ++ "]"

def reduceCode (ctx : Context) (stage : Stage) (data : String) : Pass String := do
  requireImport "import functools"
  let given := stage.argumentOr ["reducer", "expression"]
  if given.isNull then warn "reduce operation without a reducer expression; using 'acc'"
  let reducer := if given.isNull then .text "acc" else given
  let code ← expressionCode ctx none reducer
  let seed ← valueCode ctx ((stage.params.get? "initial").getD (.int 0))
  return "functools.reduce(lambda acc, item: " ++ code ++ ", " ++ data ++ ", " ++ seed ++ ")"

def boundCode (ctx : Context) (v : Value) : Pass String :=
  if v.isNull then pure "" else valueCode ctx v

structure Span where
  start : Value
  stop : Value

/-- The short argument of a slice is a list of its two ends. -/
def Span.ofStage (stage : Stage) : Span :=
  match stage.argument.items? with
  | some vs => ⟨vs[0]?.getD .null, vs[1]?.getD .null⟩
  | none => ⟨stage.params.get "start", stage.params.get "end"⟩

def sliceCode (ctx : Context) (stage : Stage) (data : String) : Pass String := do
  let span := Span.ofStage stage
  let first ← boundCode ctx span.start
  let last ← boundCode ctx span.stop
  return data ++ "[" ++ first ++ ":" ++ last ++ "]"

def uniqueCode (stage : Stage) (data : String) : Pass String := do
  requireHelper .unique
  match stage.keyField with
  | .null => return "_unique(" ++ data ++ ")"
  | .bool true => return "_unique(" ++ data ++ ")"
  | key => return "_unique(" ++ data ++ ", " ++ (← fieldLiteral key) ++ ")"

def flattenCode (ctx : Context) (stage : Stage) (data : String) : Pass String := do
  requireHelper .flatten
  let depth : Value :=
    match stage.argument with
    | .int n => .int n
    | _ => stage.params.get "depth"
  let code ← valueCode ctx (if depth.isNull then .int 1 else depth)
  return "_flatten(" ++ data ++ ", " ++ code ++ ")"

def groupByCode (stage : Stage) (data : String) : Pass String := do
  requireHelper .groupBy
  return "_group_by(" ++ data ++ ", " ++ (← fieldLiteral stage.keyField) ++ ")"

/-- The expression of a stage over the collection `data`. -/
def stageCode (ctx : Context) (stage : Stage) (data : String) : Pass String :=
  match stage.operation with
  | .filter => filterCode ctx stage data
  | .sort => sortCode stage data
  | .map => mapCode ctx stage data
  | .reduce => reduceCode ctx stage data
  | .slice => sliceCode ctx stage data
  | .unique => uniqueCode stage data
  | .distinct => uniqueCode stage data
  | .flatten => flattenCode ctx stage data
  | .groupBy => groupByCode stage data

def stagesBlock (ctx : Context) (output : String) (data : String) : List Stage → Pass Block
  | [] => pure []
  | stage :: rest => do
    let code ← stageCode ctx stage data
    let others ← stagesBlock ctx output output rest
    return .line (.assign output code) :: others

def unknownOperation (entry : Value) : Pass Block := do
  let quoted ← jsonOf entry
  warn ("Skipped unrecognized data_transform operation: " ++ quoted)
  return [.comment ("Skipped unrecognized operation: " ++ quoted)]

def sourceCode (ctx : Context) (source : Value) (output : String) : Pass String :=
  if source.isNull then do
    warn ("data_transform '" ++ output ++ "' has no source; using an empty list")
    return "[]"
  else collectionCode ctx source

def transformBlock (ctx : Context) (step : Step) : Pass Block := do
  match ← liftM (Transform.read? step) with
  | none => skip "Invalid data_transform step" (.map step)
  | some transform =>
    let output ← targetName transform.output Transform.defaultOutput "transform output"
    let source ← sourceCode ctx transform.source output
    let comments ← each unknownOperation transform.unknown
    declare output
    if transform.stages.isEmpty then
      return comments ++ [.line (.assign output ("list(" ++ source ++ ")"))]
    else
      let assignments ← stagesBlock ctx output source transform.stages
      return comments ++ assignments

end FlowScript.Program
