import FlowScript.Construct.Loop
import FlowScript.Program.Pass

/-!
# Loops

A loop over a collection and a loop of a fixed number of rounds are plain loops. A loop on a condition
is always bounded: it counts its rounds in a variable of its own and stops after a limit.
-/
namespace FlowScript.Program

open Construct Pass

/-- The base of the names of round counters. -/
def counterBase : String := "_while_iter"

/-- A number of rounds, rounded toward zero if it is a float. -/
def wholeCount? : Value → Except Fault (Option Int)
  | .int n => .ok (some n)
  | .float x _ =>
    match Number.decode x with
    | .notANumber => .error .countNotANumber
    | .infinite _ => .error .infiniteCount
    | .finite v => .ok (some v.truncate)
  | _ => .ok none

def countCode (ctx : Context) (v : Value) : Pass String := do
  match ← liftM (wholeCount? v) with
  | some n => liftM (Value.writtenInt n)
  | none =>
    match v.reference? ctx.agent.lookup with
    | some expression => return "int(" ++ expression ++ ")"
    | none =>
      let code ← valueCode ctx v
      return "int(" ++ code ++ ")"

def forBlock (ctx : Context) (nested : Flow → Pass Block) (loop : Loop) : Pass Block := do
  let items ← collectionCode ctx loop.items
  let item ← targetName loop.itemVar "item" "loop item"
  declare item
  if loop.indexVar.isNull then
    let body ← nested loop.flow
    return [.block (.forEach none item items) (filled body)]
  else
    let index ← targetName loop.indexVar "index" "loop index"
    declare index
    let body ← nested loop.flow
    return [.block (.forEach (some index) item items) (filled body)]

/-- The counter that the author names, or a fresh one. -/
def counterName (loop : Loop) : Pass String :=
  match loop.counterVar.identifier? with
  | some name => do
    declare name
    return name
  | none => declareFresh counterBase

def whileBlock (ctx : Context) (nested : Flow → Pass Block) (loop : Loop) : Pass Block := do
  let counter ← counterName loop
  let bound ←
    if loop.maxIterations.isNull then liftM ctx.settings.defaultMaxIterations.spelled
    else countCode ctx loop.maxIterations
  let condition ← valueCode ctx loop.condition
  let body ← nested loop.flow
  return [.line (.start counter),
    .block (.bounded counter bound (ctx.agent.check condition)) (body ++ [.line (.increment counter)])]

def repeatBlock (ctx : Context) (nested : Flow → Pass Block) (loop : Loop) : Pass Block := do
  let index ←
    if loop.indexVar.isNull then pure "i" else targetName loop.indexVar "i" "repeat index"
  declare index
  let count ← countCode ctx loop.count
  let body ← nested loop.flow
  return [.block (.counted index count) (filled body)]

/-- What is written in place of a loop that lacks the field it needs. -/
def missing (kind field : String) : String :=
  "Loop of type '" ++ kind ++ "' without '" ++ field ++ "'"

def loopBlock (ctx : Context) (nested : Flow → Pass Block) (step : Step) : Pass Block :=
  match Loop.read? step with
  | none => skip "Invalid loop step" (.map step)
  | some loop =>
    match loop.kind with
    | some "for" =>
      if loop.items.isNull then skip (missing "for" "items") (.map step)
      else forBlock ctx nested loop
    | some "while" =>
      if loop.condition.isNull then skip (missing "while" "condition") (.map step)
      else whileBlock ctx nested loop
    | some "repeat" =>
      if loop.count.isNull then skip (missing "repeat" "count") (.map step)
      else repeatBlock ctx nested loop
    | _ => skip "Invalid loop step" (.map step)

end FlowScript.Program
