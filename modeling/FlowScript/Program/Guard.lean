import FlowScript.Construct.Guard
import FlowScript.Program.Pass

/-!
# Guarded blocks

The handler and the cleanup are written as they are present. A body with neither gets a handler that
does nothing.
-/
namespace FlowScript.Program

open Construct Pass

def handlerBlock (nested : Flow → Pass Block) (guard : Guard) : Pass Block := do
  match guard.handler with
  | some flow =>
    let name ← targetName guard.errorName "e" "catch alias"
    declare name
    let body ← nested flow
    return [.block (.handle (some name)) (filled body)]
  | none =>
    if guard.cleanup.isSome then return []
    else
      warn "Try block without catch or finally; errors are silently ignored"
      return [.block (.handle none) [.line .pass]]

def cleanupBlock (nested : Flow → Pass Block) (guard : Guard) : Pass Block := do
  match guard.cleanup with
  | some flow =>
    let body ← nested flow
    return [.block .cleanup (filled body)]
  | none => return []

def guardBlock (nested : Flow → Pass Block) (step : Step) : Pass Block := do
  let guard := Guard.read step
  if guard.body.isNone then warn "Try block without a flow; generating an empty try body"
  let body ← nested (guard.body.getD [])
  let handler ← handlerBlock nested guard
  let cleanup ← cleanupBlock nested guard
  return .block .attempt (filled body) :: (handler ++ cleanup)

end FlowScript.Program
