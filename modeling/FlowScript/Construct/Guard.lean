import FlowScript.Step.Nested

/-!
# Guarded blocks

A guarded block has a body, and may have a handler, which names the error, and a cleanup.
-/
namespace FlowScript.Construct

structure Guard where
  /-- Absent if the body has no flow. -/
  body : Option Flow
  /-- Absent if there is no handler. -/
  handler : Option Flow
  /-- The name of the error inside the handler. -/
  errorName : Value
  /-- Absent if there is no cleanup. -/
  cleanup : Option Flow

namespace Guard

/-- A block that is present has a flow, if only an empty one. -/
def blockFlow? (block : Value) : Option Flow :=
  if block.isNull then none else some (block.flow?.getD [])

def errorNameOf (handler : Value) : Value :=
  (handler.fields?.bind fun es => es.firstOf? ["error", "as"]).getD (.text "e")

def read (step : Step) : Guard :=
  let blocks := step.guardBlocks
  ⟨blocks.body.flow?, blockFlow? blocks.handler, errorNameOf blocks.handler, blockFlow? blocks.cleanup⟩

end Guard

end FlowScript.Construct
