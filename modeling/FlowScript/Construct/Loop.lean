import FlowScript.Step.Nested

/-!
# Loops

A loop runs over the items of a collection, while a condition holds, or a number of times. Most of
its fields have several names.
-/
namespace FlowScript.Construct

structure Loop where
  kind : Option String
  flow : Flow
  items : Value
  itemVar : Value
  indexVar : Value
  condition : Value
  maxIterations : Value
  counterVar : Value
  count : Value

namespace Loop

def kinds : List String := ["for", "while", "repeat"]

def itemsKeys : List String := ["items", "in", "collection"]

def itemVarKeys : List String := ["itemVar", "as", "item"]

def indexVarKeys : List String := ["indexVar", "index"]

def countKeys : List String := ["count", "times"]

def maxIterationsKeys : List String := ["maxIterations", "max_iterations"]

def ofFields (loop : Fields) : Loop where
  kind := (loop.get "type").text?
  flow := loop.flow?.getD []
  items := loop.firstOf itemsKeys
  itemVar := (loop.firstOf? itemVarKeys).getD (.text "item")
  indexVar := loop.firstOf indexVarKeys
  condition := loop.get "condition"
  maxIterations := loop.firstOf maxIterationsKeys
  counterVar := loop.get "counterVar"
  count := loop.firstOf countKeys

def read? (step : Step) : Option Loop := (step.get "loop").fields?.map ofFields

end Loop

end FlowScript.Construct
