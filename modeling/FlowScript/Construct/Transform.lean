import FlowScript.Fault
import FlowScript.Step.Kind

/-!
# Data transforms

A transform applies operations in order to a source collection. A single operation may be written
flat, with its parameters among the fields of the transform; a chain is a list of mappings, each
named by its operation.
-/
namespace FlowScript.Construct

inductive Operation where
  | filter
  | sort
  | map
  | reduce
  | slice
  | unique
  | distinct
  | flatten
  | groupBy
deriving Repr, DecidableEq

namespace Operation

def all : List Operation :=
  [.filter, .sort, .map, .reduce, .slice, .unique, .distinct, .flatten, .groupBy]

def name : Operation → String
  | .filter => "filter"
  | .sort => "sort"
  | .map => "map"
  | .reduce => "reduce"
  | .slice => "slice"
  | .unique => "unique"
  | .distinct => "distinct"
  | .flatten => "flatten"
  | .groupBy => "groupBy"

def named? (s : String) : Option Operation := all.find? (·.name == s)

/-- The parameters that the flat form may give. -/
def flatKeys : Operation → List String
  | .filter => ["condition", "predicate", "where"]
  | .sort => ["by", "field", "order"]
  | .map => ["template", "fields", "expression"]
  | .reduce => ["reducer", "expression", "initial"]
  | .slice => ["start", "end"]
  | .unique => ["by", "key", "field"]
  | .distinct => ["by", "key", "field"]
  | .flatten => ["depth"]
  | .groupBy => ["by", "key", "field"]

end Operation

/-- One operation of a transform with its short argument and its parameters. -/
structure Stage where
  operation : Operation
  argument : Value
  params : Fields

/-- The short argument, or else the first of the named parameters. -/
def Stage.argumentOr (stage : Stage) (names : List String) : Value :=
  if stage.argument.isNull then stage.params.firstOf names else stage.argument

/-- The field that a stage compares by. -/
def Stage.keyField (stage : Stage) : Value :=
  match stage.argument with
  | .null => stage.params.firstOf ["by", "key", "field"]
  | .bool _ => stage.params.firstOf ["by", "key", "field"]
  | v => v

structure Transform where
  source : Value
  stages : List Stage
  output : Value
  /-- Operations that were not recognised. -/
  unknown : List Value

namespace Transform

def outputKeys : List String := ["output", "name"]

def sourceKeys : List String := ["input", "source"]

def defaultOutput : String := "transformed_data"

/-- The parameters of the flat form, in the order of the operation's own keys. -/
def flatParams (transform : Fields) (op : Operation) : Fields :=
  op.flatKeys.filterMap fun key => (transform.get? key).map fun v => (.text key, v)

/-- An entry of a chain: the first operation name among its keys, in the order of the operations. -/
def chained? (v : Value) : Option Stage := do
  let entry ← v.fields?
  let op ← Operation.all.find? fun op => entry.has op.name
  let beside := entry.without [op.name]
  let argument := entry.get op.name
  match argument.fields? with
  | some params => return ⟨op, .null, beside.insertAll params⟩
  | none => return ⟨op, argument, beside⟩

structure Parts where
  stages : List Stage
  unknown : List Value

def flatParts (transform : Fields) : Except Fault Parts :=
  match transform.get "operation" with
  | .null => .ok ⟨[], []⟩
  | .text s =>
    match Operation.named? s with
    | some op => .ok ⟨[⟨op, .null, flatParams transform op⟩], []⟩
    | none => .ok ⟨[], [.text s]⟩
  | v => if v.isHashable then .ok ⟨[], [v]⟩ else .error .operationNotHashable

def chainParts (transform : Fields) : Parts :=
  let entries := (transform.get "operations").items
  ⟨entries.filterMap chained?, entries.filter fun e => (chained? e).isNone⟩

def ofFields (transform : Fields) : Except Fault Transform := do
  let flat ← flatParts transform
  let chain := chainParts transform
  return {
    source := transform.firstOf sourceKeys
    stages := flat.stages ++ chain.stages
    output := (transform.firstOf? outputKeys).getD (.text defaultOutput)
    unknown := flat.unknown ++ chain.unknown }

def read? (step : Step) : Except Fault (Option Transform) :=
  (step.get "data_transform").fields?.mapM ofFields

end Transform

end FlowScript.Construct
