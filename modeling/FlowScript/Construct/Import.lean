import FlowScript.Step.Kind
import FlowScript.Text.Blank

/-!
# Imports and sub-flows

A file may be imported by a step or by an entry of the document. A `use` step runs a sub-flow.
-/
namespace FlowScript

/-- A text that is not blank. -/
def Value.nonBlank? (v : Value) : Option String :=
  v.text?.filter fun s => Text.strip s != ""

namespace Construct

inductive Import.Kind where
  | flow
  | data
deriving Repr, DecidableEq

def Import.Kind.name : Import.Kind → String
  | .flow => "flow"
  | .data => "data"

structure Import where
  path : Value
  /-- The variable that the import is bound to. -/
  boundName : Option String
  params : Value
  /-- Absent if the extension of the file decides. -/
  kind : Option Import.Kind

namespace Import

def ofStep (step : Step) : Import :=
  ⟨step.get "import", (step.get "as").text?, step.get "with", none⟩

/-- The keys under which an entry names its file, with the kind that each gives it. -/
def entryKeys : List (String × Option Kind) :=
  [("flow", some .flow), ("data", some .data), ("path", none)]

def ofFields? (es : Fields) : Option Import :=
  (entryKeys.find? fun k => !(es.get k.1).isNull).map fun k =>
    ⟨es.get k.1, (es.get "as").text?, es.get "with", k.2⟩

/-- An entry is a path or a mapping that names one. -/
def ofEntry? : Value → Option Import
  | .text s => some ⟨.text s, none, .null, none⟩
  | v => v.fields?.bind ofFields?

end Import

structure Use where
  reference : Value
  params : Value

def Use.ofStep (step : Step) : Use := ⟨step.get "use", step.get "with"⟩

end Construct

end FlowScript
