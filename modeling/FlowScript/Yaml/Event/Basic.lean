import FlowScript.Yaml.Failure

/-!
# Events

A document as the sequence of its nodes' starts and ends. A scalar whose tag is to be found from its
text is marked as implicit.
-/
namespace FlowScript.Yaml

/-- What is written in front of a node. -/
structure Properties where
  anchor : Option String := none
  tag : Option String := none
deriving Repr, DecidableEq

inductive Event.Kind where
  | streamStart
  | streamEnd
  | documentStart
  | documentEnd
  | reference (anchor : String)
  | scalar (properties : Properties) (implicit : Bool) (text : String)
  | sequenceStart (properties : Properties)
  | sequenceEnd
  | mappingStart (properties : Properties)
  | mappingEnd
deriving Repr, DecidableEq

structure Event where
  kind : Event.Kind
  start : Mark
deriving Repr, DecidableEq

/-- A node that is not written. -/
def Event.empty (mark : Mark) : Event := ⟨.scalar {} true "", mark⟩

end FlowScript.Yaml
