import FlowScript.Marker
import FlowScript.Source
import FlowScript.Value.Nodes

/-!
# Modes and features

A document that uses none of the extended features can be run as it is. Features are recognised by
their keywords wherever they stand, and by markers in texts.
-/
namespace FlowScript

inductive Mode where
  | native
  | extended
deriving Repr, DecidableEq

namespace Mode

def name : Mode → String
  | .native => "native"
  | .extended => "extended"

def all : List Mode := [.native, .extended]

def named? (s : String) : Option Mode := all.find? (·.name == s)

/-- The mode that a value spells, in any case and with blanks around it. -/
def spelled? (v : Value) : Except Fault (Option Mode) := do
  return named? (Text.toLower (Text.strip (← v.shown)))

end Mode

/-- The extended features. -/
inductive Feature where
  | logic
  | loop
  | variables
  | importing
  | transform
  | guarded
  | call
  | parallel
deriving Repr, DecidableEq

namespace Feature

/-- The features in the order in which they are listed. -/
def all : List Feature :=
  [.logic, .loop, .variables, .importing, .transform, .guarded, .call, .parallel]

def name : Feature → String
  | .logic => "logic"
  | .loop => "loop"
  | .variables => "variables"
  | .importing => "import"
  | .transform => "data_transform"
  | .guarded => "try_catch"
  | .call => "external_call"
  | .parallel => "parallel"

/-- The keywords of the extended features. -/
def keywords : List (String × Feature) := [
  ("variables", .variables), ("logic", .logic), ("loop", .loop), ("import", .importing),
  ("use", .importing), ("data_transform", .transform), ("try", .guarded), ("catch", .guarded),
  ("finally", .guarded), ("external_call", .call), ("parallel", .parallel)]

def ofKeyword? (key : String) : Option Feature := keywords.lookup key

/-- The features that a single node shows. -/
def ofNode : Value → List Feature
  | .text s => if (Marker.inners s).any (!Marker.isEnvironment ·) then [.variables] else []
  | v => (v.fields?.getD []).filterMap fun e => e.1.text?.bind ofKeyword?

/-- The features in use within a number of levels, in their fixed order. -/
def used (levels : Nat) (document : Value) : List Feature :=
  let found := (document.nodes levels "").flatMap fun node => ofNode node.value
  all.filter found.contains

/-- The features in use in a document whose nodes have paths. -/
def detect (levels : Nat) (document : Value) : Except Fault (List Feature) := do
  document.checkNodes levels
  return used levels document

end Feature

structure Detection where
  mode : Mode := .native
  features : List Feature := []
  /-- Whether the document has to be compiled before it can run. -/
  needsCode : Bool := false
  warnings : List String := []

namespace Detection

def unknownEngine (declared : Value) : String :=
  "Unknown engine value '" ++ declared.display ++ "'. Valid values are 'native' or 'extended'."

/-- The mode that the features in use call for. -/
def ofFeatures (features : List Feature) (warnings : List String) : Detection :=
  ⟨if features.isEmpty then .native else .extended, features, !features.isEmpty, warnings⟩

/-- A declared engine decides the mode; one that is not known is reported and ignored. -/
def ofFields (levels : Nat) (document : Fields) : Except Fault Detection := do
  let features ← Feature.detect levels (.map document)
  let declared := document.get "engine"
  if declared.isNull then return ofFeatures features []
  match ← Mode.spelled? declared with
  | some mode => return ⟨mode, features, mode == .extended, []⟩
  | none => return ofFeatures features [unknownEngine declared ++ " Falling back to feature detection."]

def ofDocument (settings : Settings) (document : Value) : Except Fault Detection := do
  match document.fields? with
  | some es => ofFields (← settings.walkLevels) es
  | none => return {}

/-- Detects the mode of a source; one that cannot be read counts as native. -/
def ofSource (tree : File.Tree) (settings : Settings) (source : Source) : Except Fault Detection :=
  if source.isBlank then .ok {}
  else
    match source.load tree settings with
    | .ok loaded => ofDocument settings loaded.document
    | .error (.refused _) => .ok {}
    | .error (.fault f) => .error f

end Detection

end FlowScript
