import FlowScript.Validation.Construct
import FlowScript.Validation.Feature
import FlowScript.Validation.Import
import FlowScript.Validation.Native
import FlowScript.Validation.Reference
import FlowScript.Validation.Skeleton

/-!
# Validation

A document that can be read is checked on every level, so that one report shows as many problems as
possible: its skeleton, its constructs or its fitness for the native mode, its declared features, its
references and its imports.
-/
namespace FlowScript

open File (Path Tree)

/-- How the mode of a validation is chosen. -/
inductive ModeChoice where
  | detected
  | forced (mode : Mode)
  | spelled (name : Value)

namespace Validation

structure Request where
  source : Source
  /-- The directory that relative imports start from, if not that of the document. -/
  base : Option Path := none
  /-- The directory that imports must not leave, if not the base. -/
  root : Option Path := none
  mode : ModeChoice := .detected

structure ChosenMode where
  mode : Mode
  diagnostics : List Diagnostic := []

/-- The mode to validate for; a mode that is not known is reported and not used. -/
def chooseMode (choice : ModeChoice) (detected : Mode) : Except Fault ChosenMode := do
  match choice with
  | .detected => return ⟨detected, []⟩
  | .forced mode => return ⟨mode, []⟩
  | .spelled name =>
    match ← Mode.spelled? name with
    | some mode => return ⟨mode, []⟩
    | none => return ⟨detected, [.warning .compatibility ("Unknown validation mode '" ++ name.display ++
        "'; using detected mode '" ++ detected.name ++ "'.") ""]⟩

def checkMode (settings : Settings) (mode : Mode) (document : Value) :
    Except Fault (List Diagnostic) :=
  match mode with
  | .native => checkNative settings document
  | .extended => checkExtended settings document

/-- Checks the entries of a document. -/
def checkFields (tree : Tree) (settings : Settings) (request : Request) (loaded : Loaded)
    (document : Fields) : Except Fault (List Diagnostic) := do
  let skeleton ← checkSkeleton document
  let detection ← Detection.ofFields (← settings.walkLevels) document
  let chosen ← chooseMode request.mode detection.mode
  let constructs ← checkMode settings chosen.mode (.map document)
  let features ← checkFeatures detection.features document
  let references ← checkReferences settings document
  let imports ← checkImports tree settings (request.base.getD (loaded.base tree)) request.root
    loaded.file (.map document)
  return skeleton ++ chosen.diagnostics ++ constructs ++ features ++ references ++ imports

/-- Checks a document that was read. -/
def checkLoaded (tree : Tree) (settings : Settings) (request : Request) (loaded : Loaded) :
    Except Fault (List Diagnostic) :=
  match loaded.document.fields? with
  | none => .ok [skeletonError "Document root must be a YAML mapping, not a scalar or list." "/"]
  | some document => checkFields tree settings request loaded document

def isAbsent : Source → Bool
  | .value .null => true
  | source => source.isBlank

/-- Everything that is found about a request. -/
def diagnose (tree : Tree) (settings : Settings) (request : Request) :
    Except Fault (List Diagnostic) :=
  if isAbsent request.source then
    .ok [.error .parse "Input must be a non-empty file path or YAML text." ""]
  else
    match request.source.load tree settings with
    | .ok loaded => checkLoaded tree settings request loaded
    | .error (.refused e) => .ok [.error .parse e.message e.location]
    | .error (.fault f) => .error f

end Validation

/-- Validates a document. -/
def validate (tree : Tree) (settings : Settings) (request : Validation.Request) :
    Except Fault Report := do
  return .ofDiagnostics (← Validation.diagnose tree settings request)

end FlowScript
