import FlowScript.Detection
import FlowScript.Diagnostic

/-!
# Declared features

A document may list the features it uses; the list is compared with those that are in use.
-/
namespace FlowScript.Validation

def featureWarning (message location : String) : Diagnostic := .warning .reference message location

def featureNames : String := String.intercalate ", " (Feature.all.map Feature.name)

/-- A declared feature has to be known and in use. -/
def checkDeclared (used : List Feature) (declared : Value) (i : Nat) :
    Except Fault (List Diagnostic) := do
  let location := "/features[" ++ Number.natText i ++ "]"
  match Feature.all.find? fun f => declared.isTextOf f.name with
  | none =>
    return [featureWarning ("Unknown feature '" ++ (← declared.shown) ++
      "'. Valid features are: " ++ featureNames ++ ".") location]
  | some f =>
    if used.contains f then return []
    return [featureWarning ("Feature '" ++ f.name ++ "' is declared but not used.") location]

def checkUndeclared (used : List Feature) (declared : List Value) : List Diagnostic :=
  (used.filter fun f => !declared.any (·.isTextOf f.name)).map fun f =>
    featureWarning ("Feature '" ++ f.name ++ "' is used but not declared in 'features'.") "/features"

def checkFeatures (used : List Feature) (document : Fields) : Except Fault (List Diagnostic) := do
  let features := document.get "features"
  match features.items? with
  | some declared =>
    let found ← declared.zipIdx.mapM fun (v, i) => checkDeclared used v i
    return found.flatten ++ checkUndeclared used declared
  | none =>
    if features.isNull then return []
    return [featureWarning "'features' should be a list of feature names." "/features"]

end FlowScript.Validation
