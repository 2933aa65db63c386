import FlowScript.Program.Pass

/-!
# The preamble of a program

Import statements come in two groups, modules of the standard library and others. In each group plain
imports stand before selective ones and both are in the order of their modules. The helpers follow.
-/
namespace FlowScript.Program

/-- The modules that do not belong to the standard library. -/
def thirdParty : List String := ["playwright", "yaml"]

/-- The text before the first separator, or all of it. -/
def before (separator : Char) (s : String) : String :=
  String.ofList (s.toList.takeWhile (· != separator))

/-- The outermost module that a statement imports from. -/
def topModule (statement : String) : String :=
  match Text.words statement with
  | _ :: module :: _ => before '.' module
  | _ => ""

/-- Refuses a statement that names no module. -/
def checkStatement (statement : String) : Except Fault Unit :=
  if (Text.words statement).length < 2 then .error .importWithoutModule else .ok ()

def isSelective (statement : String) : Bool := "from ".toList.isPrefixOf statement.toList

/-- Plain imports first, then by module. -/
def importLe (a b : String) : Bool :=
  if isSelective a == isSelective b then topModule a ≤ topModule b else !isSelective a

def sortImports (statements : List String) : List String := statements.mergeSort importLe

def importGroups (statements outside : List String) : List String :=
  let isOutside (statement : String) := outside.contains (topModule statement)
  let groups := [statements.filter (!isOutside ·), statements.filter isOutside]
  (groups.filter (!·.isEmpty)).map fun group => String.intercalate "\n" (sortImports group)

/-- Each statement once. -/
def distinctImports (statements : List String) : List String :=
  (statements.foldl Needs.addImport {}).imports

namespace Needs

/-- The helpers in the order in which they are written. -/
def orderedHelpers (needs : Needs) : List Helper := Helper.all.filter needs.helpers.contains

/-- Every statement that the program needs, those of its helpers included. -/
def allImports (needs : Needs) (extra : List String) : List String :=
  distinctImports (needs.imports ++ extra ++ needs.orderedHelpers.flatMap Helper.imports)

def preamble (needs : Needs) (extra outside : List String) : Except Fault String := do
  let statements := needs.allImports extra
  statements.forM checkStatement
  let imports :=
    if statements.isEmpty then []
    else [String.intercalate "\n\n" (importGroups statements outside)]
  let sections := imports ++ needs.orderedHelpers.map Helper.source
  return if sections.isEmpty then "" else "\n\n" ++ String.intercalate "\n\n\n" sections

end Needs

end FlowScript.Program
