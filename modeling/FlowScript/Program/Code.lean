import FlowScript.Number.Notation

/-!
# Generated code

The body of a generated program is a tree. A block is a header and the items one level deeper; lines
and comments stand at the level of the block that holds them. Rendering lays the tree out with the
indentation of every level.
-/
namespace FlowScript.Program

inductive Statement where
  /-- `target = value`, where a step binds a value. -/
  | assign (target value : String)
  /-- Sets the counter of a loop to zero. -/
  | start (counter : String)
  /-- Binds a name before the functions that assign to it. -/
  | hoist (name : String)
  /-- Runs branch functions together and stores their results in the outputs, if there are any. -/
  | join (outputs functions : List String)
  | nonlocals (names : List String)
  | increment (counter : String)
  | returns (value : String)
  | evaluate (code : String)
  | pass
deriving Repr, DecidableEq

inductive Header where
  /-- The function that runs the whole flow. -/
  | run (agent : String)
  | whenTrue (condition : String)
  | otherwise
  | forEach (index : Option String) (item items : String)
  | counted (index count : String)
  | bounded (counter bound condition : String)
  | attempt
  | handle (errorName : Option String)
  | cleanup
  | branch (function : String)
deriving Repr, DecidableEq

inductive Item where
  | line (statement : Statement)
  | comment (text : String)
  | blank
  | block (header : Header) (body : List Item)

abbrev Block := List Item

def separated (parts : List String) : String := String.intercalate ", " parts

def joinCode (functions : List String) : String :=
  "await _gather_all(" ++ separated (functions.map (· ++ "()")) ++ ")"

namespace Statement

def code : Statement → String
  | .assign target value => target ++ " = " ++ value
  | .start counter => counter ++ " = 0"
  | .hoist name => name ++ " = None"
  | .join [] functions => joinCode functions
  | .join [output] functions => output ++ " = (" ++ joinCode functions ++ ")[0]"
  | .join outputs functions => separated outputs ++ " = " ++ joinCode functions
  | .nonlocals names => "nonlocal " ++ separated names
  | .increment counter => counter ++ " += 1"
  | .returns value => "return " ++ value
  | .evaluate code => code
  | .pass => "pass"

/-- The names that a statement assigns to. -/
def targets : Statement → List String
  | .assign target _ => [target]
  | .start counter => [counter]
  | .hoist name => [name]
  | .join outputs _ => outputs
  | .increment counter => [counter]
  | _ => []

end Statement

namespace Header

def code : Header → String
  | .run agent => "async def run_flow(" ++ agent ++ "):"
  | .whenTrue condition => "if " ++ condition ++ ":"
  | .otherwise => "else:"
  | .forEach none item items => "for " ++ item ++ " in " ++ items ++ ":"
  | .forEach (some index) item items =>
    "for " ++ index ++ ", " ++ item ++ " in enumerate(" ++ items ++ "):"
  | .counted index count => "for " ++ index ++ " in range(" ++ count ++ "):"
  | .bounded counter bound condition =>
    "while " ++ counter ++ " < " ++ bound ++ " and " ++ condition ++ ":"
  | .attempt => "try:"
  | .handle none => "except Exception:"
  | .handle (some name) => "except Exception as " ++ name ++ ":"
  | .cleanup => "finally:"
  | .branch function => "async def " ++ function ++ "():"

/-- The names that a header binds for its body. -/
def targets : Header → List String
  | .forEach index item _ => index.toList ++ [item]
  | .counted index _ => [index]
  | .handle name => name.toList
  | _ => []

end Header

/-- The indentation of every level. -/
abbrev Margin := Int → String

/-- A text once for every level; there is no indentation at level zero and below. -/
def Margin.copies (indent : String) : Margin := fun level =>
  String.join (List.replicate level.toNat indent)

mutual

/-- The lines of an item at a level. -/
def Item.lines (margin : Margin) (level : Int) : Item → List String
  | .line statement => [margin level ++ statement.code]
  | .comment text => [margin level ++ "# " ++ text]
  | .blank => [""]
  | .block header body => (margin level ++ header.code) :: blockLines margin (level + 1) body

def blockLines (margin : Margin) (level : Int) : List Item → List String
  | [] => []
  | item :: items => item.lines margin level ++ blockLines margin level items

end

/-- The lines of a block at a level. -/
def Block.lines (margin : Margin) (level : Int) (block : Block) : List String :=
  blockLines margin level block

end FlowScript.Program
